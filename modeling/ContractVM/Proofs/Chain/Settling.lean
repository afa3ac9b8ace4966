/-
What becomes of the queue when a tick is called.

A tick for a time is answered, and by then every transaction that was in the queue has been
settled once (`tick_settles`).  A tick for no time is refused, but it takes the queue all the
same, and what was in it is never settled (`tick_loses`).
-/
import ContractVM.Proofs.Chain.Order
import Mathlib.Data.List.Nodup

namespace ContractVM
namespace Chain

variable {c : Chain} {m : Machine} {moves : List Move}

/-! ## Settled once -/

theorem settled_sublist (m : Machine) (moves : List Move) :
    (((on m).play moves).settled.map Prod.fst).Sublist
      ((((on m).requests moves).flatMap Job.batch).map Prod.fst) := by
  obtain ⟨deeds, tracked⟩ := tracks m moves
  rw [tracked.settled, serial_settled, tracked.jobs, List.flatMap_append, List.map_append]
  exact List.sublist_append_left ..

/-- No number is in two batches, or in a batch and in the queue. -/
theorem nodup_batches (m : Machine) (moves : List Move) :
    ((((on m).requests moves).flatMap Job.batch).map Prod.fst ++
      ((on m).play moves).queue.map Prod.fst).Nodup := by
  have hsublist := (requests_batches (on m) moves).1.map Prod.fst
  rw [List.map_append] at hsublist
  exact hsublist.nodup (nodup_numbered 0 _)

theorem nodup_settled (m : Machine) (moves : List Move) :
    (((on m).play moves).settled.map Prod.fst).Nodup :=
  (settled_sublist m moves).nodup (List.nodup_append.1 (nodup_batches m moves)).1

theorem queue_numbers (m : Machine) (moves : List Move) {q : Nat × Transaction}
    (h : q ∈ ((on m).play moves).queue) : q.1 < ((on m).play moves).submissions := by
  have hmem := (requests_batches (on m) moves).1.subset (List.mem_append_right _ h)
  have hid := List.mem_map_of_mem (f := Prod.fst) hmem
  rw [on, List.nil_append, map_fst_numbered, List.mem_range'_1] at hid
  rw [submissions_play]
  exact hid.2

/-- What is taken from an empty queue was submitted since. -/
theorem batches_numbers (empty : c.queue = []) {id : Nat}
    (h : id ∈ ((c.requests moves).flatMap Job.batch).map Prod.fst) : c.submissions ≤ id := by
  obtain ⟨q, hq, rfl⟩ := List.mem_map.1 h
  have hmem := (requests_batches c moves).1.subset (List.mem_append_left _ hq)
  have hid := List.mem_map_of_mem (f := Prod.fst) hmem
  rw [empty, List.nil_append, map_fst_numbered, List.mem_range'_1] at hid
  exact hid.1

/-- The outcomes of a batch are found among all settlements by the numbers of its transactions. -/
theorem filterMap_lookup {settled part : List (Nat × Except Fault Receipt)}
    (nodup : (settled.map Prod.fst).Nodup) (hpart : part ⊆ settled)
    {batch : List (Nat × Transaction)} (ids : part.map Prod.fst = batch.map Prod.fst) :
    (part.filterMap fun s => s.2.toOption) =
      batch.filterMap fun q => (settled.lookup q.1).bind Except.toOption := by
  have hlookup : ∀ s ∈ part, s.2.toOption = (settled.lookup s.1).bind Except.toOption := by
    intro s hs
    rw [(Table.lookup_eq_some_iff nodup).2 (hpart hs)]
    rfl
  rw [List.filterMap_congr hlookup]
  have hmap := congrArg (List.filterMap fun id => (settled.lookup id).bind Except.toOption) ids
  rw [List.filterMap_map, List.filterMap_map] at hmap
  exact hmap

/-! ## Ticks -/

/-- Each transaction of the batch has been settled once, and the answer `a` to the tick that took
it is the block with the receipts of those that were not rejected, in the order of the batch. -/
structure Accounted (c : Chain) (batch : List (Nat × Transaction)) (a : Except Fault Answer) :
    Prop where
  once : ∀ q ∈ batch, (c.settled.map Prod.fst).count q.1 = 1
  answer : (∃ b, a = .ok (.block b) ∧
      b.receipts = batch.filterMap fun q => (c.settled.lookup q.1).bind Except.toOption) ∨
    ∃ f, a = .error f ∧ f.Oversize

theorem answer_tick (reachable : m.Reachable) {t : Ticket} {batch : List (Nat × Transaction)}
    {height : Nat} {timestamp : Int} {a : Except Fault Answer}
    (asked : ((on m).requests moves)[t]? = some (.block batch height timestamp))
    (answered : ((on m).play moves).answer? t = some a) :
    Accounted ((on m).play moves) batch a := by
  obtain ⟨deeds, tracked⟩ := tracks m moves
  have htold : (serial m deeds).answers[t]? = some a := by
    rw [← lookup_of_perm tracked.told, lookup_told, answered]
    rfl
  have hlength := (List.getElem?_eq_some_iff.1 htold).1
  rw [length_answers] at hlength
  have hjob : (deeds.filterMap Deed.job?)[t]? = some (.block batch height timestamp) := by
    rw [← asked, tracked.jobs, List.getElem?_append_left hlength]
  obtain ⟨m', hm', hanswer, hsettles⟩ := serial_ran (m := m) hjob
  rw [← tracked.settled] at hsettles
  have hids := map_settlements { m' with block := ⟨timestamp, height⟩ } batch
  have hnodup := nodup_settled m moves
  constructor
  · intro q hq
    have hmem : q.1 ∈ (Job.settles m' (.block batch height timestamp)).map Prod.fst :=
      hids ▸ List.mem_map_of_mem hq
    exact List.count_eq_one_of_mem hnodup ((hsettles.map Prod.fst).subset hmem)
  · rw [Option.some.inj (htold.symm.trans hanswer)]
    rcases Job.answer_block (hm' reachable) batch height timestamp with ⟨root, hb⟩ | failed
    · exact .inl ⟨_, hb, filterMap_lookup hnodup hsettles.subset hids⟩
    · exact .inr failed

/-- A tick for a time has a ticket, which is answered when nothing is left, and whatever else is
asked for, the transactions that were in the queue are accounted for once it is answered. -/
theorem tick_settles (reachable : m.Reachable) (before : List Move) {now : Number}
    (time : now.toInt? ≠ none) : ∃ t, (((on m).play before).tick now).1 = .ok t ∧
      ∀ after : List Move,
        ((on m).play (before ++ .tick now :: after)).drain.answer? t ≠ none ∧
        ∀ a, ((on m).play (before ++ .tick now :: after)).answer? t = some a →
          Accounted ((on m).play (before ++ .tick now :: after)) ((on m).play before).queue a := by
  obtain ⟨timestamp, htime⟩ := Option.ne_none_iff_exists'.1 time
  refine ⟨((on m).requests before).length, (tick_asks m before [] htime).1, fun after => ?_⟩
  have asked := (tick_asks m before after htime).2
  refine ⟨?_, fun a ha => answer_tick reachable asked ha⟩
  rcases sealed_drain reachable asked with ⟨b, hb⟩ | ⟨f, hf, -⟩
  · simp [hb]
  · simp [hf]

/-! ## Ticks for no time -/

/-- A tick for no time is refused and changes nothing but the queue, which is lost: whatever is
asked for afterwards, no transaction that was in it is settled. -/
theorem tick_loses (m : Machine) (before : List Move) {now : Number} (time : now.toInt? = none) :
    ((on m).play before).tick now =
        (.error (.notIntegral now), { (on m).play before with queue := [] }) ∧
      ∀ after : List Move, ∀ q ∈ ((on m).play before).queue,
        q.1 ∉ ((on m).play (before ++ .tick now :: after)).settled.map Prod.fst := by
  have htick : ((on m).play before).tick now =
      (.error (.notIntegral now), { (on m).play before with queue := [] }) := by
    unfold tick
    simp only [time]
  refine ⟨htick, fun after q hq hsettled => ?_⟩
  have hmove : ((on m).play before).move (.tick now) = { (on m).play before with queue := [] } :=
    congrArg Prod.snd htick
  have hbatch := (settled_sublist m _).subset hsettled
  rw [requests_append] at hbatch
  simp only [requests, requested, time, List.nil_append, hmove, List.flatMap_append,
    List.map_append, List.mem_append] at hbatch
  rcases hbatch with hearlier | hlater
  · exact (List.nodup_append.1 (nodup_batches m before)).2.2 _ hearlier _
      (List.mem_map_of_mem hq) rfl
  · -- What is taken later was submitted later, and has a greater number.
    have hfresh : ((on m).play before).submissions ≤ q.1 :=
      batches_numbers (c := { (on m).play before with queue := [] }) rfl hlater
    have hknown := queue_numbers m before hq
    omega

/-- Whatever a chain has come to and whatever number the time is, a tick either accounts for the
transactions in the queue, or it is refused, loses them and changes nothing else. -/
theorem tick_accounts (m : Machine) (reachable : m.Reachable) (before : List Move) (now : Number) :
    (now.toInt? ≠ none → ∃ t, (((on m).play before).tick now).1 = .ok t ∧
      ∀ after : List Move,
        ((on m).play (before ++ .tick now :: after)).drain.answer? t ≠ none ∧
        ∀ a, ((on m).play (before ++ .tick now :: after)).answer? t = some a →
          Accounted ((on m).play (before ++ .tick now :: after)) ((on m).play before).queue a) ∧
    (now.toInt? = none →
      ((on m).play before).tick now =
          (.error (.notIntegral now), { (on m).play before with queue := [] }) ∧
        ∀ after : List Move, ∀ q ∈ ((on m).play before).queue,
          q.1 ∉ ((on m).play (before ++ .tick now :: after)).settled.map Prod.fst) :=
  ⟨tick_settles reachable before, tick_loses m before⟩

theorem tick_accounts_ring :
    (∃ t, (((on (.start .standard)).play [.submit ring]).tick (.ofNat 1)).1 = .ok t) ∧
      (((on (.start .standard)).play [.submit ring]).tick .notANumber).1 =
        .error (.notIntegral .notANumber) := by
  have reachable : (Machine.start .standard).Reachable := ⟨.standard, _, [], rfl⟩
  obtain ⟨t, ht, -⟩ := (tick_accounts _ reachable [.submit ring] (.ofNat 1)).1 (by decide)
  have hlost := (tick_accounts _ reachable [.submit ring] .notANumber).2 rfl
  exact ⟨⟨t, ht⟩, congrArg Prod.fst hlost.1⟩

/-- A transaction is queued, a tick for half past one takes it, and the next one finds nothing. -/
theorem submission_lost :
    ((start .standard).play [.submit ring]).pending = 1 ∧
      (((start .standard).play [.submit ring]).tick (.finite (3 / 2))).1 =
        .error (.notIntegral (.finite (3 / 2))) ∧
      ((start .standard).play [.submit ring, .tick (.finite (3 / 2))]).pending = 0 ∧
      ((start .standard).play
        [.submit ring, .tick (.finite (3 / 2)), .tick (.ofNat 2)]).drain.settled = [] := by
  decide +kernel

end Chain
end ContractVM
