/-
The lock is given to one request at a time, in the order of the requests, whatever is done
with it.

It can be asked for, given back by whoever it was granted to, and used for a task, which gives
it back when it returns and when it throws.  A ticket may be given back any number of times,
also when others have the lock by then (`Use`).

Tickets take turns all the while (`Mutex.Kept`), and what has been granted or given back stays
so (`Mutex.Earlier`).  Every use preserves both, and what there is to say about the lock
(`Mutex.Orderly`) follows from them.
-/
import ContractVM.Proofs.Chain.Turns
import Mathlib.Data.List.Nodup

namespace ContractVM

/-! ## The lock -/

namespace Mutex

variable {m : Mutex} {t : Ticket}

/-- Tickets take turns, and all grants are counted. -/
structure Kept (m : Mutex) : Prop where
  turn : ∃ ran n, m.InTurn ran n
  counted : m.acquisitions = m.granted.length

/-- At most one request has the lock, and passes it on to the one that has waited longest. -/
structure Orderly (m : Mutex) : Prop where
  single : m.unreleased.length ≤ 1
  held_iff : m.held = true ↔ ∃ t, m.unreleased = [t]
  held_of_waiting : m.waiting ≠ [] → m.held = true
  /-- The requests are granted as they came in, each once. -/
  order : m.granted ++ m.waiting = List.range m.requests
  counted : m.acquisitions = m.granted.length
  passes : ∀ t, m.unreleased = [t] → (m.release t).unreleased = m.waiting.take 1

/-- `m'` is what the lock `m` has become later on. -/
structure Earlier (m m' : Mutex) : Prop where
  granted : m.granted <+: m'.granted
  released : m.released ⊆ m'.released

theorem mem_unreleased : t ∈ m.unreleased ↔ t ∈ m.granted ∧ t ∉ m.released := by
  simp [unreleased]

theorem acquire_of_held (h : m.held = true) : m.acquire.2 =
    { m with requests := m.requests + 1, waiting := m.waiting ++ [m.requests] } :=
  if_pos h

theorem acquire_of_free (h : m.held ≠ true) : m.acquire.2 =
    { m with requests := m.requests + 1 }.grant m.requests :=
  if_neg h

theorem release_of_mem (h : t ∈ m.unreleased) :
    m.release t = { m with released := m.released ++ [t] }.handOff :=
  if_pos (mem_unreleased.1 h)

/-- Nothing happens for a ticket that does not have the lock. -/
theorem release_of_not_mem (h : t ∉ m.unreleased) : m.release t = m :=
  if_neg (mt mem_unreleased.2 h)

theorem Earlier.refl (m : Mutex) : m.Earlier m :=
  ⟨List.prefix_rfl, List.Subset.refl _⟩

theorem Earlier.trans {m' m'' : Mutex} (h : m.Earlier m') (h' : m'.Earlier m'') : m.Earlier m'' :=
  ⟨h.granted.trans h'.granted, List.Subset.trans h.released h'.released⟩

theorem earlier_acquire (m : Mutex) : m.Earlier m.acquire.2 := by
  by_cases hheld : m.held = true
  · rw [acquire_of_held hheld]
    exact ⟨List.prefix_rfl, List.Subset.refl _⟩
  · rw [acquire_of_free hheld]
    exact ⟨List.prefix_append _ _, List.Subset.refl _⟩

theorem earlier_handOff (m : Mutex) : m.Earlier m.handOff := by
  unfold handOff
  cases m.waiting with
  | nil => exact ⟨List.prefix_rfl, List.Subset.refl _⟩
  | cons next rest => exact ⟨List.prefix_append _ _, List.Subset.refl _⟩

theorem earlier_release (m : Mutex) (t : Ticket) : m.Earlier (m.release t) := by
  by_cases ht : t ∈ m.unreleased
  · rw [release_of_mem ht]
    have hmarked : m.Earlier { m with released := m.released ++ [t] } :=
      ⟨List.prefix_rfl, List.subset_append_left _ _⟩
    exact hmarked.trans (earlier_handOff _)
  · rw [release_of_not_mem ht]
    exact .refl m

theorem requests_acquire (m : Mutex) : m.acquire.2.requests = m.requests + 1 := by
  by_cases hheld : m.held = true
  · rw [acquire_of_held hheld]
  · rw [acquire_of_free hheld]
    rfl

theorem requests_release (m : Mutex) (t : Ticket) : (m.release t).requests = m.requests := by
  unfold release handOff
  split
  · cases m.waiting with
    | nil => rfl
    | cons next rest => rfl
  · rfl

theorem released_acquire (m : Mutex) : m.acquire.2.released = m.released := by
  by_cases hheld : m.held = true
  · rw [acquire_of_held hheld]
  · rw [acquire_of_free hheld]
    rfl

theorem released_handOff (m : Mutex) : m.handOff.released = m.released := by
  unfold handOff
  cases m.waiting with
  | nil => rfl
  | cons next rest => rfl

theorem released_release (m : Mutex) (t : Ticket) : (m.release t).released =
    if t ∈ m.unreleased then m.released ++ [t] else m.released := by
  by_cases ht : t ∈ m.unreleased
  · rw [release_of_mem ht, released_handOff, if_pos ht]
  · rw [release_of_not_mem ht, if_neg ht]

theorem mem_released_self (ht : t ∈ m.granted) : t ∈ (m.release t).released := by
  rw [released_release]
  split
  · exact List.mem_append_right _ (List.mem_singleton_self t)
  · next hnot => exact Classical.byContradiction fun h => hnot (mem_unreleased.2 ⟨ht, h⟩)

theorem mem_released_of_ne {u : Ticket} (hne : u ≠ t) (h : u ∈ (m.release t).released) :
    u ∈ m.released := by
  rw [released_release] at h
  split at h
  · exact (List.mem_append.1 h).resolve_right fun hu => hne (List.mem_singleton.1 hu)
  · exact h

/-! ### Turns -/

theorem kept_empty : ({} : Mutex).Kept := ⟨⟨0, 0, inTurn_empty⟩, rfl⟩

theorem counted_grant (h : m.acquisitions = m.granted.length) (t : Ticket) :
    (m.grant t).acquisitions = (m.grant t).granted.length := by
  simp [grant, h]

theorem counted_handOff (h : m.acquisitions = m.granted.length) :
    m.handOff.acquisitions = m.handOff.granted.length := by
  unfold handOff
  cases m.waiting with
  | nil => exact h
  | cons next rest => exact counted_grant (m := { m with waiting := rest }) h next

theorem Kept.acquire (h : m.Kept) : m.acquire.2.Kept := by
  obtain ⟨⟨ran, n, hturn⟩, hcounted⟩ := h
  refine ⟨⟨ran, n + 1, hturn.acquire⟩, ?_⟩
  by_cases hheld : m.held = true
  · rw [acquire_of_held hheld]
    exact hcounted
  · rw [acquire_of_free hheld]
    exact counted_grant (m := { m with requests := m.requests + 1 }) hcounted _

/-- The lock is with the ticket whose turn it is. -/
theorem InTurn.of_mem {ran n : Nat} (h : m.InTurn ran n) (ht : t ∈ m.unreleased) :
    ∃ k, n = k + 1 ∧ t = ran := by
  rw [h.unreleased] at ht
  cases n with
  | zero => cases ht
  | succ k => exact ⟨k, rfl, by simpa using ht⟩

theorem Kept.unreleased_eq (h : m.Kept) (ht : t ∈ m.unreleased) : m.unreleased = [t] := by
  obtain ⟨ran, n, hturn⟩ := h.turn
  obtain ⟨k, rfl, rfl⟩ := hturn.of_mem ht
  rw [hturn.unreleased, Nat.min_eq_right (Nat.le_add_left 1 k)]
  rfl

theorem Kept.release (h : m.Kept) (t : Ticket) : (m.release t).Kept := by
  by_cases ht : t ∈ m.unreleased
  · obtain ⟨ran, n, hturn⟩ := h.turn
    obtain ⟨k, rfl, rfl⟩ := hturn.of_mem ht
    refine ⟨⟨t + 1, k, hturn.release⟩, ?_⟩
    rw [release_of_mem ht]
    exact counted_handOff (m := { m with released := m.released ++ [t] }) h.counted
  · rw [release_of_not_mem ht]
    exact h

theorem Kept.released_lt (h : m.Kept) (ht : t ∈ m.released) : t < m.requests := by
  obtain ⟨ran, n, hturn⟩ := h.turn
  rw [hturn.released, List.mem_range] at ht
  rw [hturn.requests]
  exact Nat.lt_add_right n ht

theorem InTurn.orderly {ran n : Nat} (h : m.InTurn ran n)
    (counted : m.acquisitions = m.granted.length) : m.Orderly where
  single := by
    rw [h.unreleased, List.length_range']
    exact Nat.min_le_right n 1
  held_iff := by
    rw [h.held, h.unreleased]
    cases n with
    | zero => simp
    | succ n => simp
  held_of_waiting := by
    intro hwaits
    rw [h.held, decide_eq_true_eq]
    refine Nat.pos_of_ne_zero fun hn => hwaits ?_
    rw [h.waiting, hn]
    rfl
  order := by
    rw [h.granted, h.waiting, h.requests]
    cases n with
    | zero => simp
    | succ n =>
      have hjoin := List.range'_append_1 (s := 0) (m := ran + 1) (n := n)
      rw [Nat.zero_add, Nat.add_assoc, Nat.add_comm 1 n] at hjoin
      rw [Nat.min_eq_right (Nat.le_add_left 1 n), Nat.add_sub_cancel, List.range_eq_range',
        List.range_eq_range', hjoin]
  counted := counted
  passes := by
    intro t ht
    obtain ⟨k, rfl, rfl⟩ := h.of_mem (t := t) (ht ▸ List.mem_singleton_self t)
    rw [h.release.unreleased, h.waiting]
    cases k with
    | zero => rfl
    | succ k => simp [List.range'_succ]

theorem Kept.orderly (h : m.Kept) : m.Orderly :=
  let ⟨_, _, hturn⟩ := h.turn
  hturn.orderly h.counted

end Mutex

/-! ## Using the lock -/

namespace Exclusive

variable {τ : Type} {e : Exclusive τ} {t : Ticket}

/-- What can be done with the lock. -/
inductive Use (τ : Type) where
  | acquire
  /-- Give back a ticket, which may have been given back before. -/
  | release (t : Ticket)
  /-- Ask for the lock to run a task. -/
  | exclusive (task : τ)
  /-- The task with the ticket returns. -/
  | returned (t : Ticket)
  /-- The task with the ticket throws. -/
  | threw (t : Ticket)

/-- The ticket of a task is given back by nobody else. -/
def giveBack (e : Exclusive τ) (t : Ticket) : Exclusive τ :=
  if t ∈ e.tasks.map Prod.fst then e else { e with mutex := e.mutex.release t }

/-- A task gives the lock back when it ends, and only a task that was running ends. -/
def ended (e : Exclusive τ) (t : Ticket) : Exclusive τ :=
  if e.next?.map Prod.fst = some t then e.complete t else e

def use (e : Exclusive τ) : Use τ → Exclusive τ
  | .acquire => { e with mutex := e.mutex.acquire.2 }
  | .release t => e.giveBack t
  | .exclusive task => (e.request task).2
  | .returned t => e.ended t
  | .threw t => e.ended t

/-- What has become of a new lock. -/
def after (uses : List (Use τ)) : Exclusive τ := uses.foldl use {}

def Use.asks : Use τ → Bool
  | .acquire | .exclusive _ => true
  | _ => false

/-! ### One use -/

/-- What a use can do. -/
inductive Step (e : Exclusive τ) : Exclusive τ → Prop
  | idle : Step e e
  | acquire : Step e { e with mutex := e.mutex.acquire.2 }
  | release (t : Ticket) (foreign : t ∉ e.tasks.map Prod.fst) :
    Step e { e with mutex := e.mutex.release t }
  | request (task : τ) : Step e (e.request task).2
  | complete (t : Ticket) (running : t ∈ e.mutex.unreleased) : Step e (e.complete t)

theorem mem_of_next? {p : Ticket × τ} (h : e.next? = some p) :
    p ∈ e.tasks ∧ p.1 ∈ e.mutex.unreleased :=
  ⟨List.mem_of_find?_eq_some h, by simpa using List.find?_some h⟩

theorem ended_of_next? {p : Ticket × τ} (h : e.next? = some p) : e.ended p.1 = e.complete p.1 :=
  if_pos (by rw [h]; rfl)

theorem step_ended (e : Exclusive τ) (t : Ticket) : e.Step (e.ended t) := by
  unfold ended
  split
  · next h =>
    obtain ⟨p, hnext, rfl⟩ := Option.map_eq_some_iff.1 h
    exact .complete p.1 (mem_of_next? hnext).2
  · exact .idle

theorem step_giveBack (e : Exclusive τ) (t : Ticket) : e.Step (e.giveBack t) := by
  unfold giveBack
  split
  · exact .idle
  · next foreign => exact .release t foreign

theorem step_use (e : Exclusive τ) (u : Use τ) : e.Step (e.use u) := by
  cases u with
  | acquire => exact .acquire
  | release t => exact step_giveBack e t
  | exclusive task => exact .request task
  | returned t | threw t => exact step_ended e t

variable {e' : Exclusive τ}

theorem Step.earlier (h : e.Step e') : e.mutex.Earlier e'.mutex := by
  cases h with
  | idle => exact .refl _
  | acquire | request => exact Mutex.earlier_acquire _
  | release t | complete t => exact Mutex.earlier_release _ t

/-- The lock takes turns, and each task that is left has a ticket that it has still to give
back. -/
structure Kept (e : Exclusive τ) : Prop where
  mutex : e.mutex.Kept
  pending : ∀ p ∈ e.tasks, p.1 < e.mutex.requests ∧ p.1 ∉ e.mutex.released
  nodup : (e.tasks.map Prod.fst).Nodup

theorem kept_empty : ({} : Exclusive τ).Kept := ⟨Mutex.kept_empty, fun _ h => (nomatch h), .nil⟩

theorem Kept.pending_acquire (h : e.Kept) {p : Ticket × τ} (hp : p ∈ e.tasks) :
    p.1 < e.mutex.acquire.2.requests ∧ p.1 ∉ e.mutex.acquire.2.released := by
  obtain ⟨hlt, hnot⟩ := h.pending p hp
  rw [Mutex.requests_acquire, Mutex.released_acquire]
  exact ⟨Nat.lt_succ_of_lt hlt, hnot⟩

theorem Kept.pending_release (h : e.Kept) {p : Ticket × τ} (hp : p ∈ e.tasks) (hne : p.1 ≠ t) :
    p.1 < (e.mutex.release t).requests ∧ p.1 ∉ (e.mutex.release t).released := by
  obtain ⟨hlt, hnot⟩ := h.pending p hp
  rw [Mutex.requests_release]
  exact ⟨hlt, mt (Mutex.mem_released_of_ne hne) hnot⟩

/-- A task that asks for the lock gets a ticket that no task has had. -/
theorem Kept.request (h : e.Kept) (task : τ) : (e.request task).2.Kept where
  mutex := h.mutex.acquire
  pending := by
    intro p hp
    rcases List.mem_append.1 hp with hp | hp
    · exact h.pending_acquire hp
    · have hnew : e.mutex.requests ∉ e.mutex.released :=
        fun ht => Nat.lt_irrefl _ (h.mutex.released_lt ht)
      rw [List.mem_singleton.1 hp]
      show e.mutex.requests < e.mutex.acquire.2.requests ∧
        e.mutex.requests ∉ e.mutex.acquire.2.released
      rw [Mutex.requests_acquire, Mutex.released_acquire]
      exact ⟨Nat.lt_succ_self _, hnew⟩
  nodup := by
    show ((e.tasks ++ [(e.mutex.requests, task)]).map Prod.fst).Nodup
    rw [List.map_append, List.nodup_append]
    refine ⟨h.nodup, List.pairwise_singleton _ _, ?_⟩
    rintro t ht _ hu rfl
    obtain ⟨p, hp, rfl⟩ := List.mem_map.1 ht
    rw [List.map_singleton, List.mem_singleton] at hu
    exact Nat.ne_of_lt (h.pending p hp).1 hu

theorem Kept.step (h : e.Kept) (step : e.Step e') : e'.Kept := by
  cases step with
  | idle => exact h
  | acquire => exact ⟨h.mutex.acquire, fun _ hp => h.pending_acquire hp, h.nodup⟩
  | release t foreign =>
    refine ⟨h.mutex.release t, fun p hp => h.pending_release hp ?_, h.nodup⟩
    rintro rfl
    exact foreign (List.mem_map_of_mem hp)
  | request task => exact h.request task
  | complete t running =>
    refine ⟨h.mutex.release t, fun p hp => ?_, h.nodup.sublist (List.filter_sublist.map _)⟩
    obtain ⟨hmem, hother⟩ := List.mem_filter.1 hp
    exact h.pending_release hmem (of_decide_eq_true hother)

/-- A task that is left runs as soon as its ticket is granted. -/
theorem Kept.next? (h : e.Kept) {p : Ticket × τ} (hp : p ∈ e.tasks)
    (hgranted : p.1 ∈ e.mutex.granted) : e.next? = some p ∧ e.mutex.unreleased = [p.1] := by
  have hlock : p.1 ∈ e.mutex.unreleased := Mutex.mem_unreleased.2 ⟨hgranted, (h.pending p hp).2⟩
  have halone := h.mutex.unreleased_eq hlock
  refine ⟨?_, halone⟩
  cases hnext : e.next? with
  | none => exact absurd (decide_eq_true hlock) (List.find?_eq_none.1 hnext p hp)
  | some q =>
    obtain ⟨hq, hqlock⟩ := mem_of_next? hnext
    rw [halone, List.mem_singleton] at hqlock
    rw [List.inj_on_of_nodup_map h.nodup hq hp hqlock]

/-- A ticket that was given back, or is that of a task. -/
def Spent (e : Exclusive τ) (t : Ticket) : Prop :=
  t ∈ e.mutex.released ∨ t ∈ e.tasks.map Prod.fst

theorem Spent.step (h : e.Spent t) (step : e.Step e') : e'.Spent t := by
  have hreleased : t ∈ e.mutex.released → t ∈ e'.mutex.released := (step.earlier.released ·)
  cases step with
  | idle => exact h
  | acquire | release => exact h.imp_left hreleased
  | request task =>
    refine h.imp hreleased fun ht => ?_
    obtain ⟨p, hp, rfl⟩ := List.mem_map.1 ht
    exact List.mem_map_of_mem (List.mem_append_left _ hp)
  | complete u running =>
    rcases h with ht | ht
    · exact .inl (hreleased ht)
    · obtain ⟨p, hp, rfl⟩ := List.mem_map.1 ht
      -- The task that ends is left out, but its ticket has been given back now.
      by_cases hpu : p.1 = u
      · rw [hpu]
        exact .inl (Mutex.mem_released_self (Mutex.mem_unreleased.1 running).1)
      · exact .inr (List.mem_map_of_mem (List.mem_filter.2 ⟨hp, decide_eq_true hpu⟩))

theorem spent_giveBack (ht : t ∈ e.mutex.granted) : (e.giveBack t).Spent t := by
  unfold giveBack
  split
  · next htask => exact .inr htask
  · exact .inl (Mutex.mem_released_self ht)

theorem Spent.giveBack (h : e.Spent t) : e.giveBack t = e := by
  unfold Exclusive.giveBack
  split
  · rfl
  · next hforeign =>
    have hreleased := h.resolve_right hforeign
    rw [Mutex.release_of_not_mem fun hlock => (Mutex.mem_unreleased.1 hlock).2 hreleased]

theorem requests_ended (e : Exclusive τ) (t : Ticket) :
    (e.ended t).mutex.requests = e.mutex.requests := by
  unfold ended
  split
  · exact Mutex.requests_release _ t
  · rfl

theorem requests_giveBack (e : Exclusive τ) (t : Ticket) :
    (e.giveBack t).mutex.requests = e.mutex.requests := by
  unfold giveBack
  split
  · rfl
  · exact Mutex.requests_release _ t

theorem requests_use (e : Exclusive τ) (u : Use τ) :
    (e.use u).mutex.requests = e.mutex.requests + if u.asks then 1 else 0 := by
  cases u with
  | acquire | exclusive => exact Mutex.requests_acquire _
  | release t => exact requests_giveBack e t
  | returned t | threw t => exact requests_ended e t

/-! ### Many uses -/

/-- What one use preserves, all of them do. -/
theorem foldl_use {P : Exclusive τ → Prop} (hstep : ∀ e e', P e → e.Step e' → P e')
    (uses : List (Use τ)) (h : P e) : P (uses.foldl use e) := by
  induction uses generalizing e with
  | nil => exact h
  | cons u rest ih => exact ih (hstep _ _ h (step_use e u))

theorem after_append (uses more : List (Use τ)) :
    after (uses ++ more) = more.foldl use (after uses) :=
  List.foldl_append

theorem kept_after (uses : List (Use τ)) : (after uses).Kept :=
  foldl_use (fun _ _ h step => h.step step) uses kept_empty

theorem earlier_foldl (uses : List (Use τ)) (e : Exclusive τ) :
    e.mutex.Earlier (uses.foldl use e).mutex :=
  foldl_use (P := fun e' => e.mutex.Earlier e'.mutex) (fun _ _ h step => h.trans step.earlier)
    uses (.refl _)

theorem requests_foldl (uses : List (Use τ)) (e : Exclusive τ) :
    (uses.foldl use e).mutex.requests = e.mutex.requests + uses.countP Use.asks := by
  induction uses generalizing e with
  | nil => rfl
  | cons u rest ih =>
    rw [List.foldl_cons, ih, requests_use, List.countP_cons, Nat.add_assoc,
      Nat.add_comm (List.countP _ _)]

/-- Whatever is done with the lock, it is orderly, and its requests are those that were made.
What was granted stays so, and to give back a ticket once more changes nothing.  A task that is
left runs with the lock as soon as its ticket is granted, and however it ends, the lock goes
to the request that has waited longest. -/
theorem after_orderly (uses : List (Use τ)) :
    (after uses).mutex.Orderly ∧
    (after uses).mutex.requests = uses.countP Use.asks ∧
    (∀ more, (after uses).mutex.granted <+: (after (uses ++ more)).mutex.granted) ∧
    (∀ t ∈ (after uses).mutex.granted, ∀ between,
      after (uses ++ .release t :: (between ++ [.release t])) =
        after (uses ++ .release t :: between)) ∧
    ∀ p ∈ (after uses).tasks, p.1 ∈ (after uses).mutex.granted →
      (after uses).next? = some p ∧ (after uses).mutex.unreleased = [p.1] ∧
      ∀ u, u = .returned p.1 ∨ u = .threw p.1 →
        (after (uses ++ [u])).mutex.unreleased = (after uses).mutex.waiting.take 1 := by
  have kept := kept_after uses
  have orderly := kept.mutex.orderly
  refine ⟨orderly, ?_, fun more => ?_, fun t ht between => ?_, fun p hp hgranted => ?_⟩
  · exact (requests_foldl uses {}).trans (Nat.zero_add _)
  · rw [after_append]
    exact (earlier_foldl more _).granted
  · have spent : (between.foldl use ((after uses).use (.release t))).Spent t :=
      foldl_use (P := fun e => e.Spent t) (fun _ _ h step => h.step step) between
        (spent_giveBack ht)
    rw [after_append, after_append, List.foldl_cons, List.foldl_cons, List.foldl_append]
    exact spent.giveBack
  · obtain ⟨hnext, halone⟩ := kept.next? hp hgranted
    refine ⟨hnext, halone, fun u hu => ?_⟩
    have hended : (after uses).use u = (after uses).complete p.1 := by
      rcases hu with rfl | rfl <;> exact ended_of_next? hnext
    rw [after_append, List.foldl_cons, List.foldl_nil, hended]
    exact orderly.passes p.1 halone

/-- A task waits between two requests. -/
def contended : List (Use String) := [.acquire, .exclusive "sweep", .acquire]

/-- The first request gives back its ticket while the task has the lock, and then the task
throws. -/
theorem after_orderly_contended :
    after (contended ++ [.release 0, .release 0]) = after (contended ++ [.release 0]) ∧
      (after (contended ++ [.release 0])).next? = some (1, "sweep") ∧
      (after (contended ++ [.release 0] ++ [.threw 1])).mutex.unreleased = [2] := by
  obtain ⟨-, -, -, again, -⟩ := after_orderly contended
  obtain ⟨-, -, -, -, runs⟩ := after_orderly (contended ++ [.release 0])
  obtain ⟨hnext, -, hends⟩ := runs (1, "sweep") (by decide) (by decide)
  exact ⟨again 0 (by decide) [], hnext, (hends (.threw 1) (.inr rfl)).trans (by decide)⟩

end Exclusive
end ContractVM
