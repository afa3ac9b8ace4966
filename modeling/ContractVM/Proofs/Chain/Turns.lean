/-
Tasks under the lock run in the order in which they asked for it.

Tickets are handed out in order, and at any time the tickets that had their turn are the
first ones, the next ticket has the lock and all later ones wait (`InTurn`).  So the task that
may run is always the one that has waited longest.
-/
import ContractVM.Mutex
import ContractVM.Proofs.Table

namespace ContractVM

/-! ## Numbered lists -/

section Numbered

variable {α : Type} {n : Nat}

/-- The elements of a list with their numbers, the first of which is `n`. -/
def numbered (n : Nat) : List α → List (Nat × α)
  | [] => []
  | a :: rest => (n, a) :: numbered (n + 1) rest

theorem numbered_append (n : Nat) (as bs : List α) :
    numbered n (as ++ bs) = numbered n as ++ numbered (n + as.length) bs := by
  induction as generalizing n with
  | nil => rfl
  | cons a rest ih => simp [numbered, ih, Nat.add_assoc, Nat.add_comm 1]

theorem map_fst_numbered (n : Nat) (as : List α) :
    (numbered n as).map Prod.fst = List.range' n as.length := by
  induction as generalizing n with
  | nil => rfl
  | cons a rest ih => simp [numbered, ih, List.range'_succ]

theorem map_snd_numbered (n : Nat) (as : List α) : (numbered n as).map Prod.snd = as := by
  induction as generalizing n with
  | nil => rfl
  | cons a rest ih => simp [numbered, ih]

theorem nodup_numbered (n : Nat) (as : List α) : ((numbered n as).map Prod.fst).Nodup := by
  rw [map_fst_numbered]
  exact List.nodup_range'

theorem eq_numbered {l : List (Nat × α)} (h : l.map Prod.fst = List.range' n l.length) :
    l = numbered n (l.map Prod.snd) := by
  induction l generalizing n with
  | nil => rfl
  | cons p rest ih =>
    rw [List.map_cons, List.length_cons, List.range'_succ, List.cons.injEq] at h
    rw [List.map_cons, numbered, ← ih h.2, ← h.1]

theorem drop_numbered (n k : Nat) (as : List α) :
    (numbered n as).drop k = numbered (n + k) (as.drop k) := by
  induction k generalizing n as with
  | zero => rfl
  | succ k ih =>
    cases as with
    | nil => rfl
    | cons a rest => simp [numbered, ih, Nat.add_assoc, Nat.add_comm 1]

theorem lookup_numbered (n t : Nat) (as : List α) :
    (numbered n as).lookup (n + t) = as[t]? := by
  induction as generalizing n t with
  | nil => rfl
  | cons a rest ih =>
    rw [numbered, Table.lookup_entry]
    cases t with
    | zero => simp
    | succ t =>
      rw [if_neg (by omega), Nat.add_comm t, ← Nat.add_assoc, ih, Nat.add_comm 1,
        List.getElem?_cons_succ]

/-- Looking up does not see the order of numbered entries. -/
theorem lookup_of_perm {l : List (Nat × α)} {as : List α} (h : l.Perm (numbered 0 as)) (t : Nat) :
    l.lookup t = as[t]? := by
  have hnodup : (l.map Prod.fst).Nodup := (h.map Prod.fst).nodup_iff.2 (nodup_numbered 0 as)
  rw [← lookup_numbered 0 t as, Nat.zero_add]
  refine Option.ext fun a => ?_
  exact (Table.lookup_eq_some_iff hnodup).trans
    (h.mem_iff.trans (Table.lookup_eq_some_iff (nodup_numbered 0 as)).symm)

end Numbered

/-! ## Turns -/

namespace Mutex

variable {m : Mutex} {ran n : Nat}

/-- The first `ran` tickets have had their turn and `n` are left, the first of them with the
lock. -/
structure InTurn (m : Mutex) (ran n : Nat) : Prop where
  requests : m.requests = ran + n
  held : m.held = decide (0 < n)
  granted : m.granted = List.range (ran + min n 1)
  released : m.released = List.range ran
  waiting : m.waiting = List.range' (ran + 1) (n - 1)

theorem inTurn_empty : ({} : Mutex).InTurn 0 0 := by
  constructor <;> rfl

/-- A request is granted if the lock is free, and waits behind all others if not. -/
theorem InTurn.acquire (h : m.InTurn ran n) : m.acquire.2.InTurn ran (n + 1) := by
  have hheld := h.held
  cases n with
  | zero =>
    have hgrant : m.acquire.2 = { m with requests := m.requests + 1 }.grant m.requests :=
      if_neg (by simp [hheld])
    rw [hgrant]
    constructor <;> simp [grant, h.requests, h.granted, h.released, h.waiting, List.range_succ]
  | succ n =>
    have hwait : m.acquire.2 =
        { m with requests := m.requests + 1, waiting := m.waiting ++ [m.requests] } :=
      if_pos (by simp [hheld])
    rw [hwait]
    constructor
    · simp [h.requests, Nat.add_assoc]
    · simp [hheld]
    · simp [h.granted]
    · exact h.released
    · simp [h.waiting, h.requests, List.range'_concat]
      omega

/-- The lock passes from a ticket to the one behind it, and is free if there is none. -/
theorem InTurn.release (h : m.InTurn ran (n + 1)) : (m.release ran).InTurn (ran + 1) n := by
  have hgranted : ran ∈ m.granted ∧ ran ∉ m.released := by simp [h.granted, h.released]
  have hpass : m.release ran = { m with released := m.released ++ [ran] }.handOff :=
    if_pos hgranted
  rw [hpass]
  cases n with
  | zero =>
    have hnobody : m.waiting = [] := h.waiting
    constructor <;>
      simp [handOff, hnobody, h.requests, h.granted, h.released, List.range_succ]
  | succ n =>
    have hnext : m.waiting = (ran + 1) :: List.range' (ran + 2) n := by
      simp [h.waiting, List.range'_succ]
    constructor
    · simp [handOff, grant, hnext, h.requests]
      omega
    · simp [handOff, grant, hnext]
    · simp [handOff, grant, hnext, h.granted, List.range_succ]
    · simp [handOff, grant, hnext, h.released, List.range_succ]
    · simp [handOff, grant, hnext]

/-- Only the first ticket that is left has the lock. -/
theorem InTurn.unreleased (h : m.InTurn ran n) : m.unreleased = List.range' ran (min n 1) := by
  unfold Mutex.unreleased
  rw [h.granted, h.released]
  cases n with
  | zero => simp
  | succ n => simp [List.range_succ, List.filter_append]

end Mutex

namespace Exclusive

variable {τ : Type} {e : Exclusive τ} {ran : Nat}

/-- The tasks that are left wait for their turn in the order of their tickets. -/
structure InTurn (e : Exclusive τ) (ran : Nat) : Prop where
  mutex : e.mutex.InTurn ran e.tasks.length
  tickets : e.tasks.map Prod.fst = List.range' ran e.tasks.length

theorem inTurn_empty : ({} : Exclusive τ).InTurn 0 := ⟨Mutex.inTurn_empty, rfl⟩

theorem InTurn.ticket (h : e.InTurn ran) (task : τ) :
    (e.request task).1 = ran + e.tasks.length := h.mutex.requests

theorem InTurn.tasks (h : e.InTurn ran) (task : τ) :
    (e.request task).2.tasks = e.tasks ++ [(ran + e.tasks.length, task)] :=
  congrArg (fun t => e.tasks ++ [(t, task)]) (h.ticket task)

theorem InTurn.request (h : e.InTurn ran) (task : τ) : (e.request task).2.InTurn ran := by
  have hlength : (e.request task).2.tasks.length = e.tasks.length + 1 := List.length_append
  refine ⟨?_, ?_⟩
  · rw [hlength]
    exact h.mutex.acquire
  · rw [hlength, h.tasks]
    simp [h.tickets, List.range'_concat]

theorem InTurn.tasks_eq (h : e.InTurn ran) : e.tasks = numbered ran (e.tasks.map Prod.snd) :=
  eq_numbered h.tickets

/-- The first of the tasks that are left has the ticket whose turn it is. -/
theorem InTurn.turn {t : Ticket} {task : τ} {rest : List (Ticket × τ)} (h : e.InTurn ran)
    (htasks : e.tasks = (t, task) :: rest) :
    t = ran ∧ rest.map Prod.fst = List.range' (ran + 1) rest.length := by
  have htickets := h.tickets
  rw [htasks, List.map_cons, List.length_cons, List.range'_succ, List.cons.injEq] at htickets
  exact htickets

theorem InTurn.next?_eq (h : e.InTurn ran) : e.next? = e.tasks.head? := by
  unfold next?
  rw [h.mutex.unreleased]
  cases htasks : e.tasks with
  | nil => rfl
  | cons p rest => simp [(h.turn htasks).1]

/-- The task that has run is taken out, and the task behind it is next. -/
theorem InTurn.complete {t : Ticket} {task : τ} {rest : List (Ticket × τ)} (h : e.InTurn ran)
    (htasks : e.tasks = (t, task) :: rest) :
    (e.complete t).tasks = rest ∧ (e.complete t).InTurn (ran + 1) := by
  obtain ⟨rfl, hrest⟩ := h.turn htasks
  have hlater : ∀ p ∈ rest, p.1 ≠ t := by
    intro p hp
    have hmem := List.mem_map_of_mem (f := Prod.fst) hp
    rw [hrest, List.mem_range'_1] at hmem
    exact Nat.ne_of_gt hmem.1
  have hleft : (e.complete t).tasks = rest := by
    have hkept : rest.filter (fun p => p.1 ≠ t) = rest :=
      List.filter_eq_self.2 fun p hp => decide_eq_true (hlater p hp)
    unfold Exclusive.complete
    rw [htasks, List.filter_cons_of_neg (by simp), hkept]
  have hmutex := h.mutex
  rw [htasks] at hmutex
  refine ⟨hleft, ?_, ?_⟩
  · rw [hleft]
    exact hmutex.release
  · rw [hleft, hrest]

end Exclusive
end ContractVM
