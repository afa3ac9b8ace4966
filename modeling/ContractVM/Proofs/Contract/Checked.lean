/-
What the last step of flattening has looked at.

The bodies that survive are checked instruction by instruction, through all branches.  Here
the list that is checked is replaced by what it stands for, an instruction at any depth of a
body, and the check by what it asks of an emit and of an invoke.
-/
import ContractVM.Contract.Flatten
import ContractVM.Proofs.Journal.Codec

namespace ContractVM

/-! ## Instructions at any depth -/

/-- An instruction stands in a body or in a branch of it, however deep. -/
inductive Instr.Within (i : Instr) : List Instr → Prop
  | here {body : List Instr} (h : i ∈ body) : Within i body
  | yes {body : List Instr} {cond : Expr} {yes : List Instr} {no : Option (List Instr)}
      (h : .branch cond yes no ∈ body) (inner : Within i yes) : Within i body
  | no {body : List Instr} {cond : Expr} {yes no : List Instr}
      (h : .branch cond yes (some no) ∈ body) (inner : Within i no) : Within i body

namespace Instr.Within

variable {i j : Instr} {body rest : List Instr}

theorem mono (h : i.Within body) (hsub : ∀ j ∈ body, j ∈ rest) : i.Within rest := by
  cases h with
  | here h => exact .here (hsub i h)
  | yes h inner => exact .yes (hsub _ h) inner
  | no h inner => exact .no (hsub _ h) inner

end Instr.Within

namespace Contract

theorem mem_walkInstr_self (i : Instr) : i ∈ walkInstr i := by
  cases i <;> exact List.mem_cons_self

theorem walkInstr_subset {i : Instr} {body : List Instr} (h : i ∈ body) :
    ∀ j ∈ walkInstr i, j ∈ walk body := by
  intro j hj
  induction body with
  | nil => cases h
  | cons k rest ih =>
    rw [walk, List.mem_append]
    rcases List.mem_cons.1 h with rfl | h
    · exact .inl hj
    · exact .inr (ih h)

mutual
theorem within_of_mem_walkInstr (i : Instr) :
    ∀ j ∈ walkInstr i, ∀ body, i ∈ body → j.Within body := by
  intro j hj body hi
  cases i with
  | branch cond yes no =>
    rw [walkInstr, List.mem_cons, List.mem_append] at hj
    rcases hj with rfl | hj | hj
    · exact .here hi
    · exact .yes hi (within_of_mem_walk yes j hj)
    · cases no with
      | none => cases hj
      | some no =>
        rw [walkElse] at hj
        exact .no hi (within_of_mem_walk no j hj)
  | bind | sstore | require | assert | revert | emit | call | invoke | ret | selfDestruct =>
    simp only [walkInstr, List.mem_singleton] at hj
    rw [hj]
    exact .here hi

theorem within_of_mem_walk (body : List Instr) : ∀ j ∈ walk body, j.Within body := by
  intro j hj
  cases body with
  | nil => cases hj
  | cons i rest =>
    rw [walk, List.mem_append] at hj
    rcases hj with hj | hj
    · exact within_of_mem_walkInstr i j hj _ List.mem_cons_self
    · exact (within_of_mem_walk rest j hj).mono fun k hk => List.mem_cons_of_mem i hk
end

/-- The instructions that are checked are those at any depth. -/
theorem mem_walk_iff {i : Instr} {body : List Instr} : i ∈ walk body ↔ i.Within body := by
  refine ⟨within_of_mem_walk body i, fun h => ?_⟩
  induction h with
  | here h => exact walkInstr_subset h i (mem_walkInstr_self i)
  | yes h _ ih =>
    refine walkInstr_subset h i ?_
    rw [walkInstr]
    exact List.mem_cons_of_mem _ (List.mem_append_left _ ih)
  | no h _ ih =>
    refine walkInstr_subset h i ?_
    rw [walkInstr, walkElse]
    exact List.mem_cons_of_mem _ (List.mem_append_right _ ih)

/-! ## The check -/

/-- The instruction stands somewhere in the contract. -/
def Contains (c : Contract) (i : Instr) : Prop := ∃ body ∈ c.bodies, i.Within body

/-- Some emit of the contract does not set the field of its event. -/
def Leaves (c : Contract) (event field : String) : Prop :=
  ∃ args decl, c.Contains (.emit event args) ∧ c.events.get? event = some decl ∧
    field ∈ decl.fields.map (·.name) ∧ args.get? field = none

/-- What is asked of an instruction: an emit sets the fields of a declared event, by the form
in which names are compared, and an invoke names a function. -/
def Sound (c : Contract) : Instr → Prop
  | .emit event args => ∃ decl, c.events.get? event = some decl ∧
      signature args.keys = signature (decl.fields.map (·.name))
  | .invoke fn _ _ => ∃ f, c.functions.get? fn = some f
  | _ => True

theorem checkInstr_eq_ok {c : Contract} {i : Instr} : checkInstr c i = .ok () ↔ c.Sound i := by
  cases i with
  | emit event args =>
    simp only [checkInstr, Sound]
    cases h : c.events.get? event with
    | none => simp
    | some decl => simp
  | invoke fn args result =>
    simp only [checkInstr, Sound, Table.contains]
    rw [← Option.isSome_iff_exists]
    by_cases h : (c.functions.get? fn).isSome <;> simp [h]
  | bind | sstore | require | assert | revert | call | branch | ret | selfDestruct =>
    exact ⟨fun _ => trivial, fun _ => rfl⟩

theorem forM_eq_ok {ε α : Type} {f : α → Except ε Unit} {l : List α} :
    l.forM f = .ok () ↔ ∀ a ∈ l, f a = .ok () := by
  induction l with
  | nil => exact ⟨fun _ _ h => absurd h List.not_mem_nil, fun _ => rfl⟩
  | cons a rest ih =>
    show (f a >>= fun _ => rest.forM f) = _ ↔ _
    rw [Codec.bind_eq_ok, List.forall_mem_cons, ← ih]
    constructor
    · rintro ⟨⟨⟩, ha, hrest⟩
      exact ⟨ha, hrest⟩
    · rintro ⟨ha, hrest⟩
      exact ⟨(), ha, hrest⟩

theorem check_eq_ok {c : Contract} :
    c.check = .ok () ↔ ∀ body ∈ c.bodies, ∀ i : Instr, i.Within body → c.Sound i := by
  unfold check
  rw [forM_eq_ok]
  constructor
  · intro h body hbody i hi
    exact checkInstr_eq_ok.1 (h i (List.mem_flatMap.2 ⟨body, hbody, mem_walk_iff.2 hi⟩))
  · intro h i hi
    obtain ⟨body, hbody, hwalk⟩ := List.mem_flatMap.1 hi
    exact checkInstr_eq_ok.2 (h body hbody i (mem_walk_iff.1 hwalk))

theorem sound_of_check {c : Contract} (h : c.check = .ok ()) {i : Instr} (hi : c.Contains i) :
    c.Sound i := by
  obtain ⟨body, hbody, hwithin⟩ := hi
  exact check_eq_ok.1 h body hbody i hwithin

theorem check_of_flatten {a : Address} {code : ContractCode} {c : Contract}
    (h : flatten a code = .ok c) : c.check = .ok () :=
  (flatten_eq_ok.1 h).2

end Contract
end ContractVM
