/-
What the form tells in which names are compared.

Names are compared sorted and joined by commas.  A comma within a name looks like one between
two names, and no name at all like the empty name, so the form of two lists may agree where
the lists do not.  For plain names it decides: they can be read back by splitting at the commas.
-/
import ContractVM.Proofs.Contract.Checked
import Mathlib.Data.List.Basic

namespace ContractVM

namespace Text

/-- A name that is not empty and has no comma. -/
def Plain (name : String) : Prop := name ≠ "" ∧ ',' ∉ name.toList

instance (name : String) : Decidable (Plain name) := inferInstanceAs (Decidable (_ ∧ _))

/-- The names that were joined by commas, as they are read back. -/
def uncomma (s : String) : List (List Char) := if s = "" then [] else s.toList.splitOn ','

theorem uncomma_intercalate {names : List String} (plain : ∀ n ∈ names, Plain n) :
    uncomma (",".intercalate names) = names.map String.toList := by
  have hlists := String.toList_intercalate (s := ",") (l := names)
  cases names with
  | nil => rfl
  | cons n rest =>
    have hsplit : (",".intercalate (n :: rest)).toList.splitOn ',' =
        (n :: rest).map String.toList := by
      rw [hlists]
      refine List.splitOn_intercalate ',' (fun x hx => ?_) (List.cons_ne_nil _ _)
      obtain ⟨n, hn, rfl⟩ := List.mem_map.1 hx
      exact (plain n hn).2
    unfold uncomma
    split
    · next hempty =>
      -- Only the empty name is written as nothing.
      rw [hempty] at hsplit
      have hhead := (List.cons.inj hsplit).1
      exact absurd (String.toList_eq_nil_iff.1 hhead.symm) (plain n List.mem_cons_self).1
    · exact hsplit

end Text

namespace Contract

open Text (Plain)

/-- Plain names that are compared as one are the same. -/
theorem perm_of_signature {names names' : List String} (plain : ∀ n ∈ names ++ names', Plain n)
    (same : signature names = signature names') : names.Perm names' := by
  have hread (l : List String) (hl : ∀ n ∈ l, Plain n) :
      Text.uncomma (signature l) = (Text.sort l).map String.toList :=
    Text.uncomma_intercalate fun n hn => hl n ((Text.sort_perm l).mem_iff.1 hn)
  have hlists := congrArg Text.uncomma same
  rw [hread names fun n hn => plain n (List.mem_append_left _ hn),
    hread names' fun n hn => plain n (List.mem_append_right _ hn)] at hlists
  have hsorted := List.map_injective_iff.2 (fun _ _ => String.toList_injective) hlists
  exact (Text.sort_perm names).symm.trans (hsorted ▸ Text.sort_perm names')

/-- An emit as the check leaves it: it names a declared event, and its arguments look like the
fields of it. -/
structure Fills (c : Contract) (event : String) (args : Table Expr) (decl : EventDecl) : Prop where
  declared : c.events.get? event = some decl
  alike : signature args.keys = signature (decl.fields.map (·.name))

/-- The names by which an emit is compared with the declaration. -/
def compared (args : Table Expr) (decl : EventDecl) : List String :=
  args.keys ++ decl.fields.map (·.name)

variable {c : Contract} {event : String} {args : Table Expr} {decl : EventDecl}

/-- With plain names an emit sets exactly the fields of its event. -/
theorem Fills.perm (h : c.Fills event args decl) (plain : ∀ n ∈ compared args decl, Plain n) :
    args.keys.Perm (decl.fields.map (·.name)) := perm_of_signature plain h.alike

/-- An emit that does not set a field uses a name that is not plain, or its event does. -/
theorem Fills.not_plain (h : c.Fills event args decl) {field : String}
    (hfield : field ∈ decl.fields.map (·.name)) (unset : args.get? field = none) :
    ∃ n ∈ compared args decl, ¬ Plain n := by
  by_contra hplain
  have hperm := h.perm fun n hn => not_not.1 fun hnot => hplain ⟨n, hn, hnot⟩
  exact Table.get?_eq_none_iff.1 unset (hperm.mem_iff.2 hfield)

/-- What the check has seen to: every emit looks as if it set the fields of a declared event,
and does if the names are plain, and every invoke names a function of the table. -/
structure Vetted (c : Contract) : Prop where
  emits : ∀ event args, c.Contains (.emit event args) → ∃ decl, c.Fills event args decl ∧
    ((∀ n ∈ compared args decl, Plain n) → args.keys.Perm (decl.fields.map (·.name)))
  invokes : ∀ fn args result, c.Contains (.invoke fn args result) →
    ∃ f, c.functions.get? fn = some f

theorem vetted_of_check (h : c.check = .ok ()) : c.Vetted where
  emits := by
    intro event args hi
    obtain ⟨decl, declared, alike⟩ := sound_of_check h hi
    exact ⟨decl, ⟨declared, alike⟩, Fills.perm ⟨declared, alike⟩⟩
  invokes := fun _ _ _ hi => sound_of_check h hi

/-- Some emit of the contract does not set the field, and passed the check by a name that is
not plain. -/
def Overlooks (c : Contract) (event field : String) : Prop :=
  ∃ args decl, c.Contains (.emit event args) ∧ c.Fills event args decl ∧
    field ∈ decl.fields.map (·.name) ∧ args.get? field = none ∧
    ∃ n ∈ compared args decl, ¬ Plain n

/-- A field that the check lets an emit leave unset, it has overlooked. -/
theorem Leaves.overlooks {field : String} (h : c.Leaves event field) (check : c.check = .ok ()) :
    c.Overlooks event field := by
  obtain ⟨args, decl, hi, declared, hfield, unset⟩ := h
  obtain ⟨decl', hdeclared, alike⟩ := sound_of_check check hi
  cases declared.symm.trans hdeclared
  have fills : c.Fills event args decl := ⟨declared, alike⟩
  exact ⟨args, decl, hi, fills, hfield, unset, fills.not_plain hfield unset⟩

end Contract
end ContractVM
