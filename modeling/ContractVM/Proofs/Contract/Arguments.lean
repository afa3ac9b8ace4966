/-
When arguments fit the parameters they are bound to.

A function binds all its arguments at once, and each constructor of a chain its own part of
them.  Both succeed for the same reason: no name is missing, none is left over, and each
value has the type of every parameter of its name (`Fit`).  Then a body sees its own
parameters, each with the value that was given for it, and no other name (`Shows`).

There is one lemma for each function, which says what it comes to either way.  A function
binds like a chain of one (`bindEach_singleton`), so that only chains have to be looked at.
-/
import ContractVM.Contract.Arguments
import ContractVM.Proofs.Table
import Mathlib.Data.List.Forall2

namespace ContractVM
namespace Args

/-- There is an argument for the parameter, of its type. -/
def Holds (args : Args) (p : Param) : Prop :=
  ∃ v, args.get? p.name = some v ∧ Value.conforms p.type v = true

/-- The arguments are just those that a chain of parameter lists asks for. -/
structure Fit (args : Args) (chain : List (List Param)) : Prop where
  names : ∀ k, k ∈ args.keys ↔ ∃ params ∈ chain, ∃ p ∈ params, p.name = k
  types : ∀ params ∈ chain, ∀ p ∈ params, ∀ v, args.get? p.name = some v →
    Value.conforms p.type v = true

/-- Of the arguments, `seen` has those of the parameters `params`. -/
def Shows (args : Args) (params : List Param) (seen : Args) : Prop :=
  ∀ k, seen.get? k = if k ∈ params.map (·.name) then args.get? k else none

variable {args : Args} {params : List Param} {chain : List (List Param)}

/-- Arguments fit if all that is asked for is there and all that is there is asked for. -/
theorem fit_iff : args.Fit chain ↔
    (∀ params ∈ chain, ∀ p ∈ params, args.Holds p) ∧
      ∀ k ∈ args.keys, ∃ params ∈ chain, ∃ p ∈ params, p.name = k := by
  constructor
  · intro h
    refine ⟨fun params hparams p hp => ?_, fun k hk => (h.names k).1 hk⟩
    obtain ⟨v, hv⟩ := Table.mem_keys_iff.1 ((h.names p.name).2 ⟨params, hparams, p, hp, rfl⟩)
    exact ⟨v, hv, h.types params hparams p hp v hv⟩
  · rintro ⟨holds, asked⟩
    constructor
    · refine fun k => ⟨asked k, ?_⟩
      rintro ⟨params, hparams, p, hp, rfl⟩
      obtain ⟨v, hv, -⟩ := holds params hparams p hp
      exact Table.mem_keys_iff.2 ⟨v, hv⟩
    · intro params hparams p hp v hv
      obtain ⟨w, hw, hconforms⟩ := holds params hparams p hp
      rw [hv] at hw
      cases hw
      exact hconforms

/-! ## One parameter list -/

theorem find_spec (args : Args) (p : Param) : match args.find p with
    | .ok v => args.get? p.name = some v ∧ args.Holds p
    | .error c => ¬ args.Holds p ∧ c.kind = .invalidArguments := by
  unfold find
  cases hget : args.get? p.name with
  | some v =>
    simp only
    by_cases hconforms : Value.conforms p.type v = true
    · rw [if_pos hconforms]
      exact ⟨rfl, v, hget, hconforms⟩
    · rw [if_neg hconforms]
      refine ⟨?_, rfl⟩
      rintro ⟨w, hw, hw'⟩
      rw [hget] at hw
      cases hw
      exact hconforms hw'
  | none =>
    have missing : ¬ args.Holds p := fun ⟨_, hw, _⟩ => (nomatch hget.symm.trans hw)
    simp only
    by_cases hreserved : p.name ∈ reserved
    · rw [if_pos hreserved]
      exact ⟨missing, rfl⟩
    · rw [if_neg hreserved]
      exact ⟨missing, rfl⟩

/-- The parameters that come first are already in `bound`. -/
theorem findAll_spec (args : Args) (params : List Param) (bound : Args) :
    match args.findAll params bound with
    | .ok seen => (∀ p ∈ params, args.Holds p) ∧
      ∀ k, seen.get? k = if k ∈ params.map (·.name) then args.get? k else bound.get? k
    | .error c => (∃ p ∈ params, ¬ args.Holds p) ∧ c.kind = .invalidArguments := by
  induction params generalizing bound with
  | nil =>
    exact ⟨fun _ h => (nomatch h), fun _ => rfl⟩
  | cons p rest ih =>
    have hfind := find_spec args p
    unfold findAll
    cases hp : args.find p with
    | error c =>
      rw [hp] at hfind
      exact ⟨⟨p, List.mem_cons_self, hfind.1⟩, hfind.2⟩
    | ok v =>
      rw [hp] at hfind
      have hrest := ih (bound.set p.name v)
      simp only
      cases hall : args.findAll rest (bound.set p.name v) with
      | error c =>
        rw [hall] at hrest
        obtain ⟨⟨q, hq, hq'⟩, hkind⟩ := hrest
        exact ⟨⟨q, List.mem_cons_of_mem p hq, hq'⟩, hkind⟩
      | ok seen =>
        rw [hall] at hrest
        refine ⟨List.forall_mem_cons.2 ⟨hfind.2, hrest.1⟩, fun k => ?_⟩
        rw [hrest.2 k, Table.get?_set]
        simp only [List.map_cons, List.mem_cons]
        by_cases hk : k = p.name
        · simp only [hk, hfind.1, if_true, true_or, ite_self]
        · simp only [hk, if_false, false_or]

/-! ## A chain of parameter lists -/

theorem findEach_spec (args : Args) (chain : List (List Param)) :
    match chain.mapM fun params => args.findAll params ∅ with
    | .ok seen => (∀ params ∈ chain, ∀ p ∈ params, args.Holds p) ∧
      List.Forall₂ args.Shows chain seen
    | .error c => (∃ params ∈ chain, ∃ p ∈ params, ¬ args.Holds p) ∧
      c.kind = .invalidArguments := by
  induction chain with
  | nil =>
    exact ⟨fun _ h => (nomatch h), .nil⟩
  | cons params rest ih =>
    have hfirst := findAll_spec args params ∅
    rw [List.mapM_cons]
    cases hp : args.findAll params ∅ with
    | error c =>
      rw [hp] at hfirst
      exact ⟨⟨params, List.mem_cons_self, hfirst.1⟩, hfirst.2⟩
    | ok first =>
      rw [hp] at hfirst
      cases hall : rest.mapM fun params => args.findAll params ∅ with
      | error c =>
        rw [hall] at ih
        obtain ⟨⟨others, hothers, missing⟩, hkind⟩ := ih
        exact ⟨⟨others, List.mem_cons_of_mem params hothers, missing⟩, hkind⟩
      | ok seen =>
        rw [hall] at ih
        exact ⟨List.forall_mem_cons.2 ⟨hfirst.1, ih.1⟩, .cons hfirst.2 ih.2⟩

/-- A name that no list of the chain asks for is left over. -/
theorem leftOver_eq_nil_iff :
    (args.keys.filter fun k => !chain.any fun params => params.any (·.name = k)) = [] ↔
      ∀ k ∈ args.keys, ∃ params ∈ chain, ∃ p ∈ params, p.name = k := by
  simp [List.filter_eq_nil_iff]

theorem bindEach_spec (args : Args) (chain : List (List Param)) :
    match args.bindEach chain with
    | .ok seen => args.Fit chain ∧ List.Forall₂ args.Shows chain seen
    | .error c => ¬ args.Fit chain ∧ c.kind = .invalidArguments := by
  have heach := findEach_spec args chain
  unfold bindEach
  cases hall : chain.mapM fun params => args.findAll params ∅ with
  | error c =>
    rw [hall] at heach
    obtain ⟨⟨params, hparams, p, hp, missing⟩, hkind⟩ := heach
    exact ⟨fun h => missing ((fit_iff.1 h).1 params hparams p hp), hkind⟩
  | ok seen =>
    rw [hall] at heach
    simp only
    cases hextra : args.keys.filter fun k => !chain.any fun params => params.any (·.name = k) with
    | nil => exact ⟨fit_iff.2 ⟨heach.1, leftOver_eq_nil_iff.1 hextra⟩, heach.2⟩
    | cons k extra =>
      refine ⟨fun h => ?_, rfl⟩
      rw [leftOver_eq_nil_iff.2 (fit_iff.1 h).2] at hextra
      cases hextra

/-- A function binds its arguments like a chain of one constructor. -/
theorem bindEach_singleton (args : Args) (params : List Param) :
    args.bindEach [params] = (args.bindTo params).map fun seen => [seen] := by
  have hfirst := findAll_spec args params ∅
  have hchain : ([params].mapM fun params => args.findAll params ∅) =
      (args.findAll params ∅).map fun seen => [seen] := by
    rw [List.mapM_cons, List.mapM_nil]
    cases args.findAll params ∅ with
    | error c => rfl
    | ok seen => rfl
  unfold bindEach bindTo
  rw [hchain]
  cases hp : args.findAll params ∅ with
  | error c => rfl
  | ok seen =>
    rw [hp] at hfirst
    -- A name is in what was bound if and only if it is that of a parameter.
    have hextra : (args.keys.filter fun k =>
          !([params].any fun params => params.any (·.name = k))) =
        args.keys.filter fun k => !seen.contains k := by
      refine List.filter_congr fun k hk => ?_
      obtain ⟨v, hv⟩ := Table.mem_keys_iff.1 hk
      unfold Table.contains
      rw [hfirst.2 k, hv]
      by_cases hname : k ∈ params.map (·.name)
      · have hasked : params.any (·.name = k) = true := by simpa using hname
        simp [hname, hasked]
      · have hasked : params.any (·.name = k) = false := by simpa using hname
        rw [if_neg hname]
        simp [hasked, show Table.get? (∅ : Args) k = none from rfl]
    simp only [Except.map]
    rw [hextra]
    cases args.keys.filter fun k => !seen.contains k with
    | nil => rfl
    | cons k extra => rfl

theorem bindTo_spec (args : Args) (params : List Param) :
    match args.bindTo params with
    | .ok seen => args.Fit [params] ∧ args.Shows params seen
    | .error c => ¬ args.Fit [params] ∧ c.kind = .invalidArguments := by
  have hchain := bindEach_spec args [params]
  rw [bindEach_singleton] at hchain
  cases h : args.bindTo params with
  | error c =>
    rw [h] at hchain
    exact hchain
  | ok seen =>
    rw [h] at hchain
    obtain ⟨hfit, hshows⟩ := hchain
    cases hshows with
    | cons hseen _ => exact ⟨hfit, hseen⟩

end Args
end ContractVM
