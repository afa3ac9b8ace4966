/-
Flattening is exact.

Functions and events are gathered in tables, and whether an item may be entered is decided by
the one that its name has at that moment.  That one is the last of its name so far, so the
whole of a table is known from the list of items: it is there if and only if in the list of
every name each item may follow the one before it, and then every name stands for the last.
What a contract has to look like to be deployed, and what it becomes, is said here in terms
of its chain alone.
-/
import ContractVM.Proofs.Contract.Checked
import ContractVM.Proofs.Contract.Lineage
import ContractVM.Proofs.Exec.Unsigned
import Mathlib.Data.List.Induction
import Mathlib.Data.List.Nodup

namespace ContractVM

/-! ## Items entered in turn -/

namespace Table

variable {α : Type} (name : α → String)

/-- The table of items that are entered under their names, one after the other. -/
def enter (items : List α) : Table α := items.foldl (fun t x => t.set (name x) x) ∅

/-- The items of one name, in order. -/
def called (items : List α) (n : String) : List α := items.filter fun x => decide (name x = n)

theorem enter_concat (items : List α) (x : α) :
    enter name (items ++ [x]) = (enter name items).set (name x) x := by
  unfold enter
  rw [List.foldl_append]
  rfl

theorem called_append (items more : List α) (n : String) :
    called name (items ++ more) n = called name items n ++ called name more n :=
  List.filter_append items more

theorem called_single (x : α) (n : String) :
    called name [x] n = if name x = n then [x] else [] := by
  unfold called
  by_cases h : name x = n <;> simp [h]

/-- A name stands for the last item that was entered under it. -/
theorem get?_enter (items : List α) (n : String) :
    (enter name items).get? n = (called name items n).getLast? := by
  induction items using List.reverseRecOn with
  | nil => rfl
  | append_singleton items x ih =>
    rw [enter_concat, get?_set, called_append, called_single, ih]
    by_cases h : n = name x
    · rw [if_pos h, if_pos h.symm, List.getLast?_concat]
    · rw [if_neg h, if_neg (Ne.symm h), List.append_nil]

/-- Each item of the list may follow the one before it, and the first may be first. -/
def InTurn (Accepts : Option α → α → Prop) (items : List α) : Prop :=
  ∀ before x after, items = before ++ x :: after → Accepts before.getLast? x

variable {name} {Accepts : Option α → α → Prop}

theorem InTurn.nil : InTurn Accepts [] := fun _ _ _ h => by simp at h

theorem inTurn_concat {items : List α} {x : α} :
    InTurn Accepts (items ++ [x]) ↔ InTurn Accepts items ∧ Accepts items.getLast? x := by
  constructor
  · refine fun h => ⟨fun before y after heq => ?_, h items x [] rfl⟩
    exact h before y (after ++ [x]) (by rw [heq, List.append_assoc, List.cons_append])
  · rintro ⟨h, hx⟩ before y after heq
    rcases ContractCode.split_append heq with ⟨z, hz⟩ | ⟨z, rfl, hz⟩
    · exact h before y z hz
    · cases z with
      | nil =>
        obtain ⟨rfl, -⟩ := List.cons.inj hz
        rwa [List.append_nil]
      | cons e z => simp at hz

/-- One more item matters to the items of its own name only. -/
theorem inTurn_called_concat {items : List α} {x : α} :
    (∀ n, InTurn Accepts (called name (items ++ [x]) n)) ↔
      (∀ n, InTurn Accepts (called name items n)) ∧
        Accepts (called name items (name x)).getLast? x := by
  simp only [called_append, called_single]
  constructor
  · refine fun h => ⟨fun n => ?_, ?_⟩
    · have hn := h n
      split at hn
      · exact (inTurn_concat.1 hn).1
      · rwa [List.append_nil] at hn
    · have hx := h (name x)
      rw [if_pos rfl] at hx
      exact (inTurn_concat.1 hx).2
  · rintro ⟨h, hx⟩ n
    split
    · next hn =>
      subst hn
      exact inTurn_concat.2 ⟨h _, hx⟩
    · rw [List.append_nil]
      exact h n

/-- A fold that enters items as long as each may follow the last of its name. -/
theorem foldlM_enter {ε : Type} {step : Table α → α → Except ε (Table α)}
    (hstep : ∀ t x t', step t x = .ok t' ↔ Accepts (t.get? (name x)) x ∧ t' = t.set (name x) x)
    (items : List α) {t : Table α} :
    items.foldlM step ∅ = .ok t ↔
      (∀ n, InTurn Accepts (called name items n)) ∧ t = enter name items := by
  induction items using List.reverseRecOn generalizing t with
  | nil =>
    constructor
    · intro h
      cases h
      exact ⟨fun _ => .nil, rfl⟩
    · rintro ⟨-, rfl⟩
      rfl
  | append_singleton items x ih =>
    rw [List.foldlM_append, Codec.bind_eq_ok, inTurn_called_concat, enter_concat]
    have hone : ∀ mid, [x].foldlM step mid = step mid x := fun mid => by
      rw [List.foldlM_cons]
      exact bind_pure _
    simp only [hone, ih, hstep]
    constructor
    · rintro ⟨mid, ⟨h, rfl⟩, hx, rfl⟩
      rw [get?_enter] at hx
      exact ⟨⟨h, hx⟩, rfl⟩
    · rintro ⟨⟨h, hx⟩, rfl⟩
      rw [← get?_enter] at hx
      exact ⟨_, ⟨h, rfl⟩, hx, rfl⟩

end Table

open Table

/-! ## What a chain declares -/

namespace ContractCode

variable (code : ContractCode)

/-- The functions that a contract declares, with its name. -/
def ownFunctions : List (Owned FunctionDef) := code.functions.map (⟨code.name, ·⟩)

/-- The definitions of a function along the chain. -/
def definers (fn : String) : List (Owned FunctionDef) :=
  called (·.item.name) (code.chain.flatMap ownFunctions) fn

/-- The declarations of an event along the chain. -/
def declarations (event : String) : List EventDecl :=
  called (·.name) (code.chain.flatMap (·.events)) event

def ownConstructors : List (Owned ConstructorDef) := (code.constr.map (⟨code.name, ·⟩)).toList

def constructors : List (Owned ConstructorDef) := code.chain.flatMap ownConstructors

def ownFallbacks : List (Owned FallbackDef) := (code.fallback.map (⟨code.name, ·⟩)).toList

def fallbacks : List (Owned FallbackDef) := code.chain.flatMap ownFallbacks

/-- The bodies that can run once the contract is deployed. -/
inductive Survives : List Instr → Prop
  | function {fn : String} {f : Owned FunctionDef} (h : (code.definers fn).getLast? = some f) :
      Survives f.item.body
  | constr {d : Owned ConstructorDef} (h : d ∈ code.constructors) : Survives d.item.body
  | fallback {fb : Owned FallbackDef} (h : code.fallbacks.getLast? = some fb) :
      Survives fb.item.body

end ContractCode

/-- Names, types and indexing of the fields, by which declarations of one name are compared. -/
def EventDecl.shape (e : EventDecl) : List (String × ParamType × Bool) :=
  e.fields.map fun f => (f.name, f.type, f.isIndexed)

/-- What contract code has to be like to be deployed. -/
structure ContractCode.Deployable (code : ContractCode) : Prop where
  once : ∀ c ∈ code.chain, (c.functions.map (·.name)).Nodup
  /-- The first definition of a function overrides nothing, and every later one overrides a
  virtual one. -/
  overrides : ∀ fn before f after, code.definers fn = before ++ f :: after →
    match before.getLast? with
    | none => f.item.isOverride = false
    | some prior => prior.item.isVirtual = true ∧ f.item.isOverride = true
  indexed : ∀ c ∈ code.chain, ∀ e ∈ c.events,
    (e.fields.filter (·.isIndexed)).length ≤ maxIndexedFields
  oneShape : ∀ event, ∀ e ∈ code.declarations event, ∀ e' ∈ code.declarations event,
    e.shape = e'.shape
  emits : ∀ body, code.Survives body → ∀ event args, (Instr.emit event args).Within body →
    ∃ e ∈ code.declarations event,
      Contract.signature args.keys = Contract.signature (e.fields.map (·.name))
  invokes : ∀ body, code.Survives body → ∀ fn args result,
    (Instr.invoke fn args result).Within body → code.definers fn ≠ []

namespace Contract

/-! ## Gathering along the chain -/

/-- Whether a function may be entered over the one that its name has. -/
def AcceptsFunction (prior : Option (Owned FunctionDef)) (f : Owned FunctionDef) : Prop :=
  match prior with
  | none => f.item.isOverride = false
  | some p => p.owner ≠ f.owner ∧ p.item.isVirtual = true ∧ f.item.isOverride = true

def AcceptsEvent (prior : Option EventDecl) (e : EventDecl) : Prop :=
  (e.fields.filter (·.isIndexed)).length ≤ maxIndexedFields ∧ ∀ p, prior = some p → p.shape = e.shape

/-- Enter a function with the contract that declares it. -/
def addOwned (t : Table (Owned FunctionDef)) (f : Owned FunctionDef) :
    Except Refusal (Table (Owned FunctionDef)) := addFunction f.owner t f.item

theorem addOwned_iff (t : Table (Owned FunctionDef)) (f : Owned FunctionDef)
    (t' : Table (Owned FunctionDef)) :
    addOwned t f = .ok t' ↔
      AcceptsFunction (t.get? f.item.name) f ∧ t' = t.set f.item.name f := by
  unfold addOwned addFunction AcceptsFunction
  cases t.get? f.item.name with
  | none =>
    by_cases hover : f.item.isOverride = true
    · simp [hover]
    · simp [hover, eq_comm]
  | some p =>
    by_cases howner : p.owner = f.owner
    · simp [howner]
    · by_cases hmarked : (p.item.isVirtual && f.item.isOverride) = true
      · simp only [howner, hmarked, if_true, if_false]
        simp only [Bool.and_eq_true] at hmarked
        simp [howner, hmarked, eq_comm]
      · simp only [howner, hmarked, if_false, Bool.false_eq_true, if_false]
        simp only [Bool.and_eq_true] at hmarked
        simp [howner, hmarked]

theorem sameShape_iff (e e' : EventDecl) : sameShape e e' = true ↔ e.shape = e'.shape :=
  decide_eq_true_iff

theorem addEvent_iff (t : Table EventDecl) (e : EventDecl) (t' : Table EventDecl) :
    addEvent t e = .ok t' ↔ AcceptsEvent (t.get? e.name) e ∧ t' = t.set e.name e := by
  unfold addEvent AcceptsEvent
  by_cases hindexed : maxIndexedFields < (e.fields.filter (·.isIndexed)).length
  · simp [hindexed, Nat.not_le.2 hindexed]
  · simp only [hindexed, if_false, Nat.le_of_not_lt hindexed, true_and]
    cases t.get? e.name with
    | none => simp [eq_comm]
    | some p =>
      by_cases hshape : sameShape p e = true
      · simp [hshape, (sameShape_iff p e).1 hshape, eq_comm]
      · simp [hshape, mt (sameShape_iff p e).2 hshape]

/-- A contract with the tables of a longer chain, and with what more of it adds. -/
def grow (c : Contract) (functions : Table (Owned FunctionDef)) (events : Table EventDecl)
    (inits : List (Owned ConstructorDef)) (fallbacks : List (Owned FallbackDef)) : Contract where
  address := c.address
  name := c.name
  functions := functions
  events := events
  inits := c.inits ++ inits
  fallback := fallbacks.getLast?.or c.fallback

theorem grow_grow (c : Contract) (f f' : Table (Owned FunctionDef)) (e e' : Table EventDecl)
    (i i' : List (Owned ConstructorDef)) (b b' : List (Owned FallbackDef)) :
    (c.grow f e i b).grow f' e' i' b' = c.grow f' e' (i ++ i') (b ++ b') := by
  simp only [grow, List.append_assoc, List.getLast?_append, Option.or_assoc]

theorem addCode_eq_ok {c c' : Contract} {d : ContractCode} :
    addCode c d = .ok c' ↔ ∃ functions events,
      d.ownFunctions.foldlM addOwned c.functions = .ok functions ∧
      d.events.foldlM addEvent c.events = .ok events ∧
      c' = c.grow functions events d.ownConstructors d.ownFallbacks := by
  have hown : d.ownFunctions.foldlM addOwned c.functions =
      d.functions.foldlM (addFunction d.name) c.functions := by
    unfold ContractCode.ownFunctions
    rw [List.foldlM_map]
    rfl
  have hlast : d.ownFallbacks.getLast? = d.fallback.map (⟨d.name, ·⟩) := by
    unfold ContractCode.ownFallbacks
    cases d.fallback <;> rfl
  rw [hown]
  unfold addCode grow
  rw [hlast]
  constructor
  · intro h
    split at h
    · cases h
    · next functions hfunctions =>
      split at h
      · cases h
      · next events hevents =>
        cases h
        exact ⟨functions, events, hfunctions, hevents, rfl⟩
  · rintro ⟨functions, events, hfunctions, hevents, rfl⟩
    rw [hfunctions, hevents]
    rfl

/-- Everything the contracts of a chain declare is entered in one go. -/
theorem foldlM_addCode {chain : List ContractCode} {c c' : Contract} :
    chain.foldlM addCode c = .ok c' ↔ ∃ functions events,
      (chain.flatMap (·.ownFunctions)).foldlM addOwned c.functions = .ok functions ∧
      (chain.flatMap (·.events)).foldlM addEvent c.events = .ok events ∧
      c' = c.grow functions events (chain.flatMap (·.ownConstructors))
        (chain.flatMap (·.ownFallbacks)) := by
  induction chain generalizing c with
  | nil =>
    constructor
    · intro h
      cases h
      exact ⟨c'.functions, c'.events, rfl, rfl, by simp [grow]⟩
    · rintro ⟨functions, events, hf, he, rfl⟩
      cases hf
      cases he
      simp [grow, pure, Except.pure]
  | cons d rest ih =>
    rw [List.foldlM_cons, Codec.bind_eq_ok]
    simp only [ih, addCode_eq_ok, List.flatMap_cons, List.foldlM_append, Codec.bind_eq_ok]
    constructor
    · rintro ⟨mid, ⟨functions, events, hf, he, rfl⟩, functions', events', hf', he', rfl⟩
      exact ⟨functions', events', ⟨functions, hf, hf'⟩, ⟨events, he, he'⟩, grow_grow ..⟩
    · rintro ⟨functions', events', ⟨functions, hf, hf'⟩, ⟨events, he, he'⟩, rfl⟩
      exact ⟨_, ⟨functions, events, hf, he, rfl⟩, functions', events', hf', he',
        (grow_grow ..).symm⟩

/-! ## Reading the tables -/

/-- What the contract code of a chain becomes at an address, before the bodies are checked. -/
def gathered (a : Address) (code : ContractCode) : Contract where
  address := a
  name := code.name
  functions := enter (·.item.name) (code.chain.flatMap (·.ownFunctions))
  events := enter (·.name) (code.chain.flatMap (·.events))
  inits := code.constructors
  fallback := code.fallbacks.getLast?

variable {a : Address} {code : ContractCode} {c : Contract}

theorem foldlM_addCode_chain :
    code.chain.foldlM addCode ⟨a, code.name, ∅, ∅, [], none⟩ = .ok c ↔
      (∀ fn, InTurn AcceptsFunction (code.definers fn)) ∧
      (∀ event, InTurn AcceptsEvent (code.declarations event)) ∧ c = gathered a code := by
  have hfunctions {t : Table (Owned FunctionDef)} :=
    foldlM_enter (t := t) addOwned_iff (code.chain.flatMap (·.ownFunctions))
  have hevents {t : Table EventDecl} :=
    foldlM_enter (t := t) addEvent_iff (code.chain.flatMap (·.events))
  rw [foldlM_addCode]
  constructor
  · rintro ⟨functions, events, hf, he, rfl⟩
    obtain ⟨hfollow, rfl⟩ := hfunctions.1 hf
    obtain ⟨hshapes, rfl⟩ := hevents.1 he
    refine ⟨hfollow, hshapes, ?_⟩
    simp [gathered, grow, ContractCode.constructors, ContractCode.fallbacks]
  · rintro ⟨hf, he, rfl⟩
    refine ⟨_, _, hfunctions.2 ⟨hf, rfl⟩, hevents.2 ⟨he, rfl⟩, ?_⟩
    simp [gathered, grow, ContractCode.constructors, ContractCode.fallbacks]

theorem flatten_eq_ok_iff_inTurn :
    flatten a code = .ok c ↔
      (∀ fn, InTurn AcceptsFunction (code.definers fn)) ∧
      (∀ event, InTurn AcceptsEvent (code.declarations event)) ∧
      (gathered a code).check = .ok () ∧ c = gathered a code := by
  rw [flatten_eq_ok, foldlM_addCode_chain]
  constructor
  · rintro ⟨⟨hf, he, rfl⟩, hcheck⟩
    exact ⟨hf, he, hcheck, rfl⟩
  · rintro ⟨hf, he, hcheck, rfl⟩
    exact ⟨⟨hf, he, rfl⟩, hcheck⟩

/-! ## The conditions by name -/

/-- The owners of the definitions of a function are different if every contract defines it once. -/
theorem pairwise_owner (h : (code.chain.map (·.name)).Nodup)
    (once : ∀ d ∈ code.chain, (d.functions.map (·.name)).Nodup) (fn : String) :
    (code.definers fn).Pairwise fun f g => f.owner ≠ g.owner := by
  unfold ContractCode.definers called
  rw [List.filter_flatMap, List.pairwise_flatMap]
  have hown : ∀ {d : ContractCode} {f : Owned FunctionDef},
      f ∈ d.ownFunctions.filter (fun f => decide (f.item.name = fn)) →
        f.owner = d.name ∧ f.item.name = fn := by
    intro d f hf
    obtain ⟨hmem, hname⟩ := List.mem_filter.1 hf
    obtain ⟨g, -, rfl⟩ := List.mem_map.1 hmem
    exact ⟨rfl, of_decide_eq_true hname⟩
  constructor
  · intro d hd
    have hnames : d.ownFunctions.Pairwise fun f g => f.item.name ≠ g.item.name := by
      unfold ContractCode.ownFunctions
      rw [List.pairwise_map]
      exact List.pairwise_map.1 (once d hd)
    refine List.Pairwise.imp_of_mem (fun hf hg hne => ?_) (hnames.filter _)
    exact absurd ((hown hf).2.trans (hown hg).2.symm) hne
  · refine (List.pairwise_map.1 h).imp fun hne f hf g hg => ?_
    rw [(hown hf).1, (hown hg).1]
    exact hne

/-- A contract whose functions were all entered defines each of them once. -/
theorem once_of_inTurn (h : ∀ fn, InTurn AcceptsFunction (code.definers fn)) {d : ContractCode}
    (hd : d ∈ code.chain) : (d.functions.map (·.name)).Nodup := by
  rw [List.nodup_iff_count_le_one]
  intro fn
  by_contra hcount
  obtain ⟨before, after, hchain⟩ := List.append_of_mem hd
  have hblock : called (·.item.name) d.ownFunctions fn =
      (d.functions.filter fun f => f.name == fn).map (⟨d.name, ·⟩) := by
    unfold called ContractCode.ownFunctions
    rw [List.filter_map]
    rfl
  have hmany : 1 < (d.functions.filter fun f => f.name == fn).length := by
    rw [List.count_eq_length_filter, List.filter_map, List.length_map] at hcount
    exact Nat.lt_of_not_le hcount
  obtain ⟨f, g, rest, hlist⟩ : ∃ f g rest,
      (d.functions.filter fun f => f.name == fn) = f :: g :: rest := by
    generalize (d.functions.filter fun f => f.name == fn) = block at hmany
    match block, hmany with
    | [], h | [_], h => simp at h
    | f :: g :: rest, _ => exact ⟨f, g, rest, rfl⟩
  have hfn := h fn
  unfold ContractCode.definers at hfn
  rw [hchain, List.flatMap_append, List.flatMap_cons, called_append, called_append, hblock, hlist,
    List.map_cons, List.map_cons] at hfn
  have hsecond := hfn
    (called (·.item.name) (before.flatMap ContractCode.ownFunctions) fn ++ [⟨d.name, f⟩])
    ⟨d.name, g⟩ (rest.map (⟨d.name, ·⟩) ++
      called (·.item.name) (after.flatMap ContractCode.ownFunctions) fn) (by simp)
  rw [List.getLast?_concat] at hsecond
  exact hsecond.1 rfl

/-- The functions of a chain of different contracts are entered if and only if every contract
declares its own once and every name is overridden properly. -/
theorem inTurn_functions (h : (code.chain.map (·.name)).Nodup) :
    (∀ fn, InTurn AcceptsFunction (code.definers fn)) ↔
      (∀ d ∈ code.chain, (d.functions.map (·.name)).Nodup) ∧
      ∀ fn before f after, code.definers fn = before ++ f :: after →
        match before.getLast? with
        | none => f.item.isOverride = false
        | some prior => prior.item.isVirtual = true ∧ f.item.isOverride = true := by
  constructor
  · refine fun hall => ⟨fun d hd => once_of_inTurn hall hd, fun fn before f after heq => ?_⟩
    have haccepts := hall fn before f after heq
    cases hlast : before.getLast? with
    | none =>
      rw [hlast] at haccepts
      exact haccepts
    | some prior =>
      rw [hlast] at haccepts
      exact haccepts.2
  · rintro ⟨once, hover⟩ fn before f after heq
    have hstep := hover fn before f after heq
    cases hlast : before.getLast? with
    | none =>
      rw [hlast] at hstep
      exact hstep
    | some prior =>
      rw [hlast] at hstep
      have hpair := pairwise_owner h once fn
      rw [heq, List.pairwise_append] at hpair
      exact ⟨hpair.2.2 prior (List.mem_of_getLast? hlast) f List.mem_cons_self, hstep⟩

/-- The declarations of a name are entered if and only if none has too many indexed fields and
all have one shape. -/
theorem inTurn_events {items : List EventDecl} :
    InTurn AcceptsEvent items ↔
      (∀ e ∈ items, (e.fields.filter (·.isIndexed)).length ≤ maxIndexedFields) ∧
      ∀ e ∈ items, ∀ e' ∈ items, e.shape = e'.shape := by
  induction items using List.reverseRecOn with
  | nil =>
    exact ⟨fun _ => ⟨fun _ h => absurd h List.not_mem_nil, fun _ h => absurd h List.not_mem_nil⟩,
      fun _ => .nil⟩
  | append_singleton items x ih =>
    rw [inTurn_concat, ih]
    unfold AcceptsEvent
    simp only [List.mem_append, List.mem_singleton]
    constructor
    · rintro ⟨⟨hindexed, hshape⟩, hx, hlast⟩
      have hsame : ∀ e ∈ items, e.shape = x.shape := fun e he => by
        cases hprior : items.getLast? with
        | none =>
          rw [List.getLast?_eq_none_iff.1 hprior] at he
          cases he
        | some p => exact (hshape e he p (List.mem_of_getLast? hprior)).trans (hlast p hprior)
      refine ⟨fun e he => ?_, fun e he e' he' => ?_⟩
      · rcases he with he | rfl
        · exact hindexed e he
        · exact hx
      · rcases he with he | rfl
        · rcases he' with he' | rfl
          · exact hshape e he e' he'
          · exact hsame e he
        · rcases he' with he' | rfl
          · exact (hsame e' he').symm
          · rfl
    · rintro ⟨hindexed, hshape⟩
      exact ⟨⟨fun e he => hindexed e (.inl he), fun e he e' he' => hshape e (.inl he) e' (.inl he')⟩,
        hindexed x (.inr rfl), fun p hp => hshape p (.inl (List.mem_of_getLast? hp)) x (.inr rfl)⟩

/-! ## The bodies that survive -/

theorem mem_bodies_gathered {body : List Instr} :
    body ∈ (gathered a code).bodies ↔ code.Survives body := by
  have hget : ∀ fn, (gathered a code).functions.get? fn = (code.definers fn).getLast? :=
    fun fn => get?_enter (fun f : Owned FunctionDef => f.item.name) _ fn
  constructor
  · intro h
    have every : (gathered a code).EveryBody code.Survives := by
      refine ⟨fun fn f hf => ?_, fun i hi => .constr hi, fun fb hfb => .fallback hfb⟩
      rw [hget] at hf
      exact .function hf
    exact every.bodies body h
  · intro h
    cases h with
    | function h => exact body_mem_of_get? ((hget _).trans h)
    | constr h => exact body_mem_of_init h
    | fallback h => exact body_mem_of_fallback h

/-- The bodies that survive pass their check if and only if their emits and invokes name what
is declared. -/
theorem check_gathered (shapes : ∀ event, ∀ e ∈ code.declarations event,
      ∀ e' ∈ code.declarations event, e.shape = e'.shape) :
    (gathered a code).check = .ok () ↔
      (∀ body, code.Survives body → ∀ event args, (Instr.emit event args).Within body →
        ∃ e ∈ code.declarations event,
          signature args.keys = signature (e.fields.map (·.name))) ∧
      ∀ body, code.Survives body → ∀ fn args result,
        (Instr.invoke fn args result).Within body → code.definers fn ≠ [] := by
  have hevent : ∀ event, (gathered a code).events.get? event = (code.declarations event).getLast? :=
    fun event => get?_enter EventDecl.name _ event
  have hget : ∀ fn, (gathered a code).functions.get? fn = (code.definers fn).getLast? :=
    fun fn => get?_enter (fun f : Owned FunctionDef => f.item.name) _ fn
  have hnames : ∀ {e e' : EventDecl}, e.shape = e'.shape →
      e.fields.map (·.name) = e'.fields.map (·.name) := fun h => by
    have := congrArg (List.map Prod.fst) h
    unfold EventDecl.shape at this
    rwa [List.map_map, List.map_map] at this
  simp only [check_eq_ok, mem_bodies_gathered]
  constructor
  · refine fun h => ⟨fun body hbody event args hi => ?_, fun body hbody fn args result hi => ?_⟩
    · obtain ⟨e, he, hsame⟩ := h body hbody _ hi
      rw [hevent] at he
      exact ⟨e, List.mem_of_getLast? he, hsame⟩
    · obtain ⟨f, hf⟩ := h body hbody _ hi
      rw [hget] at hf
      exact List.ne_nil_of_mem (List.mem_of_getLast? hf)
  · rintro ⟨hemits, hinvokes⟩ body hbody i hi
    cases i with
    | emit event args =>
      obtain ⟨e, he, hsame⟩ := hemits body hbody event args hi
      have hlast := List.getLast?_eq_some_getLast (List.ne_nil_of_mem he)
      refine ⟨_, (hevent event).trans hlast, ?_⟩
      rw [hsame, hnames (shapes event e he _ (List.mem_of_getLast? hlast))]
    | invoke fn args result =>
      have hlast := List.getLast?_eq_some_getLast (hinvokes body hbody fn args result hi)
      exact ⟨_, (hget fn).trans hlast⟩
    | bind | sstore | require | assert | revert | call | branch | ret | selfDestruct => trivial

/-! ## Refusals -/

section Refused

variable {r : Refusal}

theorem foldlM_error {α β ε : Type} {P : ε → Prop} {step : β → α → Except ε β}
    (hstep : ∀ b x e, step b x = .error e → P e) {l : List α} {b : β} {e : ε}
    (h : l.foldlM step b = .error e) : P e := by
  induction l generalizing b with
  | nil => cases h
  | cons x rest ih =>
    rw [List.foldlM_cons] at h
    cases hx : step b x with
    | error e' =>
      rw [hx] at h
      cases h
      exact hstep b x e hx
    | ok b' =>
      rw [hx] at h
      exact ih h

theorem forM_error {α ε : Type} {P : ε → Prop} {f : α → Except ε Unit}
    (hf : ∀ x e, f x = .error e → P e) {l : List α} {e : ε} (h : l.forM f = .error e) : P e := by
  induction l with
  | nil => cases h
  | cons x rest ih =>
    replace h : (f x >>= fun _ => rest.forM f) = .error e := h
    cases hx : f x with
    | error e' =>
      rw [hx] at h
      cases h
      exact hf x e hx
    | ok u =>
      rw [hx] at h
      exact ih h

/-- Entering and checking never refuse in the words of a failed constructor. -/
theorem failure?_of_addCode {c : Contract} {d : ContractCode} (h : addCode c d = .error r) :
    r.failure? = none := by
  have hfunction : ∀ t fn e, addFunction d.name t fn = .error e → e.failure? = none := by
    intro t fn e he
    unfold addFunction at he
    split at he
    · split at he <;> cases he
      rfl
    · split at he
      · cases he
        rfl
      · split at he <;> cases he
        rfl
  have hevent : ∀ t ev e, addEvent t ev = .error e → e.failure? = none := by
    intro t ev e he
    unfold addEvent at he
    simp only at he
    split at he
    · cases he
      rfl
    · split at he
      · cases he
      · split at he <;> cases he
        rfl
  unfold addCode at h
  split at h
  · next hfold =>
    cases h
    exact foldlM_error hfunction hfold
  · split at h
    · next hfold =>
      cases h
      exact foldlM_error hevent hfold
    · cases h

theorem failure?_of_checkInstr {c : Contract} {i : Instr} (h : checkInstr c i = .error r) :
    r.failure? = none := by
  unfold checkInstr at h
  split at h
  · split at h
    · cases h
      rfl
    · simp only at h
      split at h <;> cases h
      rfl
  · split at h <;> cases h
    rfl
  · cases h

theorem failure?_of_flatten (h : flatten a code = .error r) : r.failure? = none := by
  unfold flatten at h
  split at h
  · next hfold =>
    cases h
    exact foldlM_error (fun _ _ _ => failure?_of_addCode) hfold
  · split at h
    · next hcheck =>
      cases h
      exact forM_error (fun _ _ => failure?_of_checkInstr) hcheck
    · cases h

end Refused

/-! ## Flattening -/

/-- What contract code becomes at an address: every name stands for the last definition of it
in the chain, constructors run bases first, and the last fallback is the one. -/
structure Resolves (a : Address) (code : ContractCode) (c : Contract) : Prop where
  address : c.address = a
  name : c.name = code.name
  functions : ∀ fn, c.functions.get? fn = (code.definers fn).getLast?
  events : ∀ event, c.events.get? event = (code.declarations event).getLast?
  inits : c.inits = code.constructors
  fallback : c.fallback = code.fallbacks.getLast?

theorem exists_flatten_iff (one : code.Coherent) :
    (∃ c, flatten a code = .ok c) ↔ code.Deployable := by
  have hnames := (ContractCode.chain_lists one).once
  have hevents : (∀ event, InTurn AcceptsEvent (code.declarations event)) ↔
      (∀ d ∈ code.chain, ∀ e ∈ d.events,
        (e.fields.filter (·.isIndexed)).length ≤ maxIndexedFields) ∧
      ∀ event, ∀ e ∈ code.declarations event, ∀ e' ∈ code.declarations event,
        e.shape = e'.shape := by
    simp only [inTurn_events, forall_and]
    refine and_congr_left fun _ => ?_
    constructor
    · intro h d hd e he
      refine h e.name e (List.mem_filter.2 ⟨List.mem_flatMap.2 ⟨d, hd, he⟩, ?_⟩)
      exact decide_eq_true rfl
    · intro h event e he
      obtain ⟨d, hd, he⟩ := List.mem_flatMap.1 (List.mem_filter.1 he).1
      exact h d hd e he
  simp only [flatten_eq_ok_iff_inTurn, inTurn_functions hnames, hevents]
  constructor
  · rintro ⟨c, ⟨once, overrides⟩, ⟨indexed, oneShape⟩, hcheck, -⟩
    obtain ⟨emits, invokes⟩ := (check_gathered oneShape).1 hcheck
    exact ⟨once, overrides, indexed, oneShape, emits, invokes⟩
  · intro h
    exact ⟨_, ⟨h.once, h.overrides⟩, ⟨h.indexed, h.oneShape⟩,
      (check_gathered h.oneShape).2 ⟨h.emits, h.invokes⟩, rfl⟩

theorem resolves_of_flatten (h : flatten a code = .ok c) : Resolves a code c := by
  obtain ⟨-, -, -, rfl⟩ := flatten_eq_ok_iff_inTurn.1 h
  exact ⟨rfl, rfl, fun fn => get?_enter (fun f : Owned FunctionDef => f.item.name) _ fn,
    fun event => get?_enter EventDecl.name _ event, rfl, rfl⟩

/-- Flattening is exact for inheritance trees that use a name for one contract: the chain lists
the tree, the code is accepted if and only if it is fit to be deployed, refused as a failed
deployment if not, and what it becomes is read off its chain. -/
theorem flatten_exact (a : Address) (code : ContractCode) (one : code.Coherent) :
    ContractCode.Lists code.chain code ∧
    ((∃ c, flatten a code = .ok c) ↔ code.Deployable) ∧
    (∀ c, flatten a code = .ok c → Resolves a code c) ∧
    (¬code.Deployable → ∃ r, flatten a code = .error r ∧
      r.report = ⟨.deploymentError, some r.message⟩) := by
  refine ⟨ContractCode.chain_lists one, exists_flatten_iff one, fun c => resolves_of_flatten,
    fun hnot => ?_⟩
  cases h : flatten a code with
  | ok c => exact absurd ((exists_flatten_iff one).1 ⟨c, h⟩) hnot
  | error r =>
    refine ⟨r, rfl, ?_⟩
    unfold Refusal.report
    rw [failure?_of_flatten h]
    rfl

/-! ## A diamond -/

/-- A function that tells who asked. -/
def Diamond.who (isOverride : Bool) : FunctionDef where
  name := "who"
  visibility := .public
  mutability := .mutating
  isVirtual := true
  isOverride := isOverride
  body := [.emit "Asked" (.ofList [("by", .env .sender)])]

def Diamond.root : ContractCode where
  name := "Root"
  functions := [who false]
  events := [⟨"Asked", [⟨"by", .address, some true⟩]⟩]

/-- One of two contracts between the root and what is built on both. -/
def Diamond.side (name : String) : ContractCode where
  name := name
  bases := [root]
  functions := [who true]

def Diamond.top : ContractCode where
  name := "Top"
  bases := [side "Left", side "Right"]
  functions := []

theorem Diamond.coherent_top : top.Coherent := by
  -- the contract that each name of the tree stands for
  let byName (n : String) : ContractCode :=
    if n = "Root" then root else if n = "Top" then top else side n
  have hall : ∀ c ∈ top.tree, c = byName c.name := by
    have htree : top.tree = [root, side "Left", root, side "Right", top] := rfl
    rw [htree]
    simp only [List.forall_mem_cons]
    exact ⟨rfl, rfl, rfl, rfl, rfl, fun _ h => absurd h List.not_mem_nil⟩
  intro c hc d hd hname
  rw [hall c hc, hall d hd, hname]

/-- Of two definitions on the sides of the diamond, the one of the second base is last. -/
theorem flatten_exact_diamond :
    Diamond.top.Coherent ∧ Diamond.top.chain.map (·.name) = ["Root", "Left", "Right", "Top"] ∧
    ∃ c, flatten Address.zero Diamond.top = .ok c ∧
      (c.functions.get? "who").map (·.owner) = some "Right" := by
  obtain ⟨lists, -, resolves, -⟩ :=
    flatten_exact Address.zero Diamond.top Diamond.coherent_top
  refine ⟨Diamond.coherent_top, lists.order.trans (by decide +kernel), ?_⟩
  have haccepted : (flatten Address.zero Diamond.top).toOption.isSome = true := by decide +kernel
  cases h : flatten Address.zero Diamond.top with
  | error r =>
    rw [h] at haccepted
    cases haccepted
  | ok c =>
    refine ⟨c, rfl, ?_⟩
    rw [(resolves c h).functions]
    decide +kernel

end Contract
end ContractVM
