/-
The chain of a contract, for an inheritance tree that uses a name for one contract only.

The recursion that finds the chain carries the names it has met, and a contract met before
is skipped with everything below it.  Nothing is lost by that: when a name comes up a second
time it is not the name of a contract that is still open, since a contract is no base of its
own, so all contracts below it were met too.  What remains of the tree are the first
occurrences, in order.
-/
import ContractVM.Contract.Flatten
import ContractVM.Proofs.Text.Units
import Mathlib.Data.List.Nodup
import Mathlib.Tactic.Tauto

namespace ContractVM
namespace ContractCode

/-! ## The inheritance tree -/

mutual
/-- All contracts of the inheritance tree, bases first.  A contract stands in it as often as it
is inherited. -/
def tree : ContractCode → List ContractCode
  | code@⟨_, bases, _, _, _, _⟩ => forest bases ++ [code]

def forest : List ContractCode → List ContractCode
  | [] => []
  | code :: rest => code.tree ++ forest rest
end

/-- The direct and indirect bases of a contract. -/
def ancestors (code : ContractCode) : List ContractCode := forest code.bases

theorem tree_eq (code : ContractCode) : code.tree = code.ancestors ++ [code] := by
  cases code
  rw [tree]
  rfl

theorem mem_tree_self (code : ContractCode) : code ∈ code.tree := by
  rw [tree_eq]
  exact List.mem_append_right _ List.mem_cons_self

theorem mem_forest {l : List ContractCode} {d : ContractCode} :
    d ∈ forest l ↔ ∃ c ∈ l, d ∈ c.tree := by
  induction l with
  | nil => simp [forest]
  | cons c rest ih =>
    rw [forest, List.mem_append, ih]
    simp

/-- What holds of a contract whenever it holds of its bases holds of every contract. -/
theorem induct {P : ContractCode → Prop} (step : ∀ code, (∀ b ∈ code.bases, P b) → P code)
    (code : ContractCode) : P code :=
  step code fun b _ => induct step b
termination_by code
decreasing_by
  have hlt := List.sizeOf_lt_of_mem ‹b ∈ _›
  cases code
  simp only [mk.sizeOf_spec] at hlt ⊢
  omega

/-- The tree of a contract in it is part of a tree. -/
theorem tree_subset {code : ContractCode} : ∀ d ∈ code.tree, ∀ e ∈ d.tree, e ∈ code.tree := by
  induction code using induct with
  | step code ih =>
    intro d hd e he
    rw [tree_eq, List.mem_append, List.mem_singleton] at hd
    rcases hd with hd | rfl
    · obtain ⟨b, hb, hd⟩ := mem_forest.1 hd
      rw [tree_eq]
      exact List.mem_append_left _ (mem_forest.2 ⟨b, hb, ih b hb d hd e he⟩)
    · exact he

theorem length_tree_le_forest {b : ContractCode} {l : List ContractCode} (h : b ∈ l) :
    b.tree.length ≤ (forest l).length := by
  induction l with
  | nil => cases h
  | cons c rest ih =>
    rw [forest, List.length_append]
    rcases List.mem_cons.1 h with rfl | h
    · exact Nat.le_add_right _ _
    · exact Nat.le_add_left_of_le (ih h)

theorem length_tree_lt {code : ContractCode} :
    ∀ d ∈ code.ancestors, d.tree.length < code.tree.length := by
  induction code using induct with
  | step code ih =>
    intro d hd
    obtain ⟨b, hb, hmem⟩ := mem_forest.1 hd
    have hbase : b.tree.length < code.tree.length := by
      rw [tree_eq code, List.length_append]
      exact Nat.lt_succ_of_le (length_tree_le_forest hb)
    rw [tree_eq, List.mem_append, List.mem_singleton] at hmem
    rcases hmem with hmem | rfl
    · exact Nat.lt_trans (ih b hb d hmem) hbase
    · exact hbase

/-- No contract is a base of its own. -/
theorem notMem_ancestors (code : ContractCode) : code ∉ code.ancestors :=
  fun h => Nat.lt_irrefl _ (length_tree_lt code h)

/-- Every contract of the list stands behind all its bases. -/
def BasesFirst (l : List ContractCode) : Prop :=
  ∀ before c rest, l = before ++ c :: rest → ∀ b ∈ c.ancestors, b ∈ before

/-- Where an element stands in one list after another. -/
theorem split_append {α : Type} {l r before rest : List α} {c : α}
    (h : l ++ r = before ++ c :: rest) :
    (∃ z, l = before ++ c :: z) ∨ ∃ z, before = l ++ z ∧ r = z ++ c :: rest := by
  rcases List.append_eq_append_iff.1 h with ⟨z, hbefore, hr⟩ | ⟨z, hl, hz⟩
  · exact .inr ⟨z, hbefore, hr⟩
  · cases z with
    | nil => exact .inr ⟨[], by rw [hl, List.append_nil, List.append_nil], hz.symm⟩
    | cons d z =>
      obtain ⟨rfl, -⟩ := List.cons.inj hz
      exact .inl ⟨z, hl⟩

theorem BasesFirst.append {l r : List ContractCode} (hl : BasesFirst l) (hr : BasesFirst r) :
    BasesFirst (l ++ r) := by
  intro before c rest heq b hb
  rcases split_append heq with ⟨z, hz⟩ | ⟨z, rfl, hz⟩
  · exact hl before c z hz b hb
  · exact List.mem_append_right _ (hr z c rest hz b hb)

theorem BasesFirst.concat {l : List ContractCode} (hl : BasesFirst l) {c : ContractCode}
    (hc : ∀ b ∈ c.ancestors, b ∈ l) : BasesFirst (l ++ [c]) := by
  intro before d rest heq b hb
  rcases split_append heq with ⟨z, hz⟩ | ⟨z, rfl, hz⟩
  · exact hl before d z hz b hb
  · obtain ⟨rfl, rfl⟩ : z = [] ∧ c = d := by
      cases z with
      | nil => exact ⟨rfl, (List.cons.inj hz).1⟩
      | cons e z => simp at hz
    exact List.mem_append_left _ (hc b hb)

/-- In a tree every contract stands behind its bases. -/
theorem basesFirst_tree (code : ContractCode) : BasesFirst code.tree := by
  induction code using induct with
  | step code ih =>
    have hforest : ∀ l, (∀ b ∈ l, BasesFirst b.tree) → BasesFirst (forest l) := by
      intro l hl
      induction l with
      | nil => exact fun before c rest heq => absurd heq (by simp [forest])
      | cons b rest ihl =>
        rw [forest]
        exact (hl b List.mem_cons_self).append (ihl fun d hd => hl d (List.mem_cons_of_mem b hd))
    rw [tree_eq]
    exact (hforest code.bases ih).concat fun b hb => hb

/-- One name, one contract. -/
def OneByName (l : List ContractCode) : Prop := ∀ c ∈ l, ∀ d ∈ l, c.name = d.name → c = d

/-- An inheritance tree that uses a name for one contract only. -/
def Coherent (code : ContractCode) : Prop := OneByName code.tree

/-! ## First occurrences -/

/-- The contracts of a list whose names are not in `seen`, each at its first occurrence. -/
def firsts (seen : List String) : List ContractCode → List ContractCode
  | [] => []
  | c :: rest => if c.name ∈ seen then firsts seen rest else c :: firsts (c.name :: seen) rest

def names (l : List ContractCode) : List String := l.map (·.name)

theorem firsts_cons_of_mem {s : List String} {c : ContractCode} (rest : List ContractCode)
    (h : c.name ∈ s) : firsts s (c :: rest) = firsts s rest := if_pos h

theorem firsts_cons_of_notMem {s : List String} {c : ContractCode} (rest : List ContractCode)
    (h : c.name ∉ s) : firsts s (c :: rest) = c :: firsts (c.name :: s) rest := if_neg h

theorem firsts_congr {s t : List String} {l : List ContractCode}
    (h : ∀ c ∈ l, c.name ∈ s ↔ c.name ∈ t) : firsts s l = firsts t l := by
  induction l generalizing s t with
  | nil => rfl
  | cons c rest ih =>
    have hrest : ∀ d ∈ rest, d.name ∈ s ↔ d.name ∈ t := fun d hd => h d (List.mem_cons_of_mem c hd)
    unfold firsts
    rw [ih hrest, ih (s := c.name :: s) (t := c.name :: t) fun d hd => by
      rw [List.mem_cons, List.mem_cons, hrest d hd]]
    simp only [h c List.mem_cons_self]

theorem firsts_eq_nil {s : List String} {l : List ContractCode} (h : ∀ c ∈ l, c.name ∈ s) :
    firsts s l = [] := by
  induction l with
  | nil => rfl
  | cons c rest ih =>
    rw [firsts_cons_of_mem _ (h c List.mem_cons_self)]
    exact ih fun d hd => h d (List.mem_cons_of_mem c hd)

theorem firsts_append (s : List String) (l r : List ContractCode) :
    firsts s (l ++ r) = firsts s l ++ firsts (names l ++ s) r := by
  induction l generalizing s with
  | nil => rfl
  | cons c rest ih =>
    rw [List.cons_append]
    by_cases hc : c.name ∈ s
    · rw [firsts_cons_of_mem _ hc, firsts_cons_of_mem _ hc, ih]
      congr 1
      refine firsts_congr fun d _ => ?_
      simp only [names, List.map_cons, List.mem_append, List.mem_cons]
      constructor
      · exact fun h => h.imp_left .inr
      · rintro ((h | h) | h)
        · exact .inr (h ▸ hc)
        · exact .inl h
        · exact .inr h
    · rw [firsts_cons_of_notMem _ hc, firsts_cons_of_notMem _ hc, ih, List.cons_append]
      congr 2
      refine firsts_congr fun d _ => ?_
      simp only [names, List.map_cons, List.mem_append, List.mem_cons]
      tauto

theorem mem_names_firsts {s : List String} {l : List ContractCode} {n : String} :
    n ∈ names (firsts s l) ↔ n ∈ names l ∧ n ∉ s := by
  induction l generalizing s with
  | nil => simp [firsts, names]
  | cons c rest ih =>
    unfold firsts
    unfold names at ih ⊢
    split
    · next hc =>
      rw [ih, List.map_cons, List.mem_cons]
      constructor
      · exact fun h => ⟨.inr h.1, h.2⟩
      · rintro ⟨rfl | h, hn⟩
        · exact absurd hc hn
        · exact ⟨h, hn⟩
    · next hc =>
      rw [List.map_cons, List.map_cons, List.mem_cons, List.mem_cons, ih, List.mem_cons]
      constructor
      · rintro (rfl | ⟨h, hn⟩)
        · exact ⟨.inl rfl, hc⟩
        · exact ⟨.inr h, fun h => hn (.inr h)⟩
      · rintro ⟨rfl | h, hn⟩
        · exact .inl rfl
        · by_cases heq : n = c.name
          · exact .inl heq
          · exact .inr ⟨h, fun h => h.elim heq hn⟩

theorem firsts_sublist (s : List String) (l : List ContractCode) : (firsts s l).Sublist l := by
  induction l generalizing s with
  | nil => exact .slnil
  | cons c rest ih =>
    unfold firsts
    split
    · exact (ih s).cons c
    · exact (ih _).cons_cons c

/-- The names of the first occurrences are the names without repetition. -/
theorem names_firsts (s : List String) (l : List ContractCode) :
    names (firsts s l) = ((names l).filter fun n => n ∉ s).eraseDups := by
  induction l generalizing s with
  | nil => rfl
  | cons c rest ih =>
    unfold names at ih ⊢
    by_cases hc : c.name ∈ s
    · rw [firsts_cons_of_mem _ hc, ih, List.map_cons, List.filter_cons_of_neg (by simpa using hc)]
    · rw [firsts_cons_of_notMem _ hc, List.map_cons, ih, List.map_cons,
        List.filter_cons_of_pos (by simpa using hc), List.eraseDups_cons, List.filter_filter]
      congr 3
      funext n
      by_cases hn : n = c.name <;> simp [hn]

/-! ## The chain -/

theorem lineage_eq (seen : List String) (code : ContractCode) :
    code.lineage seen =
      if code.name ∈ seen then ([], seen)
      else ((lineages (code.name :: seen) code.bases).1 ++ [code],
        (lineages (code.name :: seen) code.bases).2) := by
  cases code
  rw [lineage]

/-- Names met so far: with a contract of `l`, all contracts below it were met. -/
def Closed (seen : List String) (l : List ContractCode) : Prop :=
  ∀ d ∈ l, d.name ∈ seen → ∀ e ∈ d.tree, e.name ∈ seen

/-- The contracts found and the names met are those of the list that is walked. -/
def Walks (found : List ContractCode × List String) (seen : List String) (l : List ContractCode) :
    Prop :=
  found.1 = firsts seen l ∧ ∀ n, n ∈ found.2 ↔ n ∈ names l ++ seen

theorem lineages_walks {l : List ContractCode}
    (step : ∀ b ∈ l, ∀ seen, OneByName b.tree → Closed seen b.tree →
      Walks (b.lineage seen) seen b.tree)
    (seen : List String) (one : OneByName (forest l)) (closed : Closed seen (forest l)) :
    Walks (lineages seen l) seen (forest l) := by
  induction l generalizing seen with
  | nil => exact ⟨by rw [lineages, forest]; rfl, fun n => by rw [lineages, forest]; simp [names]⟩
  | cons b rest ih =>
    have inb : ∀ {d}, d ∈ b.tree → d ∈ forest (b :: rest) := fun hd => by
      rw [forest]
      exact List.mem_append_left _ hd
    have inrest : ∀ {d}, d ∈ forest rest → d ∈ forest (b :: rest) := fun hd => by
      rw [forest]
      exact List.mem_append_right _ hd
    obtain ⟨hfound, hmet⟩ := step b List.mem_cons_self seen
      (fun c hc d hd => one c (inb hc) d (inb hd)) (fun d hd => closed d (inb hd))
    have closed' : Closed (b.lineage seen).2 (forest rest) := by
      intro d hd hname e he
      rw [hmet, List.mem_append] at hname ⊢
      rcases hname with hname | hname
      · obtain ⟨d', hd', heq⟩ := List.mem_map.1 hname
        obtain rfl := one d' (inb hd') d (inrest hd) heq
        exact .inl (List.mem_map_of_mem (tree_subset d' hd' e he))
      · exact .inr (closed d (inrest hd) hname e he)
    obtain ⟨hothers, hall⟩ := ih (fun c hc => step c (List.mem_cons_of_mem b hc))
      (b.lineage seen).2 (fun c hc d hd => one c (inrest hc) d (inrest hd)) closed'
    rw [lineages, forest]
    refine ⟨?_, fun n => ?_⟩
    · show (b.lineage seen).1 ++ (lineages (b.lineage seen).2 rest).1 = _
      rw [hfound, hothers, firsts_append]
      congr 1
      exact firsts_congr fun d _ => hmet _
    · rw [hall, List.mem_append, hmet]
      simp only [names, List.map_append, List.mem_append]
      tauto

theorem lineage_walks (code : ContractCode) : ∀ seen, OneByName code.tree →
    Closed seen code.tree → Walks (code.lineage seen) seen code.tree := by
  induction code using induct with
  | step code ih =>
    intro seen one closed
    rw [lineage_eq]
    have hself := mem_tree_self code
    by_cases hmet : code.name ∈ seen
    · rw [if_pos hmet]
      have hall : ∀ n ∈ names code.tree, n ∈ seen := fun n hn => by
        obtain ⟨e, he, rfl⟩ := List.mem_map.1 hn
        exact closed code hself hmet e he
      refine ⟨?_, fun n => ?_⟩
      · exact (firsts_eq_nil fun e he => hall _ (List.mem_map_of_mem he)).symm
      · rw [List.mem_append]
        exact ⟨.inr, fun h => h.elim (hall n) id⟩
    · rw [if_neg hmet]
      have below : ∀ {d}, d ∈ forest code.bases → d ∈ code.tree ∧ d.name ≠ code.name := by
        intro d hd
        have hmem : d ∈ code.tree := by
          rw [tree_eq]
          exact List.mem_append_left _ hd
        refine ⟨hmem, fun hname => ?_⟩
        obtain rfl := one d hmem code hself hname
        exact notMem_ancestors d hd
      have closed' : Closed (code.name :: seen) (forest code.bases) := by
        intro d hd hname e he
        have hseen := (List.mem_cons.1 hname).resolve_left (below hd).2
        exact List.mem_cons_of_mem _ (closed d (below hd).1 hseen e he)
      obtain ⟨hfound, hnames⟩ := lineages_walks ih (code.name :: seen)
        (fun c hc d hd => one c (below hc).1 d (below hd).1) closed'
      have hsame : firsts (code.name :: seen) code.ancestors = firsts seen code.ancestors :=
        firsts_congr fun d hd => by
          rw [List.mem_cons]
          exact ⟨fun h => h.resolve_left (below hd).2, .inr⟩
      have hnew : code.name ∉ names code.ancestors ++ seen := by
        rw [List.mem_append]
        rintro (h | h)
        · obtain ⟨d, hd, hname⟩ := List.mem_map.1 h
          exact (below hd).2 hname
        · exact hmet h
      refine ⟨?_, fun n => ?_⟩
      · show (lineages (code.name :: seen) code.bases).1 ++ [code] = _
        rw [hfound, tree_eq, firsts_append, firsts_cons_of_notMem _ hnew]
        exact congrArg (· ++ [code]) hsame
      · rw [tree_eq]
        show n ∈ (lineages (code.name :: seen) code.bases).2 ↔ _
        rw [hnames]
        simp only [names, ancestors, List.map_append, List.mem_append, List.mem_cons,
          List.map_cons, List.map_nil, List.not_mem_nil]
        tauto

theorem chain_eq {code : ContractCode} (one : code.Coherent) : code.chain = firsts [] code.tree :=
  (lineage_walks code [] one fun _ _ h => nomatch h).1

/-- A name that occurs before a contract in the tree occurs before it in the chain. -/
theorem firsts_split {s : List String} {l before rest : List ContractCode} {c : ContractCode}
    (h : firsts s l = before ++ c :: rest) :
    ∃ l₁ l₂, l = l₁ ++ c :: l₂ ∧ before = firsts s l₁ := by
  induction l generalizing s before with
  | nil => simp [firsts] at h
  | cons d l ih =>
    by_cases hd : d.name ∈ s
    · rw [firsts_cons_of_mem _ hd] at h
      obtain ⟨l₁, l₂, rfl, rfl⟩ := ih h
      exact ⟨d :: l₁, l₂, rfl, (firsts_cons_of_mem _ hd).symm⟩
    · rw [firsts_cons_of_notMem _ hd] at h
      cases before with
      | nil =>
        obtain ⟨rfl, -⟩ := List.cons.inj h
        exact ⟨[], l, rfl, rfl⟩
      | cons e before =>
        obtain ⟨rfl, hrest⟩ := List.cons.inj h
        obtain ⟨l₁, l₂, rfl, rfl⟩ := ih hrest
        exact ⟨d :: l₁, l₂, rfl, (firsts_cons_of_notMem _ hd).symm⟩

/-- Where a name stands for one contract, the contracts of a list are those at the first
occurrences of their names. -/
theorem mem_firsts {l : List ContractCode} (one : OneByName l) {c : ContractCode} :
    c ∈ firsts [] l ↔ c ∈ l := by
  refine ⟨fun h => (firsts_sublist [] l).subset h, fun h => ?_⟩
  have hname : c.name ∈ names (firsts [] l) :=
    mem_names_firsts.2 ⟨List.mem_map_of_mem h, List.not_mem_nil⟩
  obtain ⟨d, hd, heq⟩ := List.mem_map.1 hname
  rwa [← one d ((firsts_sublist [] l).subset hd) c h heq]

/-- A chain lists a tree: each of its names once, in the order of first occurrence, all bases
before what is built on them and the contract itself last. -/
structure Lists (chain : List ContractCode) (code : ContractCode) : Prop where
  order : chain.map (·.name) = (code.tree.map (·.name)).eraseDups
  once : (chain.map (·.name)).Nodup
  all : ∀ c, c ∈ chain ↔ c ∈ code.tree
  basesFirst : BasesFirst chain
  last : chain.getLast? = some code

theorem chain_lists {code : ContractCode} (one : code.Coherent) : Lists code.chain code := by
  have horder : code.chain.map (·.name) = (code.tree.map (·.name)).eraseDups := by
    rw [chain_eq one]
    refine (names_firsts [] code.tree).trans ?_
    simp [names]
  refine ⟨horder, ?_, fun c => ?_, ?_, ?_⟩
  · rw [horder]
    exact Text.nodup_eraseDups _
  · rw [chain_eq one]
    exact mem_firsts one
  · rw [chain_eq one]
    intro before c rest heq b hb
    obtain ⟨l₁, l₂, htree, rfl⟩ := firsts_split heq
    have hsub : ∀ {d}, d ∈ l₁ → d ∈ code.tree := fun hd => by
      rw [htree]
      exact List.mem_append_left _ hd
    exact (mem_firsts fun c hc d hd => one c (hsub hc) d (hsub hd)).2
      (basesFirst_tree code l₁ c l₂ htree b hb)
  · have hnew : code.name ∉ names code.ancestors ++ [] := by
      rw [List.append_nil]
      intro h
      obtain ⟨d, hd, hname⟩ := List.mem_map.1 h
      have hmem : d ∈ code.tree := by
        rw [tree_eq]
        exact List.mem_append_left _ hd
      obtain rfl := one d hmem code (mem_tree_self code) hname
      exact notMem_ancestors d hd
    rw [chain_eq one, tree_eq, firsts_append, firsts_cons_of_notMem _ hnew]
    exact List.getLast?_concat

end ContractCode
end ContractVM
