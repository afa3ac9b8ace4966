/-
A root fixes what it is the root of.

The root over the hashes of some strings is the value of a tree with these strings as leaves
(`value_build`); a node without a partner is a child twice.  Hashes have one length, so a node
that is hashed can be taken apart again, and two trees of one value are equal unless two
strings that were hashed have one hash or a leaf is what another tree hashes for a node
(`Tree.eq_of_value`).  Nothing is assumed of the hash: `root_binds` is about the strings that
were hashed.
-/
import ContractVM.Hash.Merkle

namespace ContractVM
namespace Merkle

variable {hash : Bytes → Bytes}

/-! ## What is hashed -/

/-- The strings that are hashed for the nodes one level up. -/
def pairs : List Bytes → List Bytes
  | [] => []
  | [last] => [last ++ last]
  | left :: right :: rest => (left ++ right) :: pairs rest

/-- The strings that are hashed for a root over given leaves. -/
def hashed (hash : Bytes → Bytes) : List Bytes → List Bytes
  | [] => [[]]
  | [_] => []
  | a :: b :: rest => pairs (a :: b :: rest) ++ hashed hash (pairUp hash (a :: b :: rest))
termination_by nodes => nodes.length
decreasing_by
  rw [length_pairUp]
  simp only [List.length_cons]
  omega

/-! ## Trees -/

/-- How the hash of a root came about. -/
inductive Tree where
  | leaf (input : Bytes)
  | node (left right : Tree)

namespace Tree

def value (hash : Bytes → Bytes) : Tree → Bytes
  | leaf input => hash input
  | node left right => hash (left.value hash ++ right.value hash)

def leaves : Tree → List Bytes
  | leaf input => [input]
  | node left right => left.leaves ++ right.leaves

/-- The strings that are hashed for nodes that are no leaves. -/
def inner (hash : Bytes → Bytes) : Tree → List Bytes
  | leaf _ => []
  | node left right =>
    (left.value hash ++ right.value hash) :: (left.inner hash ++ right.inner hash)

variable {n : Nat}

theorem length_value (length : ∀ x, (hash x).length = n) (t : Tree) : (t.value hash).length = n := by
  cases t <;> exact length _

theorem length_inner (length : ∀ x, (hash x).length = n) {t : Tree} {x : Bytes}
    (hx : x ∈ t.inner hash) : x.length = n + n := by
  induction t with
  | leaf input => cases hx
  | node left right ihl ihr =>
    rcases List.mem_cons.1 hx with rfl | hx
    · rw [List.length_append, length_value length, length_value length]
    · exact (List.mem_append.1 hx).elim ihl ihr

/-- Trees of one value are equal if no two strings among their leaves `L` and their inner
strings `N` have one hash and none is in both. -/
theorem eq_of_value (length : ∀ x, (hash x).length = n) {L N : Bytes → Prop}
    (inj : ∀ x y, L x ∨ N x → L y ∨ N y → hash x = hash y → x = y) (apart : ∀ x, L x → ¬ N x)
    {t t' : Tree} (leaves : ∀ x ∈ t.leaves, L x) (leaves' : ∀ x ∈ t'.leaves, L x)
    (inner : ∀ x ∈ t.inner hash, N x) (inner' : ∀ x ∈ t'.inner hash, N x)
    (h : t.value hash = t'.value hash) : t = t' := by
  induction t generalizing t' with
  | leaf x =>
    have hx : L x := leaves x List.mem_cons_self
    cases t' with
    | leaf y =>
      have hy : L y := leaves' y List.mem_cons_self
      rw [inj x y (.inl hx) (.inl hy) h]
    | node left right =>
      have hnode := inner' _ List.mem_cons_self
      exact absurd (inj x _ (.inl hx) (.inr hnode) h ▸ hnode) (apart x hx)
  | node left right ihl ihr =>
    have hnode := inner _ List.mem_cons_self
    cases t' with
    | leaf y =>
      have hy : L y := leaves' y List.mem_cons_self
      exact absurd (inj _ y (.inr hnode) (.inl hy) h ▸ hnode) (apart y hy)
    | node left' right' =>
      have hnode' := inner' _ List.mem_cons_self
      -- Both halves have the length of a hash, so equal strings have equal halves.
      obtain ⟨hleft, hright⟩ := List.append_inj (inj _ _ (.inr hnode) (.inr hnode') h)
        ((length_value length left).trans (length_value length left').symm)
      rw [ihl (fun x hx => leaves x (List.mem_append_left _ hx))
          (fun x hx => leaves' x (List.mem_append_left _ hx))
          (fun x hx => inner x (List.mem_cons_of_mem _ (List.mem_append_left _ hx)))
          (fun x hx => inner' x (List.mem_cons_of_mem _ (List.mem_append_left _ hx))) hleft,
        ihr (fun x hx => leaves x (List.mem_append_right _ hx))
          (fun x hx => leaves' x (List.mem_append_right _ hx))
          (fun x hx => inner x (List.mem_cons_of_mem _ (List.mem_append_right _ hx)))
          (fun x hx => inner' x (List.mem_cons_of_mem _ (List.mem_append_right _ hx))) hright]

end Tree

/-! ## The tree of a root -/

def pairTrees : List Tree → List Tree
  | [] => []
  | [last] => [.node last last]
  | left :: right :: rest => .node left right :: pairTrees rest

theorem length_pairTrees (ts : List Tree) : (pairTrees ts).length = (ts.length + 1) / 2 := by
  induction ts using pairTrees.induct with
  | case1 => rfl
  | case2 => simp [pairTrees]
  | case3 left right rest ih => simp only [pairTrees, List.length_cons, ih]; omega

/-- One tree over several; over none it is a leaf with nothing in it. -/
def join : List Tree → Tree
  | [] => .leaf []
  | [t] => t
  | a :: b :: rest => join (pairTrees (a :: b :: rest))
termination_by ts => ts.length
decreasing_by
  rw [length_pairTrees]
  simp only [List.length_cons]
  omega

def build (inputs : List Bytes) : Tree := join (inputs.map .leaf)

theorem map_value_pairTrees (hash : Bytes → Bytes) (ts : List Tree) :
    (pairTrees ts).map (·.value hash) = pairUp hash (ts.map (·.value hash)) := by
  induction ts using pairTrees.induct with
  | case1 => rfl
  | case2 => rfl
  | case3 left right rest ih => rw [pairTrees, List.map_cons, ih]; rfl

theorem mem_leaves_pairTrees {ts : List Tree} {x : Bytes} :
    x ∈ (pairTrees ts).flatMap Tree.leaves ↔ x ∈ ts.flatMap Tree.leaves := by
  induction ts using pairTrees.induct with
  | case1 => exact Iff.rfl
  | case2 last => simp [pairTrees, Tree.leaves]
  | case3 left right rest ih =>
    simp only [pairTrees, List.flatMap_cons, Tree.leaves, List.mem_append, ih, or_assoc]

theorem mem_inner_pairTrees {ts : List Tree} {x : Bytes}
    (h : ∃ t ∈ pairTrees ts, x ∈ t.inner hash) :
    (∃ t ∈ ts, x ∈ t.inner hash) ∨ x ∈ pairs (ts.map (·.value hash)) := by
  induction ts using pairTrees.induct with
  | case1 => exact .inl h
  | case2 last =>
    obtain ⟨t, ht, hx⟩ := h
    rw [List.mem_singleton.1 ht, Tree.inner] at hx
    rcases List.mem_cons.1 hx with rfl | hx
    · exact .inr List.mem_cons_self
    · exact .inl ⟨last, List.mem_cons_self, (List.mem_append.1 hx).elim id id⟩
  | case3 left right rest ih =>
    obtain ⟨t, ht, hx⟩ := h
    rcases List.mem_cons.1 ht with rfl | ht
    · rw [Tree.inner] at hx
      rcases List.mem_cons.1 hx with rfl | hx
      · exact .inr List.mem_cons_self
      · rcases List.mem_append.1 hx with hx | hx
        · exact .inl ⟨left, List.mem_cons_self, hx⟩
        · exact .inl ⟨right, List.mem_cons_of_mem _ List.mem_cons_self, hx⟩
    · rcases ih ⟨t, ht, hx⟩ with ⟨t, ht, hx⟩ | hx
      · exact .inl ⟨t, List.mem_cons_of_mem _ (List.mem_cons_of_mem _ ht), hx⟩
      · exact .inr (List.mem_cons_of_mem _ hx)

theorem value_join (hash : Bytes → Bytes) (ts : List Tree) :
    (join ts).value hash = root hash (ts.map (·.value hash)) := by
  induction ts using join.induct with
  | case1 => rw [join, List.map_nil, root, Tree.value]
  | case2 t => rw [join, List.map_cons, List.map_nil, root]
  | case3 a b rest ih => rw [join, ih, map_value_pairTrees, List.map_cons, List.map_cons, root]

theorem mem_leaves_join {ts : List Tree} {x : Bytes} :
    x ∈ (join ts).leaves ↔ x ∈ ts.flatMap Tree.leaves ∨ ts = [] ∧ x = [] := by
  induction ts using join.induct with
  | case1 => simp [join, Tree.leaves]
  | case2 t => simp [join]
  | case3 a b rest ih =>
    have hne : pairTrees (a :: b :: rest) ≠ [] := List.cons_ne_nil _ _
    rw [join, ih, mem_leaves_pairTrees, or_iff_left fun h => hne h.1,
      or_iff_left fun h => List.cons_ne_nil _ _ h.1]

theorem mem_inner_join {ts : List Tree} {x : Bytes} (h : x ∈ (join ts).inner hash) :
    (∃ t ∈ ts, x ∈ t.inner hash) ∨ x ∈ hashed hash (ts.map (·.value hash)) := by
  induction ts using join.induct with
  | case1 =>
    rw [join] at h
    cases h
  | case2 t =>
    rw [join] at h
    exact .inl ⟨t, List.mem_cons_self, h⟩
  | case3 a b rest ih =>
    rw [join] at h
    rw [List.map_cons, List.map_cons, hashed, List.mem_append]
    rcases ih h with h | h
    · exact (mem_inner_pairTrees h).imp_right .inl
    · rw [map_value_pairTrees] at h
      exact .inr (.inr h)

theorem map_value_leaf (hash : Bytes → Bytes) (inputs : List Bytes) :
    (inputs.map Tree.leaf).map (·.value hash) = inputs.map hash := by
  rw [List.map_map]
  rfl

/-- The root over hashed strings is the value of their tree. -/
theorem value_build (hash : Bytes → Bytes) (inputs : List Bytes) :
    (build inputs).value hash = root hash (inputs.map hash) := by
  rw [build, value_join, map_value_leaf]

theorem mem_leaves_build {inputs : List Bytes} {x : Bytes} :
    x ∈ (build inputs).leaves ↔ x ∈ inputs ∨ inputs = [] ∧ x = [] := by
  rw [build, mem_leaves_join, List.flatMap_map, List.map_eq_nil_iff]
  simp only [Tree.leaves, List.flatMap_singleton']

theorem mem_inner_build {inputs : List Bytes} {x : Bytes} (h : x ∈ (build inputs).inner hash) :
    x ∈ hashed hash (inputs.map hash) := by
  rw [← map_value_leaf]
  refine (mem_inner_join h).resolve_left ?_
  rintro ⟨t, ht, hx⟩
  obtain ⟨input, -, rfl⟩ := List.mem_map.1 ht
  cases hx

/-! ## Binding -/

/-- Two different strings among some have one hash. -/
def Collides (hash : Bytes → Bytes) (strings : List Bytes) : Prop :=
  ∃ x ∈ strings, ∃ y ∈ strings, x ≠ y ∧ hash x = hash y

/-- Every string that is hashed for the root over the hashes of some inputs. -/
def strings (hash : Bytes → Bytes) (inputs : List Bytes) : List Bytes :=
  inputs ++ hashed hash (inputs.map hash)

theorem mem_strings_of_leaf {inputs : List Bytes} {x : Bytes} (h : x ∈ (build inputs).leaves) :
    x ∈ strings hash inputs := by
  rcases mem_leaves_build.1 h with hx | ⟨rfl, rfl⟩
  · exact List.mem_append_left _ hx
  · rw [strings, List.map_nil, hashed]
    exact List.mem_cons_self

theorem mem_strings_of_inner {inputs : List Bytes} {x : Bytes}
    (h : x ∈ (build inputs).inner hash) : x ∈ strings hash inputs :=
  List.mem_append_right _ (mem_inner_build h)

/-- No inputs at all are one empty leaf; a leaf that is not empty is an input. -/
theorem mem_leaves_build_of_full {inputs : List Bytes} {x : Bytes} (full : x ≠ []) :
    x ∈ (build inputs).leaves ↔ x ∈ inputs := by
  rw [mem_leaves_build, or_iff_left fun h => full h.2]

section Binding

variable {n : Nat} {inputs inputs' : List Bytes}

/-- The trees of equal roots are equal, unless two strings that were hashed for the roots have
one hash, or one of the inputs is the string of a node. -/
theorem build_binds (length : ∀ x, (hash x).length = n + 1)
    (h : root hash (inputs.map hash) = root hash (inputs'.map hash))
    (collisionFree : ¬ Collides hash (strings hash inputs ++ strings hash inputs'))
    (unconfused : ¬ ∃ x ∈ inputs ++ inputs', x.length = n + 1 + (n + 1) ∧
      x ∈ hashed hash (inputs.map hash) ++ hashed hash (inputs'.map hash)) :
    build inputs = build inputs' := by
  have strings_of : ∀ x, (x ∈ (build inputs).leaves ∨ x ∈ (build inputs').leaves) ∨
      x ∈ (build inputs).inner hash ∨ x ∈ (build inputs').inner hash →
        x ∈ strings hash inputs ++ strings hash inputs' := by
    rintro x ((hx | hx) | hx | hx)
    · exact List.mem_append_left _ (mem_strings_of_leaf hx)
    · exact List.mem_append_right _ (mem_strings_of_leaf hx)
    · exact List.mem_append_left _ (mem_strings_of_inner hx)
    · exact List.mem_append_right _ (mem_strings_of_inner hx)
  have apart : ∀ x, x ∈ (build inputs).leaves ∨ x ∈ (build inputs').leaves →
      ¬ (x ∈ (build inputs).inner hash ∨ x ∈ (build inputs').inner hash) := by
    intro x hleaf hinner
    have hlength : x.length = n + 1 + (n + 1) :=
      hinner.elim (Tree.length_inner length) (Tree.length_inner length)
    have full : x ≠ [] := List.ne_nil_of_length_pos (by omega)
    refine unconfused ⟨x, List.mem_append.2 ?_, hlength, List.mem_append.2 ?_⟩
    · exact hleaf.imp (mem_leaves_build_of_full full).1 (mem_leaves_build_of_full full).1
    · exact hinner.imp mem_inner_build mem_inner_build
  refine Tree.eq_of_value length (fun x y hx hy hxy => ?_) apart (fun _ => .inl) (fun _ => .inr)
    (fun _ => .inl) (fun _ => .inr) (by rw [value_build, value_build, h])
  exact Classical.byContradiction fun hne =>
    collisionFree ⟨x, strings_of x hx, y, strings_of y hy, hne, hxy⟩

/-- Roots that are equal are over the same strings, unless two strings that were hashed for
them have one hash, or one of the inputs is the string of a node. -/
theorem root_binds (length : ∀ x, (hash x).length = n + 1)
    (full : ∀ x ∈ inputs ++ inputs', x ≠ [])
    (h : root hash (inputs.map hash) = root hash (inputs'.map hash)) :
    (∀ x, x ∈ inputs ↔ x ∈ inputs') ∨ Collides hash (strings hash inputs ++ strings hash inputs') ∨
      ∃ x ∈ inputs ++ inputs', x.length = n + 1 + (n + 1) ∧
        x ∈ hashed hash (inputs.map hash) ++ hashed hash (inputs'.map hash) := by
  refine Classical.or_iff_not_imp_right.2 fun sound x => ?_
  obtain ⟨collisionFree, unconfused⟩ := not_or.1 sound
  have same := build_binds length h collisionFree unconfused
  by_cases hx : x ∈ inputs ++ inputs'
  · rw [← mem_leaves_build_of_full (full x hx), same, mem_leaves_build_of_full (full x hx)]
  · rw [List.mem_append, not_or] at hx
    exact iff_of_false hx.1 hx.2

end Binding

end Merkle
end ContractVM
