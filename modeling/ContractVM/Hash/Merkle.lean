/-
Merkle roots over any hash. One level pairs its nodes from the left; a node
without a partner is paired with itself. A single leaf is its own root and no
leaf at all has the hash of the empty input.
-/
import ContractVM.Text.Hex

namespace ContractVM
namespace Merkle

/-- The nodes one level up. -/
def pairUp (hash : Bytes → Bytes) : List Bytes → List Bytes
  | [] => []
  | [last] => [hash (last ++ last)]
  | left :: right :: rest => hash (left ++ right) :: pairUp hash rest

theorem length_pairUp (hash : Bytes → Bytes) (nodes : List Bytes) :
    (pairUp hash nodes).length = (nodes.length + 1) / 2 := by
  induction nodes using pairUp.induct with
  | case1 => rfl
  | case2 => simp [pairUp]
  | case3 left right rest ih => simp only [pairUp, List.length_cons, ih]; omega

def root (hash : Bytes → Bytes) : List Bytes → Bytes
  | [] => hash []
  | [leaf] => leaf
  | a :: b :: rest => root hash (pairUp hash (a :: b :: rest))
termination_by nodes => nodes.length
decreasing_by
  rw [length_pairUp]
  simp only [List.length_cons]
  omega

end Merkle
end ContractVM
