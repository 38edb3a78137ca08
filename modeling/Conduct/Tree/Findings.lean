import Conduct.Finding
import Conduct.Node
import Conduct.Text.Blank

/-! What is wrong with a tree of nodes. -/

set_option autoImplicit false

namespace Conduct

variable {H : Host}

def Node.flaws (n : Node H) (childCount : Nat) : List Flaw :=
  (if Text.isAllBlank n.name then [.unnamed n.id] else []) ++
    (if n.kind.isLeaf ∧ 0 < childCount then [.leafWithChildren n.kind n.name] else []) ++
    (n.behavior.findings childCount).map (.unsuited n.kind n.name)

namespace Tree

mutual

def findingsAt (p : Position) : Tree H → List Finding
  | .node n children =>
    (n.flaws children.length).map (⟨p, ·⟩) ++ findingsBelow p 0 children

/-- The findings of the children of a node, the first of which has the given index. -/
def findingsBelow (p : Position) (index : Nat) : List (Tree H) → List Finding
  | [] => []
  | c :: cs => findingsAt (p.child index) c ++ findingsBelow p (index + 1) cs

end

/-- The findings of a tree, each node before its children. -/
def findings (t : Tree H) : List Finding := findingsAt [] t

end Tree

end Conduct
