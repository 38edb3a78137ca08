/-! Positions in a tree: the indices of children on the way down from the top.

`Position.text` shows a position, such as `root.child[2].child[0]`.
-/

set_option autoImplicit false

namespace Conduct

/-- The indices of children on the way down from the top. -/
abbrev Position : Type := List Nat

namespace Position

/-- The text of one step down. -/
def stepText (index : Nat) : String := ".child[" ++ toString index ++ "]"

def text (p : Position) : String := "root" ++ String.join (p.map stepText)

def child (p : Position) (index : Nat) : Position := p ++ [index]

end Position

end Conduct
