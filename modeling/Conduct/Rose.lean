import Conduct.Position

/-! Ordered trees with a value at every node.

`preorder` is the one view of a tree that lists its values; `depthFirst` walks it with a stack of
what is still to be visited. `find?` and `positionOf?` look for the first node in preorder,
`detach?` takes a node out from the highest level that has one. Main statements: `size_pos`,
`height_pos`, `height_lt_of_mem` (a child is lower than its parent).
-/

set_option autoImplicit false

namespace Conduct

/-- An ordered tree with a value at every node. -/
inductive Rose (α : Type)
  | node (value : α) (children : List (Rose α))

namespace Rose

variable {α β : Type}

def value : Rose α → α
  | .node v _ => v

def children : Rose α → List (Rose α)
  | .node _ cs => cs

def withValue (t : Rose α) (v : α) : Rose α := .node v t.children

def withChildren (t : Rose α) (cs : List (Rose α)) : Rose α := .node t.value cs

/-! ## Measures -/

mutual

def size : Rose α → Nat
  | .node _ cs => 1 + sizeAll cs

def sizeAll : List (Rose α) → Nat
  | [] => 0
  | c :: cs => c.size + sizeAll cs

end

mutual

def height : Rose α → Nat
  | .node _ cs => 1 + heightAll cs

def heightAll : List (Rose α) → Nat
  | [] => 0
  | c :: cs => max c.height (heightAll cs)

end

theorem size_pos (t : Rose α) : 0 < t.size := by
  cases t
  simp only [size]
  omega

theorem height_pos (t : Rose α) : 0 < t.height := by
  cases t
  simp only [height]
  omega

theorem sizeAll_append (cs ds : List (Rose α)) : sizeAll (cs ++ ds) = sizeAll cs + sizeAll ds := by
  induction cs with
  | nil => simp [sizeAll]
  | cons c cs ih =>
    simp only [List.cons_append, sizeAll, ih]
    omega

theorem height_le_heightAll {c : Rose α} {cs : List (Rose α)} (h : c ∈ cs) :
    c.height ≤ heightAll cs := by
  induction cs with
  | nil => cases h
  | cons d ds ih =>
    simp only [heightAll]
    rcases List.mem_cons.1 h with rfl | h
    · exact Nat.le_max_left _ _
    · exact Nat.le_trans (ih h) (Nat.le_max_right _ _)

theorem height_lt_of_mem {c : Rose α} {v : α} {cs : List (Rose α)} (h : c ∈ cs) :
    c.height < (node v cs).height := by
  have := height_le_heightAll h
  simp only [height]
  omega

/-! ## Views -/

mutual

/-- The values from the top down, each node before its children and these from left to right. -/
def preorder : Rose α → List α
  | .node v cs => v :: preorderAll cs

def preorderAll : List (Rose α) → List α
  | [] => []
  | c :: cs => c.preorder ++ preorderAll cs

end

/-- The nodes that are visited when a stack of trees is worked off from its top. -/
def visit : List (Rose α) → List (Rose α)
  | [] => []
  | .node v cs :: stack => .node v cs :: visit (cs ++ stack)
termination_by stack => sizeAll stack
decreasing_by
  rw [sizeAll_append]
  simp only [sizeAll, size]
  omega

def depthFirst (t : Rose α) : List (Rose α) := visit [t]

mutual

def map (f : α → β) : Rose α → Rose β
  | .node v cs => .node (f v) (mapAll f cs)

def mapAll (f : α → β) : List (Rose α) → List (Rose β)
  | [] => []
  | c :: cs => c.map f :: mapAll f cs

end

/-! ## Looking for a node -/

mutual

/-- The first subtree in preorder whose top fits. -/
def find? (p : α → Bool) : Rose α → Option (Rose α)
  | .node v cs => if p v then some (.node v cs) else findAmong? p cs

def findAmong? (p : α → Bool) : List (Rose α) → Option (Rose α)
  | [] => none
  | c :: cs =>
    match c.find? p with
    | some found => some found
    | none => findAmong? p cs

end

mutual

/-- The position of the first node in preorder that fits. -/
def positionOf? (p : α → Bool) : Rose α → Option Position
  | .node v cs => if p v then some [] else positionAmong? p 0 cs

def positionAmong? (p : α → Bool) (index : Nat) : List (Rose α) → Option Position
  | [] => none
  | c :: cs =>
    match c.positionOf? p with
    | some below => some (index :: below)
    | none => positionAmong? p (index + 1) cs

end

def at? : Position → Rose α → Option (Rose α)
  | [], t => some t
  | index :: below, t => t.children[index]? >>= at? below

/-! ## Changing a node -/

mutual

/-- Puts a tree in the place of the first subtree in preorder whose top fits. -/
def replace (p : α → Bool) (new : Rose α) : Rose α → Rose α
  | .node v cs => if p v then new else .node v (replaceAmong p new cs)

def replaceAmong (p : α → Bool) (new : Rose α) : List (Rose α) → List (Rose α)
  | [] => []
  | c :: cs =>
    match c.find? p with
    | some _ => replace p new c :: cs
    | none => c :: replaceAmong p new cs

end

/-- Takes the first tree whose top fits out of a list. -/
def takeFirst? (p : α → Bool) : List (Rose α) → Option (Rose α × List (Rose α))
  | [] => none
  | c :: cs =>
    if p c.value then some (c, cs)
    else (takeFirst? p cs).map fun (found, rest) => (found, c :: rest)

mutual

/-- Takes a subtree whose top fits out from below the top: a child, or else one from below the first
child that has one. Gives the subtree and what is left. -/
def detach? (p : α → Bool) : Rose α → Option (Rose α × Rose α)
  | .node v cs =>
    match takeFirst? p cs with
    | some (found, rest) => some (found, .node v rest)
    | none => (detachAmong? p cs).map fun (found, rest) => (found, .node v rest)

/-- Takes a subtree whose top fits out from below the trees of a list. -/
def detachAmong? (p : α → Bool) : List (Rose α) → Option (Rose α × List (Rose α))
  | [] => none
  | c :: cs =>
    match c.detach? p with
    | some (found, rest) => some (found, rest :: cs)
    | none => (detachAmong? p cs).map fun (found, rest) => (found, c :: rest)

end

end Rose

end Conduct
