/-! How many children a node may have.

Main statements: `lt_unbounded_iff` and `compare?_eq_none_iff`, the unbounded limit exceeds every
finite one and is comparable to none but those.
-/

set_option autoImplicit false

namespace Conduct

/-- The greatest number of children a node is meant to have. -/
inductive ChildLimit
  | finite (n : Nat)
  | unbounded
  deriving DecidableEq

namespace ChildLimit

/-- How two limits compare; two unbounded ones do not. -/
def compare? : ChildLimit → ChildLimit → Option Ordering
  | .finite m, .finite n => some (compare m n)
  | .finite _, .unbounded => some .lt
  | .unbounded, .finite _ => some .gt
  | .unbounded, .unbounded => none

def lt (l m : ChildLimit) : Bool := l.compare? m = some .lt

def le (l m : ChildLimit) : Bool := l.compare? m = some .lt || l.compare? m = some .eq

/-- Whether a node rejects every child. -/
def isClosed (l : ChildLimit) : Bool := l = .finite 0

theorem lt_unbounded_iff (l : ChildLimit) : l.lt .unbounded = true ↔ ∃ n, l = .finite n := by
  cases l <;> simp [lt, compare?]

theorem compare?_eq_none_iff (l m : ChildLimit) :
    l.compare? m = none ↔ l = .unbounded ∧ m = .unbounded := by
  cases l <;> cases m <;> simp [compare?]

end ChildLimit

end Conduct
