/-! The kinds of nodes a tree is made of.

Three kinds are reserved: their tags are known, but no behavior belongs to them.
Main statement: `ofTag?_eq_some_iff`, a kind is known by its tag alone.
-/

set_option autoImplicit false

namespace Conduct

inductive Kind
  | root
  | selector
  | sequence
  | parallel
  | inverter
  | repeater
  | action
  | condition
  | retry
  | timeout
  | cooldown
  deriving DecidableEq

/-- What a kind of node does with its children. -/
inductive Category
  | root
  | composite
  | decorator
  | leaf
  deriving DecidableEq

def Category.name : Category → String
  | .root => "Root"
  | .composite => "Composite"
  | .decorator => "Decorator"
  | .leaf => "Leaf"

namespace Kind

def all : List Kind :=
  [.root, .selector, .sequence, .parallel, .inverter, .repeater, .action, .condition, .retry,
    .timeout, .cooldown]

/-- The tag of a kind in records. -/
def tag : Kind → String
  | .root => "Root"
  | .selector => "Selector"
  | .sequence => "Sequence"
  | .parallel => "Parallel"
  | .inverter => "Inverter"
  | .repeater => "Repeater"
  | .action => "Action"
  | .condition => "Condition"
  | .retry => "Retry"
  | .timeout => "Timeout"
  | .cooldown => "Cooldown"

def ofTag? (tag : String) : Option Kind := all.find? fun k => k.tag == tag

def category : Kind → Category
  | .root => .root
  | .selector => .composite
  | .sequence => .composite
  | .parallel => .composite
  | .inverter => .decorator
  | .repeater => .decorator
  | .retry => .decorator
  | .timeout => .decorator
  | .cooldown => .decorator
  | .action => .leaf
  | .condition => .leaf

/-- Whether nodes of the kind have no children. -/
def isLeaf (k : Kind) : Bool := k.category = .leaf

/-- Whether nodes of the kind change the outcome of one child. -/
def isDecorator (k : Kind) : Bool := k.category = .decorator

/-- Whether no behavior belongs to the kind. -/
def isReserved : Kind → Bool
  | .retry => true
  | .timeout => true
  | .cooldown => true
  | _ => false

theorem mem_all (k : Kind) : k ∈ all := by cases k <;> decide

theorem tag_injective {k l : Kind} (h : k.tag = l.tag) : k = l := by
  revert h
  cases k <;> cases l <;> decide

theorem ofTag?_tag (k : Kind) : ofTag? k.tag = some k := by cases k <;> decide

theorem ofTag?_eq_some_iff {tag : String} {k : Kind} : ofTag? tag = some k ↔ k.tag = tag := by
  constructor
  · intro h
    simpa using List.find?_some h
  · rintro rfl
    exact ofTag?_tag k

end Kind

end Conduct
