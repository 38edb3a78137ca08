import Conduct.Tree.Edit

/-! Building trees from records.

The nodes are built from the top down, and each child is built whole before it is attached. The
first thing that goes wrong is reported with its position. Nodes without an id get a fresh one;
fresh ids are numbered in the order in which their nodes are built.
-/

set_option autoImplicit false

namespace Conduct

/-- What fresh ids start with, drawn at random: other ids are not expected to start with it. -/
def freshStart : String := "f0c8b1d4-7e3a-4d52-9b6f-"

def freshId (n : Nat) : String := freshStart ++ toString n

/-- Why no tree can be built from a record. -/
inductive LoadError
  | missingRoot (found : String)
  /-- The behavior of a node cannot be built; the position is not known where only one node is
  built. -/
  | build (position : Option Position) (e : BuildError)
  | duplicateId (id : String) (position : Position)
  | refused (position : Position) (kind : Kind) (name : String) (e : EditError)

namespace LoadError

def place (p : Option Position) : String := (p.map Position.text).getD ""

def buildMessage (place : String) : BuildError → String
  | .missingRoot found => "The top node must be a Root, found " ++ found
  | .unknownKind tag => "Unknown node type " ++ Text.quoted tag ++ " at " ++ place
  | .reserved tag =>
    "Node type " ++ tag ++ " is reserved and has no implementation (at " ++ place ++ ")"
  | .badProperties tag m => "Invalid properties for " ++ tag ++ " at " ++ place ++ ": " ++ m.message
  | .unknownScript name =>
    "Script " ++ Text.quoted name ++ " is not registered (at " ++ place ++ ")"
  | .badPath e => "Invalid property path at " ++ place ++ ": " ++ e.message

def message : LoadError → String
  | .missingRoot found => buildMessage "" (.missingRoot found)
  | .build p e => buildMessage (place p) e
  | .duplicateId id p => "Duplicate node id " ++ Text.quoted id ++ " at " ++ p.text
  | .refused p kind name e =>
    e.message ++ " to " ++ p.text ++ " (" ++ kind.tag ++ " " ++ Text.quoted name ++ ")"

end LoadError

/-- The ids that were given to nodes so far, and the number of the next fresh one. -/
structure IdPool where
  used : List String
  next : Nat

variable {H : Host}

/-- How trees are built: from what, and whether every node gets a fresh id. -/
structure Loading (H : Host) where
  catalog : Catalog H
  regenerate : Bool

namespace Loading

def idOf (l : Loading H) (e : Entry) (next : Nat) : String × Nat :=
  if l.regenerate || e.id.isEmpty then (freshId next, next + 1) else (e.id, next)

def node (l : Loading H) (p : Position) (e : Entry) (pool : IdPool) :
    Except LoadError (Node H × IdPool) := do
  match Kind.ofTag? e.tag with
  | none => .error (.build (some p) (.unknownKind e.tag))
  | some kind => do
    let behavior ← (l.catalog.build kind e.properties).mapError (.build (some p))
    let (id, next) := l.idOf e pool.next
    if pool.used.contains id then .error (.duplicateId id p)
    else .ok (.fresh id kind e.name e.layout e.properties behavior, ⟨id :: pool.used, next⟩)

def attach (p : Position) (parent child : Tree H) : Except LoadError (Tree H) :=
  (Tree.addChild parent child).mapError (.refused p parent.value.kind parent.value.name)

mutual

def tree (l : Loading H) (p : Position) (pool : IdPool) :
    Record → Except LoadError (Tree H × IdPool)
  | .node e children => do
    let (n, pool) ← l.node p e pool
    l.childTrees p 0 (.node n []) pool children

/-- Builds and attaches children, the first of which has the given index. -/
def childTrees (l : Loading H) (p : Position) (index : Nat) (parent : Tree H) (pool : IdPool) :
    List Record → Except LoadError (Tree H × IdPool)
  | [] => .ok (parent, pool)
  | r :: rs => do
    let (child, pool) ← l.tree (p.child index) pool r
    let parent ← attach p parent child
    l.childTrees p (index + 1) parent pool rs

end

/-- The tree of a record and the number of the next fresh id. -/
def run (l : Loading H) (next : Nat) (r : Record) : Except LoadError (Tree H × Nat) :=
  (l.tree [] ⟨[], next⟩ r).map fun (t, pool) => (t, pool.next)

end Loading

namespace Tree

/-- Builds a tree that keeps the ids of its record. -/
def load (catalog : Catalog H) (next : Nat) (r : Record) : Except LoadError (Tree H × Nat) :=
  Loading.run ⟨catalog, false⟩ next r

/-- Builds a copy of a tree in which every id is fresh and nothing has been ticked. -/
def clone (catalog : Catalog H) (next : Nat) (t : Tree H) : Except LoadError (Tree H × Nat) :=
  Loading.run ⟨catalog, true⟩ next t.record

def create (catalog : Catalog H) (next : Nat) (kind : Kind) (name : String)
    (properties : Properties) : Except LoadError (Tree H) := do
  let behavior ← (catalog.build kind properties).mapError (.build none)
  .ok (.node (.fresh (freshId next) kind name {} properties behavior) [])

end Tree

end Conduct
