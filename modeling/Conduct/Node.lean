import Conduct.Behavior
import Conduct.Kind
import Conduct.Record

/-! Nodes, and the trees they make up.

A node is what its record says of it, together with its behavior and the account of its ticks.
Resetting a node forgets its unfinished run and keeps the account. How long the ticks took that were
profiled is not in the account: it depends on how fast they run and not on the clock of the host, and
nothing that a tick does depends on it.
-/

set_option autoImplicit false

namespace Conduct

structure Node (H : Host) where
  id : String
  kind : Kind
  name : String
  layout : Layout
  properties : Properties
  behavior : Behavior H
  /-- What the node reported last. -/
  status : Status
  /-- How many of its ticks were completed. -/
  tickCount : Nat
  /-- The time at the end of the last of them. -/
  lastTick : Option UInt64

abbrev Tree (H : Host) : Type := Rose (Node H)

variable {H : Host}

namespace Node

def fresh (id : String) (kind : Kind) (name : String) (layout : Layout) (properties : Properties)
    (behavior : Behavior H) : Node H where
  id := id
  kind := kind
  name := name
  layout := layout
  properties := properties
  behavior := behavior
  status := .ready
  tickCount := 0
  lastTick := none

/-- Forgets the unfinished run of a node. -/
def reset (n : Node H) : Node H := { n with behavior := n.behavior.reset, status := .ready }

def clearStats (n : Node H) : Node H := { n with tickCount := 0, lastTick := none }

def entry (n : Node H) : Entry := ⟨n.id, n.kind.tag, n.name, n.layout, n.properties⟩

/-- Enters a completed tick into the account of a node. -/
def account (n : Node H) (behavior : Behavior H) (status : Status) (now : UInt64) : Node H :=
  { n with
    behavior := behavior
    status := status
    tickCount := n.tickCount + 1
    lastTick := some now }

/-- What is logged of a completed tick. -/
def traceText (n : Node H) (status : Status) : String :=
  n.kind.tag ++ " " ++ Text.quoted n.name ++ " -> " ++ status.name

end Node

namespace Tree

def id (t : Tree H) : String := t.value.id

def ids (t : Tree H) : List String := t.preorder.map Node.id

def named (id : String) (n : Node H) : Bool := n.id == id

def find? (t : Tree H) (id : String) : Option (Tree H) := Rose.find? (named id) t

def positionOf? (t : Tree H) (id : String) : Option Position := Rose.positionOf? (named id) t

def record (t : Tree H) : Record := Rose.map Node.entry t

/-- Forgets all unfinished runs; the accounts of ticks stay. -/
def reset (t : Tree H) : Tree H := Rose.map Node.reset t

/-- What the code of the host notices of a reset. -/
def notice (t : Tree H) (s : H.State) : H.State :=
  t.preorder.foldl (fun s n => n.behavior.notice s) s

/-- Forgets the accounts of all ticks. -/
def clearStats (t : Tree H) : Tree H := Rose.map Node.clearStats t

end Tree

end Conduct
