import Conduct.Node

/-! What an observer sees of a tree.

The time that was spent in profiled ticks is left out, as it is in the account of a node.
-/

set_option autoImplicit false

namespace Conduct

/-- What an observer sees of a node. -/
structure Snapshot where
  id : String
  kind : Kind
  name : String
  status : Status
  tickCount : Nat
  lastTick : Option UInt64

namespace Snapshot

/-- A time as a value, where null stands for never. -/
def timeJson (time : Option UInt64) : Json := (time.map fun t => Json.ofNat t.toNat).getD .null

mutual

def toJson : Rose Snapshot → Json
  | .node s children => .ofMembers [
      ("id", .str s.id),
      ("type", .str s.kind.tag),
      ("name", .str s.name),
      ("status", .str s.status.name),
      ("tickCount", .ofNat s.tickCount),
      ("lastTick", timeJson s.lastTick),
      ("children", .arr (toJsonAll children))]

def toJsonAll : List (Rose Snapshot) → List Json
  | [] => []
  | c :: cs => toJson c :: toJsonAll cs

end

end Snapshot

variable {H : Host}

def Node.snapshot (n : Node H) : Snapshot :=
  ⟨n.id, n.kind, n.name, n.status, n.tickCount, n.lastTick⟩

def Tree.snapshot (t : Tree H) : Rose Snapshot := Rose.map Node.snapshot t

end Conduct
