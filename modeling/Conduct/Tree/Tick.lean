import Conduct.Node

/-! Ticking a tree.

A tick of a node is a tick of its behavior on its children, entered into the account of the node
unless a panic unwinds it. A tick goes down at most as many levels as the tree has, so the height of
the tree bounds the recursion.
-/

set_option autoImplicit false

namespace Conduct

variable {H : Host}

/-- The status a tick is reported with; no completed tick leaves a node ready. -/
def Status.settled : Status → Status
  | .ready => .error
  | status => status

/-- What follows a completed tick: it is logged if the debug flag is up, the flags are as before,
and the visit is recorded. -/
def Stage.close (stage : Stage H) (before : Flags) (n : Node H) (status : Status) : Stage H :=
  let logged :=
    if stage.flags.debug then stage.write "debug" (n.traceText status) n.id else stage
  { logged with
    flags := before
    visits := ⟨n.id, n.behavior.limit.isClosed, before, status⟩ :: stage.visits }

def Node.tick (h : Handling H (Tree H)) (n : Node H) (children : List (Tree H)) (stage : Stage H) :
    Turn H Status (Tree H) :=
  let turn := n.behavior.tick h children stage
  let (behavior, children) := turn.state
  match turn.outcome with
  | .error p => ⟨.error p, .node { n with behavior := behavior } children, turn.stage⟩
  | .ok reported =>
    let status := reported.settled
    ⟨.ok status, .node (n.account behavior status turn.stage.now) children,
      turn.stage.close stage.flags n status⟩

namespace Tree

/-- How control nodes handle subtrees, given a way to tick them. -/
def handling (tick : Tree H → Stage H → Turn H Status (Tree H)) : Handling H (Tree H) where
  id := id
  tick := tick
  reset := reset
  notice := notice

/-- Ticks a tree of at most the given number of levels. -/
def tickWithin : Nat → Tree H → Stage H → Turn H Status (Tree H)
  | 0, t, stage => ⟨.ok .error, t, stage⟩
  | levels + 1, .node n children, stage => n.tick (handling (tickWithin levels)) children stage

def tick (t : Tree H) (stage : Stage H) : Turn H Status (Tree H) := tickWithin t.height t stage

end Tree

end Conduct
