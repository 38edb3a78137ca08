import Conduct.Node

/-! Figures of a tree. -/

set_option autoImplicit false

namespace Conduct

/-- How many nodes a tree has, and how they are spread. -/
structure Stats where
  totalNodes : Nat := 0
  nodesByTag : Dict Nat := .nil
  /-- The number of levels; a lone node has one. -/
  maxDepth : Nat := 0
  leafCount : Nat := 0

variable {H : Host}

/-- Counts a node on a level. -/
def Stats.count (s : Stats) (n : Node H) (level : Nat) : Stats where
  totalNodes := s.totalNodes + 1
  nodesByTag := s.nodesByTag.insert n.kind.tag ((s.nodesByTag.get? n.kind.tag).getD 0 + 1)
  maxDepth := max s.maxDepth level
  leafCount := if n.kind.isLeaf then s.leafCount + 1 else s.leafCount

namespace Tree

mutual

def countInto (s : Stats) (level : Nat) : Tree H → Stats
  | .node n children => countAllInto (s.count n level) (level + 1) children

def countAllInto (s : Stats) (level : Nat) : List (Tree H) → Stats
  | [] => s
  | c :: cs => countAllInto (countInto s level c) level cs

end

def stats (t : Tree H) : Stats := countInto {} 1 t

end Tree

end Conduct
