import Conduct.Comparison
import Conduct.Status
import Conduct.Vec2

/-! What a tree acts on.

A `Host` says what an agent, a world and the private state of the host's code are and what can be
done with them. A `Scene` is all that a tick may read and change there; every handle in it may be
absent. A `Stage` adds what only the nodes themselves change: the flags that roots raise, and the
visits, the record of all completed ticks.
-/

set_option autoImplicit false

namespace Conduct

/-- The agents, worlds and private states of a host, and what nodes do with them. -/
structure Host where
  Agent : Type
  World : Type
  /-- What the code of the host keeps for itself. -/
  State : Type
  position : Agent → Vec2
  moveTo : Agent → Vec2 → Agent
  health : Agent → Float
  maxHealth : Agent → Float
  entity? : World → String → Option Vec2
  object? : World → String → Option Vec2
  damage : World → String → Float → World
  interact : World → String → Bool × World

/-- The place of an entity or, failing that, of an object. -/
def Host.locate? (H : Host) (world : H.World) (id : String) : Option Vec2 :=
  match H.entity? world id with
  | some place => some place
  | none => H.object? world id

/-- What unwinds the ticks under way: its message, if it has one that can be read. -/
structure Panic where
  message : Option String
  deriving DecidableEq

/-- What the code of a host comes to. -/
inductive Outcome (α : Type)
  | value (a : α)
  | fault (e : ScriptError)
  | panic (p : Panic)

structure LogEntry where
  category : String
  message : String
  node : String
  deriving DecidableEq

/-- Named values that all nodes share. -/
abbrev Blackboard : Type := Dict Json

/-- What a tick may read and change. -/
structure Scene (H : Host) where
  blackboard : Blackboard
  agent : Option H.Agent
  world : Option H.World
  /-- The entries of the log, the newest first, if one is attached. -/
  log : Option (List LogEntry)
  /-- The time in milliseconds. -/
  now : UInt64
  host : H.State

structure Flags where
  debug : Bool
  profiling : Bool
  deriving DecidableEq

def Flags.or (a b : Flags) : Flags := ⟨a.debug || b.debug, a.profiling || b.profiling⟩

/-- A completed tick: the node, the flags that it found and what it reported. -/
structure Visit where
  node : String
  leaf : Bool
  flags : Flags
  status : Status
  deriving DecidableEq

/-- What the nodes of a tree play on. -/
structure Stage (H : Host) where
  scene : Scene H
  flags : Flags
  /-- The completed ticks, the latest first. -/
  visits : List Visit

abbrev Script (H : Host) (α : Type) : Type := Flags → Scene H → Outcome α × Scene H

variable {H : Host}

namespace Scene

def write (s : Scene H) (entry : LogEntry) : Scene H := { s with log := s.log.map (entry :: ·) }

end Scene

namespace Stage

def write (s : Stage H) (category message node : String) : Stage H :=
  { s with scene := s.scene.write ⟨category, message, node⟩ }

def now (s : Stage H) : UInt64 := s.scene.now

def raise (s : Stage H) (flags : Flags) : Stage H := { s with flags := s.flags.or flags }

def tell (s : Stage H) (f : H.State → H.State) : Stage H :=
  { s with scene := { s.scene with host := f s.scene.host } }

def run {α : Type} (s : Stage H) (script : Script H α) : Outcome α × Stage H :=
  let (outcome, scene) := script s.flags s.scene
  (outcome, { s with scene := scene })

end Stage

/-- What a tick comes to: its report or a panic, and what it leaves behind. -/
structure Turn (H : Host) (ρ σ : Type) where
  outcome : Except Panic ρ
  state : σ
  stage : Stage H

/-- How a control node handles its children: by their ids, by ticking them, and by resetting them,
of which the code of the host takes notice. -/
structure Handling (H : Host) (γ : Type) where
  id : γ → String
  tick : γ → Stage H → Turn H Status γ
  reset : γ → γ
  notice : γ → H.State → H.State

namespace Turn

variable {ρ σ τ γ : Type}

def map (t : Turn H ρ σ) (f : σ → τ) : Turn H ρ τ := ⟨t.outcome, f t.state, t.stage⟩

/-- Puts a child back in front of the others. -/
def push (t : Turn H ρ (σ × List γ)) (child : γ) : Turn H ρ (σ × List γ) :=
  t.map fun (s, children) => (s, child :: children)

end Turn

end Conduct
