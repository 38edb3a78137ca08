import Conduct.Json.Decode

/-! The outcome of a tick.

Main statements: `invert_invert` and `isTerminal_invert`.
-/

set_option autoImplicit false

namespace Conduct

/-- What a node reports when it is ticked. -/
inductive Status
  /-- Not ticked since it was made or last reset. -/
  | ready
  /-- To be ticked again before it has an outcome. -/
  | running
  | success
  | failure
  /-- An unexpected fault, which no control node recovers from by itself. -/
  | error
  deriving DecidableEq

namespace Status

def all : List Status := [.ready, .running, .success, .failure, .error]

/-- Whether a run ends with this status. -/
def isTerminal : Status → Bool
  | .ready => false
  | .running => false
  | .success => true
  | .failure => true
  | .error => true

def isRunning : Status → Bool
  | .running => true
  | _ => false

def invert : Status → Status
  | .success => .failure
  | .failure => .success
  | other => other

def name : Status → String
  | .ready => "ready"
  | .running => "running"
  | .success => "success"
  | .failure => "failure"
  | .error => "error"

def byName : List (String × Status) := all.map fun s => (s.name, s)

def decode : Json.Decoder Status := Json.Decode.variant byName

theorem invert_invert (s : Status) : s.invert.invert = s := by cases s <;> rfl

theorem isTerminal_invert (s : Status) : s.invert.isTerminal = s.isTerminal := by cases s <;> rfl

end Status

end Conduct
