import Conduct.Node

/-! What nodes are built from: the settings of every kind, the scripts that the host names, and the
behaviors that it puts in the place of the usual ones.
-/

set_option autoImplicit false

namespace Conduct

inductive BuildError
  | missingRoot (found : String)
  | unknownKind (tag : String)
  /-- The kind is known but no behavior belongs to it. -/
  | reserved (tag : String)
  | badProperties (tag : String) (m : Json.Mismatch)
  | unknownScript (name : String)
  | badPath (e : PathError)

/-- Behaviors that a host puts in the place of the usual ones of a kind. -/
abbrev Builder (H : Host) : Type := Properties → Except BuildError (Behavior H)

/-- The scripts and behaviors of a host, and the generator that is drawn for a selector without a
seed, which may be any. -/
structure Catalog (H : Host) where
  actions : Dict (Script H Status) := .nil
  conditions : Dict (Script H Bool) := .nil
  builders : List (Kind × Builder H) := []
  entropy : Random.Generator := .ofSeed 0

variable {H : Host}

namespace Catalog

def settings {σ : Type} (kind : Kind) (known : List (Json.Setting σ)) (start : σ)
    (properties : Properties) : Except BuildError σ :=
  (Json.Setting.decode known start properties).mapError (.badProperties kind.tag)

def script {α : Type} (scripts : Dict (Script H α)) (name : String) :
    Except BuildError (Script H α) :=
  match scripts.get? name with
  | some script => .ok script
  | none => .error (.unknownScript name)

/-- The script that settings name, if they ask for one. -/
def namedScript {α : Type} (scripts : Dict (Script H α)) (asked : Bool) (name : Option String) :
    Except BuildError (Option (Script H α)) :=
  match asked, name with
  | true, some name => (script scripts name).map some
  | _, _ => .ok none

/-- The path that the settings of a condition hold, if they ask for one. -/
def path (s : Condition.Settings) : Except BuildError PropertyPath :=
  match s.subject, s.path with
  | .property, some text => (PropertyPath.parse text).mapError .badPath
  | _, _ => .ok []

def buildUsual (c : Catalog H) (kind : Kind) (properties : Properties) :
    Except BuildError (Behavior H) :=
  match kind with
  | .root => (settings kind Root.Settings.known {} properties).map fun s => .root s none
  | .sequence => (settings kind Sequence.Settings.known {} properties).map fun s => .sequence s {}
  | .selector =>
    let start : Selector.Settings := { entropy := c.entropy }
    (settings kind Selector.Settings.known start properties).map fun s => .selector s {} s.generator
  | .parallel => (settings kind Parallel.Settings.known {} properties).map fun s => .parallel s .nil
  | .inverter => (settings kind Inverter.Settings.known {} properties).map .inverter
  | .repeater => (settings kind Repeater.Settings.known {} properties).map fun s => .repeater s {}
  | .action => do
    let s ← settings kind Action.Settings.known {} properties
    let script ← namedScript c.actions (s.deed = .custom) s.script
    .ok (.action s script {})
  | .condition => do
    let s ← settings kind Condition.Settings.known {} properties
    let script ← namedScript c.conditions (s.subject = .custom) s.script
    let path ← path s
    .ok (.condition s script path)
  | .retry => .error (.reserved kind.tag)
  | .timeout => .error (.reserved kind.tag)
  | .cooldown => .error (.reserved kind.tag)

def build (c : Catalog H) (kind : Kind) (properties : Properties) : Except BuildError (Behavior H) :=
  match c.builders.lookup kind with
  | some builder => builder properties
  | none => c.buildUsual kind properties

end Catalog

end Conduct
