import Conduct.Host
import Conduct.PropertyPath

/-! Conditions: leaves that ask something and are never running.

Data that is not there makes a condition fail; a question that cannot be asked makes it an error.
-/

set_option autoImplicit false

namespace Conduct.Condition

/-- What a condition asks about. -/
inductive Subject
  | custom
  | distance
  | health
  | variable
  | property
  deriving DecidableEq

def Subject.byName : List (String × Subject) :=
  [("custom", .custom), ("distance", .distance), ("health", .health), ("variable", .variable),
    ("property", .property)]

def Subject.title : Subject → String
  | .custom => "Custom"
  | .distance => "Distance"
  | .health => "Health"
  | .variable => "Variable"
  | .property => "Property"

structure Settings where
  subject : Subject := .custom
  comparison : Comparison := .equals
  value : Json := .null
  tolerance : Float := Comparison.defaultTolerance
  script : Option String := none
  targetId : Option String := none
  target : Option Vec2 := none
  /-- Whether health is taken as a percentage of the greatest health. -/
  percentage : Bool := false
  variableName : Option String := none
  path : Option String := none

def Settings.known : List (Json.Setting Settings) :=
  [.of "conditionType" (Json.Decode.variant Subject.byName) fun s x => { s with subject := x },
    .of "operator" Comparison.decode fun s c => { s with comparison := c },
    .of "path" (Json.Decode.optional Json.Decode.string) fun s t => { s with path := t },
    .of "percentage" Json.Decode.bool fun s b => { s with percentage := b },
    .of "script" (Json.Decode.optional Json.Decode.string) fun s t => { s with script := t },
    .of "target" (Json.Decode.optional Vec2.decode) fun s p => { s with target := p },
    .of "targetId" (Json.Decode.optional Json.Decode.string) fun s t => { s with targetId := t },
    .of "tolerance" Json.Decode.float fun s f => { s with tolerance := f },
    .of "value" .ok fun s j => { s with value := j },
    .of "variable" (Json.Decode.optional Json.Decode.string) fun s t =>
      { s with variableName := t }]

variable {H : Host}

/-! ## Questions -/

/-- The answer to a question about a value that may be absent. -/
def compare (s : Settings) (value : Option Json) : Except ScriptError (Option Bool) :=
  match value with
  | none => .ok none
  | some value => (s.comparison.holds value s.value s.tolerance).map some

def distance? (s : Settings) (scene : Scene H) : Option Json := do
  let agent ← scene.agent
  let target ← match s.targetId with
    | some id => scene.world.bind fun world => H.locate? world id
    | none => s.target
  some (.ofFloat ((H.position agent).distance target))

def health? (s : Settings) (scene : Scene H) : Option Json := do
  let agent ← scene.agent
  let health := H.health agent
  let most := H.maxHealth agent
  some (.ofFloat (if s.percentage then if 0 < most then health / most * 100 else 0 else health))

/-- What a path can see of the agent. -/
def agentView (agent : H.Agent) : Json :=
  let place := H.position agent
  .ofMembers [("x", .ofFloat place.x), ("y", .ofFloat place.y),
    ("health", .ofFloat (H.health agent)), ("maxHealth", .ofFloat (H.maxHealth agent))]

/-- The value that the first name of a path stands for: an entry of the blackboard, or else the
agent. -/
def base? (scene : Scene H) (name : String) : Option Json :=
  match scene.blackboard.get? name with
  | some value => some value
  | none => if name = "agent" then scene.agent.map agentView else none

/-- The answer to a question that needs no code of the host; none stands for absent data. -/
def ask (s : Settings) (path : PropertyPath) (scene : Scene H) : Except ScriptError (Option Bool) :=
  match s.subject with
  | .custom => .error (.message "no script configured")
  | .distance => compare s (distance? s scene)
  | .health => compare s (health? s scene)
  | .variable =>
    match s.variableName with
    | some name => compare s (scene.blackboard.get? name)
    | none => .error (.message "variable condition needs a variable")
  | .property =>
    match path with
    | .key name :: rest => compare s ((base? scene name).bind (PropertyPath.follow rest))
    | _ => .error (.message "property condition needs a path")

/-! ## Ticking -/

def report : Except ScriptError (Option Bool) → Status
  | .ok (some true) => .success
  | .ok _ => .failure
  | .error _ => .error

def tick (s : Settings) (script : Option (Script H Bool)) (path : PropertyPath) (stage : Stage H) :
    Except Panic Status × Stage H :=
  match s.subject, script with
  | .custom, some script =>
    let (outcome, stage) := stage.run script
    match outcome with
    | .panic p => (.error p, stage)
    | .fault e => (.ok (report (.error e)), stage)
    | .value b => (.ok (report (.ok (some b))), stage)
  | _, _ => (.ok (report (ask s path stage.scene)), stage)

def findings (s : Settings) (path : PropertyPath) : List String :=
  let missing := fun (what : String) => [s.subject.title ++ " condition needs " ++ what]
  match s.subject with
  | .custom => if s.script.isNone then missing "script" else []
  | .distance => if s.targetId.isNone && s.target.isNone then missing "targetId or target" else []
  | .health => []
  | .variable => if s.variableName.isNone then missing "variable" else []
  | .property => if path.isEmpty then missing "path" else []

end Conduct.Condition
