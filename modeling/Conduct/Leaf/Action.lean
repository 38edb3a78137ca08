import Conduct.Clock
import Conduct.Host

/-! Actions: leaves that do something, with retries.

An attempt that fails while retries are left is reported as running, and the next attempt waits for
the delay to pass. Errors are never retried.
-/

set_option autoImplicit false

namespace Conduct.Action

inductive Deed
  | custom
  | moveTo
  | attack
  | interact
  | wait
  deriving DecidableEq

def Deed.byName : List (String × Deed) :=
  [("custom", .custom), ("move_to", .moveTo), ("attack", .attack), ("interact", .interact),
    ("wait", .wait)]

def Deed.title : Deed → String
  | .custom => "Custom"
  | .moveTo => "MoveTo"
  | .attack => "Attack"
  | .interact => "Interact"
  | .wait => "Wait"

/-- The settings of an action; times are in milliseconds. -/
structure Settings where
  deed : Deed := .custom
  script : Option String := none
  targetId : Option String := none
  target : Option Vec2 := none
  speed : Float := 1
  /-- How near to the target an agent has arrived. -/
  arrivalDistance : Float := 0.5
  damage : Float := 10
  /-- How far an attack or an interaction reaches. -/
  range : Float := 1.5
  objectId : Option String := none
  duration : UInt64 := 1000
  retryCount : UInt32 := 0
  /-- The time from a failed attempt to the next one. -/
  retryDelay : UInt64 := 0

def Settings.known : List (Json.Setting Settings) :=
  [.of "actionType" (Json.Decode.variant Deed.byName) fun s d => { s with deed := d },
    .of "arrivalDistance" Json.Decode.float fun s f => { s with arrivalDistance := f },
    .of "damage" Json.Decode.float fun s f => { s with damage := f },
    .of "duration" Json.Decode.uint64 fun s n => { s with duration := n },
    .of "objectId" (Json.Decode.optional Json.Decode.string) fun s t => { s with objectId := t },
    .of "range" Json.Decode.float fun s f => { s with range := f },
    .of "retryCount" Json.Decode.uint32 fun s n => { s with retryCount := n },
    .of "retryDelay" Json.Decode.uint64 fun s n => { s with retryDelay := n },
    .of "script" (Json.Decode.optional Json.Decode.string) fun s t => { s with script := t },
    .of "speed" Json.Decode.float fun s f => { s with speed := f },
    .of "target" (Json.Decode.optional Vec2.decode) fun s p => { s with target := p },
    .of "targetId" (Json.Decode.optional Json.Decode.string) fun s t => { s with targetId := t }]

/-- What an action remembers between ticks. -/
structure Run where
  attempts : UInt32 := 0
  /-- The time before which no attempt is made. -/
  nextAttempt : Option UInt64 := none
  waitStarted : Option UInt64 := none
  deriving DecidableEq

variable {H : Host}

/-! ## Deeds -/

/-- Moves the agent of a scene a step toward a place. -/
def approach (s : Settings) (scene : Scene H) (target : Vec2) : Outcome Status × Scene H :=
  match scene.agent with
  | none => (.fault (.missing "agent"), scene)
  | some agent =>
    let place := H.position agent
    if place.distance target ≤ s.arrivalDistance then (.value .success, scene)
    else
      let next := place.stepToward target s.speed
      let arrived := next.distance target ≤ s.arrivalDistance
      (.value (if arrived then .success else .running),
        { scene with agent := some (H.moveTo agent next) })

def moveTo (s : Settings) (scene : Scene H) : Outcome Status × Scene H :=
  match s.targetId, s.target with
  | some id, _ =>
    match scene.world with
    | none => (.fault (.missing "world"), scene)
    | some world =>
      match H.locate? world id with
      | some place => approach s scene place
      | none => (.value .failure, scene)
  | none, some place => approach s scene place
  | none, none => (.fault (.message "move_to needs targetId or target"), scene)

def attack (s : Settings) (scene : Scene H) : Outcome Status × Scene H :=
  match s.targetId, scene.agent, scene.world with
  | none, _, _ => (.fault (.message "attack needs targetId"), scene)
  | some _, none, _ => (.fault (.missing "agent"), scene)
  | some _, some _, none => (.fault (.missing "world"), scene)
  | some id, some agent, some world =>
    match H.entity? world id with
    | none => (.value .failure, scene)
    | some place =>
      if s.range < place.distance (H.position agent) then (.value .failure, scene)
      else (.value .success, { scene with world := some (H.damage world id s.damage) })

def interact (s : Settings) (scene : Scene H) : Outcome Status × Scene H :=
  match s.objectId, scene.agent, scene.world with
  | none, _, _ => (.fault (.message "interact needs objectId"), scene)
  | some _, none, _ => (.fault (.missing "agent"), scene)
  | some _, some _, none => (.fault (.missing "world"), scene)
  | some id, some agent, some world =>
    match H.object? world id with
    | none => (.value .failure, scene)
    | some place =>
      if s.range < place.distance (H.position agent) then (.value .failure, scene)
      else
        let (took, world) := H.interact world id
        (.value (if took then .success else .failure), { scene with world := some world })

def wait (s : Settings) (run : Run) (now : UInt64) : Status × Run :=
  let started := run.waitStarted.getD now
  if s.duration ≤ Clock.elapsed started now then (.success, { run with waitStarted := none })
  else (.running, { run with waitStarted := some started })

def perform (s : Settings) (script : Option (Script H Status)) (run : Run) (stage : Stage H) :
    Outcome Status × Run × Stage H :=
  let inScene := fun (r : Outcome Status × Scene H) => (r.1, run, { stage with scene := r.2 })
  match s.deed with
  | .custom =>
    match script with
    | some script =>
      let (outcome, stage) := stage.run script
      (outcome, run, stage)
    | none => (.fault (.message "no script configured"), run, stage)
  | .moveTo => inScene (moveTo s stage.scene)
  | .attack => inScene (attack s stage.scene)
  | .interact => inScene (interact s stage.scene)
  | .wait =>
    let (status, run) := wait s run stage.now
    (.value status, run, stage)

/-! ## Ticking -/

/-- What an attempt that came to this is reported as, and what the action remembers of it. -/
def report (s : Settings) (run : Run) (now : UInt64) (status : Status) : Status × Run :=
  let ended := { run with attempts := 0, nextAttempt := none }
  match status with
  | .running => (.running, run)
  | .failure =>
    if run.attempts < s.retryCount then
      (.running, { run with
        attempts := run.attempts + 1
        nextAttempt := some (Clock.later now s.retryDelay) })
    else (.failure, ended)
  | .success => (.success, ended)
  | .error => (.error, ended)
  | .ready => (.error, ended)

def attempt (s : Settings) (script : Option (Script H Status)) (run : Run) (stage : Stage H) :
    Turn H Status Run :=
  let now := stage.now
  let (outcome, run, stage) := perform s script { run with nextAttempt := none } stage
  match outcome with
  | .panic p => ⟨.error p, run, stage⟩
  | .fault _ =>
    let (status, run) := report s run now .error
    ⟨.ok status, run, stage⟩
  | .value status =>
    let (status, run) := report s run now status
    ⟨.ok status, run, stage⟩

def Run.delayed (run : Run) (now : UInt64) : Bool :=
  match run.nextAttempt with
  | some time => now < time
  | none => false

def tick (s : Settings) (script : Option (Script H Status)) (run : Run) (stage : Stage H) :
    Turn H Status Run :=
  if run.delayed stage.now then ⟨.ok .running, run, stage⟩ else attempt s script run stage

def findings (s : Settings) : List String :=
  let missing := fun (what : String) => [s.deed.title ++ " action needs " ++ what]
  match s.deed with
  | .custom => if s.script.isNone then missing "script" else []
  | .moveTo => if s.targetId.isNone && s.target.isNone then missing "targetId or target" else []
  | .attack => if s.targetId.isNone then missing "targetId" else []
  | .interact => if s.objectId.isNone then missing "objectId" else []
  | .wait => []

end Conduct.Action
