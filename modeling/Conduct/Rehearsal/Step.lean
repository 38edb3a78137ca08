import Conduct.Catalog
import Conduct.Rehearsal.World

/-! Scripts of a rehearsal, which play prepared steps.

The first call of a script plays its first step, every further call the next one, and calls beyond
the last step play that one again. A step has effects on the scene and then comes to an outcome,
whatever the scene is.
-/

set_option autoImplicit false

namespace Conduct.Rehearsal

inductive Effect
  /-- Adds one to a whole number on the blackboard; whatever else is there counts as zero. -/
  | increment (key : String)
  | set (key : String) (value : Json)
  | remove (key : String)
  | move (place : Vec2)
  /-- Adds a message to the log, if one is attached. -/
  | log (message : String)
  /-- Lets time pass, given in milliseconds. -/
  | advance (delay : UInt64)

structure Step where
  effects : List Effect := []
  /-- Whether the call is remembered with the flags that it finds. -/
  showsFlags : Bool := false
  outcome : Outcome Json

def wholeNumber (j : Option Json) : Int :=
  match j.map Json.Decode.int64 with
  | some (.ok n) => n
  | _ => 0

/-- Changes the scene by an effect of the script with the given name. -/
def Effect.apply (name : String) (s : Scene host) : Effect → Scene host
  | .increment key =>
    let n := wholeNumber (s.blackboard.get? key) + 1
    { s with blackboard := s.blackboard.insert key (.ofInt n) }
  | .set key value => { s with blackboard := s.blackboard.insert key value }
  | .remove key => { s with blackboard := s.blackboard.erase key }
  | .move place => { s with agent := s.agent.map fun a => host.moveTo a place }
  | .log message => s.write ⟨"script", message, name⟩
  | .advance delay => { s with now := s.now + delay }

/-- The step that is played at a call, given how many calls came before it. -/
def stepAt (steps : List Step) (before : Nat) : Step :=
  (steps[min before (steps.length - 1)]?).getD { outcome := .value .null }

/-- Plays a step under a name; `read` tells what its value stands for. -/
def Step.play {α : Type} (step : Step) (name : String) (read : Json → α) : Script host α :=
  fun _ scene =>
    let scene := step.effects.foldl (Effect.apply name) scene
    match step.outcome with
    | .value j => (.value (read j), scene)
    | .fault e => (.fault e, scene)
    | .panic p => (.panic p, scene)

/-- How a call is remembered together with the flags it finds. -/
def flagsText (name : String) (flags : Flags) : String :=
  name ++ " debug=" ++ toString flags.debug ++ " profiling=" ++ toString flags.profiling

/-- The script that plays steps under a name, and remembers its calls. -/
def script {α : Type} (name : String) (steps : List Step) (read : Json → α) : Script host α :=
  fun flags scene =>
    let (before, memory) := Memory.count scene.host name
    let step := stepAt steps before
    let memory := memory.call (if step.showsFlags then flagsText name flags else name)
    step.play name read flags { scene with host := memory }

def readStatus (j : Json) : Status := (Status.decode j).toOption.getD .success

def readBool : Json → Bool
  | .bool b => b
  | _ => false

/-! ## Probes -/

/-- What a probe is made of: a behavior that remembers its calls and plays statuses. -/
structure Probe where
  label : String := ""
  steps : List Step := []
  limit : ChildLimit := .finite 0
  findings : List String := []
  ticksChildren : Bool := false

def Probe.extension (p : Probe) : Extension host where
  limit := p.limit
  findings := p.findings
  ticksChildren := p.ticksChildren
  announce m := Memory.call m p.label
  answer before := (stepAt p.steps before).play p.label readStatus
  onReset m := Memory.call m (p.label ++ "!")

def plain : Extension host where
  answer _ _ scene := (.value .success, scene)

end Conduct.Rehearsal
