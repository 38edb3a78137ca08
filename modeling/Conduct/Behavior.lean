import Conduct.ChildLimit
import Conduct.Control.Parallel
import Conduct.Control.Repeater
import Conduct.Control.Root
import Conduct.Control.Selector
import Conduct.Control.Sequence
import Conduct.Leaf.Action
import Conduct.Leaf.Condition

/-! The behavior of a node: its settings with what it remembers of an unfinished run.

Main statements: `reset_reset` and `limit_reset`.
-/

set_option autoImplicit false

namespace Conduct

/-- A behavior that the host provides. It answers by how often it was ticked before. -/
structure Extension (H : Host) where
  limit : ChildLimit := .finite 0
  findings : List String := []
  /-- Whether every child is ticked before the answer. -/
  ticksChildren : Bool := false
  /-- What happens before the children are ticked. -/
  announce : H.State → H.State := id
  answer : Nat → Script H Status
  onReset : H.State → H.State := id

namespace Extension

variable {H : Host} {γ : Type}

/-- Ticks every child, whatever it reports. -/
def tickAll (h : Handling H γ) : List γ → Stage H → Turn H Unit (Unit × List γ)
  | [], stage => ⟨.ok (), ((), []), stage⟩
  | child :: rest, stage =>
    let turn := h.tick child stage
    match turn.outcome with
    | .error p => ⟨.error p, ((), turn.state :: rest), turn.stage⟩
    | .ok _ => (tickAll h rest turn.stage).push turn.state

def reply (e : Extension H) (played : Nat) (children : List γ) (stage : Stage H) :
    Turn H Status (Nat × List γ) :=
  let (outcome, stage) := stage.run (e.answer played)
  match outcome with
  | .value status => ⟨.ok status, (played + 1, children), stage⟩
  | .fault _ => ⟨.ok .error, (played + 1, children), stage⟩
  | .panic p => ⟨.error p, (played + 1, children), stage⟩

def tick (h : Handling H γ) (e : Extension H) (played : Nat) (children : List γ) (stage : Stage H) :
    Turn H Status (Nat × List γ) :=
  let stage := stage.tell e.announce
  if e.ticksChildren then
    let turn := tickAll h children stage
    match turn.outcome with
    | .error p => ⟨.error p, (played, turn.state.2), turn.stage⟩
    | .ok () => e.reply played turn.state.2 turn.stage
  else e.reply played children stage

end Extension

/-- The settings of a node with what it remembers of an unfinished run. -/
inductive Behavior (H : Host)
  | root (s : Root.Settings) (runStarted : Option UInt64)
  | sequence (s : Sequence.Settings) (run : Sequence.Run)
  | selector (s : Selector.Settings) (run : Selector.Run) (generator : Random.Generator)
  | parallel (s : Parallel.Settings) (results : Parallel.Results)
  | inverter (s : Inverter.Settings)
  | repeater (s : Repeater.Settings) (run : Repeater.Run)
  | action (s : Action.Settings) (script : Option (Script H Status)) (run : Action.Run)
  | condition (s : Condition.Settings) (script : Option (Script H Bool)) (path : PropertyPath)
  | extension (e : Extension H) (played : Nat)

namespace Behavior

variable {H : Host} {γ : Type}

/-- Forgets the unfinished run. -/
def reset : Behavior H → Behavior H
  | .root s _ => .root s none
  | .sequence s _ => .sequence s {}
  | .selector s _ generator => .selector s {} generator
  | .parallel s _ => .parallel s .nil
  | .inverter s => .inverter s
  | .repeater s _ => .repeater s {}
  | .action s script _ => .action s script {}
  | .condition s script path => .condition s script path
  | .extension e played => .extension e played

/-- What the code of the host notices of a reset. -/
def notice : Behavior H → H.State → H.State
  | .extension e _ => e.onReset
  | _ => id

/-- How many children the behavior is meant to have. -/
def limit : Behavior H → ChildLimit
  | .root _ _ => .finite 1
  | .sequence _ _ => .unbounded
  | .selector _ _ _ => .unbounded
  | .parallel _ _ => .unbounded
  | .inverter _ => .finite 1
  | .repeater _ _ => .finite 1
  | .action _ _ _ => .finite 0
  | .condition _ _ _ => .finite 0
  | .extension e _ => e.limit

def findings (childCount : Nat) : Behavior H → List String
  | .root _ _ => Root.findings childCount
  | .sequence _ _ => []
  | .selector s _ _ => Selector.findings s childCount
  | .parallel s _ => Parallel.findings s childCount
  | .inverter _ => decoratorFindings childCount
  | .repeater s _ => Repeater.findings s childCount
  | .action s _ _ => Action.findings s
  | .condition s _ path => Condition.findings s path
  | .extension e _ => e.findings

def tick (h : Handling H γ) (b : Behavior H) (children : List γ) (stage : Stage H) :
    Turn H Status (Behavior H × List γ) :=
  match b with
  | .root s runStarted =>
    (Root.tick h s runStarted children stage).map fun (started, cs) => (.root s started, cs)
  | .sequence s run =>
    (Sequence.tick h s run children stage).map fun (run, cs) => (.sequence s run, cs)
  | .selector s run generator =>
    (Selector.tick h s run generator children stage).map fun ((run, generator), cs) =>
      (.selector s run generator, cs)
  | .parallel s results =>
    (Parallel.tick h s results children stage).map fun (results, cs) => (.parallel s results, cs)
  | .inverter s => (Inverter.tick h s children stage).map fun cs => (.inverter s, cs)
  | .repeater s run =>
    (Repeater.tick h s run children stage).map fun (run, cs) => (.repeater s run, cs)
  | .action s script run =>
    (Action.tick s script run stage).map fun run => (.action s script run, children)
  | .condition s script path =>
    let (outcome, stage) := Condition.tick s script path stage
    ⟨outcome, (.condition s script path, children), stage⟩
  | .extension e played =>
    (e.tick h played children stage).map fun (played, cs) => (.extension e played, cs)

@[simp] theorem reset_reset (b : Behavior H) : b.reset.reset = b.reset := by cases b <;> rfl

@[simp] theorem limit_reset (b : Behavior H) : b.reset.limit = b.limit := by cases b <;> rfl

end Behavior

end Conduct
