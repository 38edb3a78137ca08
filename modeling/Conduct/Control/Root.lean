import Conduct.Clock
import Conduct.Host

/-! Roots: the entry of a tree, with options for all of it, and a shelter from faults below.

A root raises flags for the nodes below it, turns a panic from below into an error, and ends a run
that takes too long. The time of a run is counted from the tick that started it.
-/

set_option autoImplicit false

namespace Conduct.Root

structure Settings where
  /-- How many milliseconds a run may take. -/
  maxExecutionTime : Option UInt64 := none
  debug : Bool := false
  profiling : Bool := false
  deriving DecidableEq

def Settings.known : List (Json.Setting Settings) :=
  [.of "debug" Json.Decode.bool fun s b => { s with debug := b },
    .of "maxExecutionTime" (Json.Decode.optional Json.Decode.uint64) fun s n =>
      { s with maxExecutionTime := n },
    .of "profiling" Json.Decode.bool fun s b => { s with profiling := b }]

def Settings.flags (s : Settings) : Flags := ⟨s.debug, s.profiling⟩

def panicText (p : Panic) : String := p.message.getD "unknown panic"

/-- Whether a run that started at a time has taken too long. -/
def overdue (s : Settings) (started now : UInt64) : Bool :=
  match s.maxExecutionTime with
  | some budget => budget < Clock.elapsed started now
  | none => false

variable {H : Host} {γ : Type}

/-- Gives the run up: the child is reset and the start of the run forgotten. -/
def giveUp (h : Handling H γ) (child : γ) (rest : List γ) (stage : Stage H) :
    Turn H Status (Option UInt64 × List γ) :=
  ⟨.ok .error, (none, h.reset child :: rest), stage.tell (h.notice child)⟩

/-- Ticks a root that remembers when its run started; without a child it fails and remembers that
still. -/
def tick (h : Handling H γ) (s : Settings) (runStarted : Option UInt64) (children : List γ)
    (stage : Stage H) : Turn H Status (Option UInt64 × List γ) :=
  let stage := stage.raise s.flags
  match children with
  | [] => ⟨.ok .failure, (runStarted, []), stage⟩
  | child :: rest =>
    let started := runStarted.getD stage.now
    let turn := h.tick child stage
    match turn.outcome with
    | .error p => giveUp h turn.state rest (turn.stage.write "error" (panicText p) (h.id turn.state))
    | .ok status =>
      if overdue s started turn.stage.now then giveUp h turn.state rest turn.stage
      else
        let remembered := if status.isTerminal then none else some started
        ⟨.ok status, (remembered, turn.state :: rest), turn.stage⟩

def findings (childCount : Nat) : List String :=
  if childCount = 1 then []
  else ["root needs exactly one child, found " ++ toString childCount]

end Conduct.Root
