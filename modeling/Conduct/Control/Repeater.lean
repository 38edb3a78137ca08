import Conduct.Control.Inverter

/-! Repeaters: one child again and again within a tick, until the settings are met.

A running child pauses the loop until the next tick.
-/

set_option autoImplicit false

namespace Conduct.Repeater

inductive Until
  | count
  | success
  | failure
  | always
  deriving DecidableEq

def Until.byName : List (String × Until) :=
  [("count", .count), ("success", .success), ("failure", .failure), ("always", .always)]

structure Settings where
  /-- The number of iterations; a negative one means no limit. -/
  repeatCount : Int := 1
  repeatUntil : Until := .count
  breakOnFailure : Bool := false
  breakOnSuccess : Bool := false
  /-- Whether the child is reset before every iteration but the first. -/
  resetChild : Bool := false
  /-- The greatest number of iterations of a run. -/
  maxIterations : UInt32 := 1000
  deriving DecidableEq

def Settings.known : List (Json.Setting Settings) :=
  [.of "breakOnFailure" Json.Decode.bool fun s b => { s with breakOnFailure := b },
    .of "breakOnSuccess" Json.Decode.bool fun s b => { s with breakOnSuccess := b },
    .of "maxIterations" Json.Decode.uint32 fun s n => { s with maxIterations := n },
    .of "repeatCount" Json.Decode.int64 fun s n => { s with repeatCount := n },
    .of "repeatUntil" (Json.Decode.variant Until.byName) fun s u => { s with repeatUntil := u },
    .of "resetChild" Json.Decode.bool fun s b => { s with resetChild := b }]

/-- What a repeater remembers of an unfinished run. -/
structure Run where
  iteration : UInt32 := 0
  /-- Whether the child is paused in an iteration. -/
  inProgress : Bool := false
  /-- What the child reported at the end of the last iteration. -/
  last : Option Status := none
  seenSuccess : Bool := false
  seenFailure : Bool := false
  deriving DecidableEq

def Run.finishIteration (run : Run) (status : Status) : Run where
  iteration := run.iteration + 1
  inProgress := false
  last := some status
  seenSuccess := run.seenSuccess || status = .success
  seenFailure := run.seenFailure || status = .failure

theorem left_finishIteration {s : Settings} {run : Run} {left : Nat} (status : Status)
    (hleft : left + 1 + run.iteration.toNat = s.maxIterations.toNat) :
    left + (run.finishIteration status).iteration.toNat = s.maxIterations.toNat := by
  have hmax := s.maxIterations.toNat_lt
  have hnext : (run.finishIteration status).iteration = run.iteration + 1 := rfl
  have hone : (1 : UInt32).toNat = 1 := rfl
  rw [hnext, UInt32.toNat_add, hone, Nat.mod_eq_of_lt (by omega)]
  omega

def countReached (s : Settings) (run : Run) : Bool :=
  s.repeatUntil = .count && 0 ≤ s.repeatCount && s.repeatCount ≤ run.iteration.toNat

/-- What the repeater reports when its loop ends without an error. -/
def finalStatus (s : Settings) (run : Run) : Status :=
  match s.repeatUntil with
  | .success => if run.seenSuccess then .success else .failure
  | .failure => if run.seenFailure then .success else .failure
  | .count => run.last.getD .success
  | .always => run.last.getD .success

theorem finalStatus_ne_running (s : Settings) {run : Run}
    (hlast : run.last.getD .success ≠ .running) : finalStatus s run ≠ .running := by
  unfold finalStatus
  split
  · split
    · decide
    · decide
  · split
    · decide
    · decide
  · exact hlast
  · exact hlast

/-- Whether the loop ends after an iteration that ended this way. -/
def breaksOn (s : Settings) : Status → Bool
  | .success => s.breakOnSuccess || s.repeatUntil = .success
  | .failure => s.breakOnFailure || s.repeatUntil = .failure
  | _ => false

variable {H : Host} {γ : Type}

/-- The child and the stage at the start of an iteration, where the child may be reset. -/
def prepare (h : Handling H γ) (s : Settings) (run : Run) (child : γ) (stage : Stage H) :
    γ × Stage H :=
  if 0 < run.iteration ∧ run.inProgress = false ∧ s.resetChild then
    (h.reset child, stage.tell (h.notice child))
  else (child, stage)

/-- Repeats the child while iterations are left under the greatest number of them. -/
def loop (h : Handling H γ) (s : Settings) :
    Nat → Run → γ → Stage H → Turn H Status (Run × γ)
  | 0, run, child, stage => ⟨.ok (finalStatus s run), ({}, child), stage⟩
  | left + 1, run, child, stage =>
    if countReached s run then ⟨.ok (finalStatus s run), ({}, child), stage⟩
    else
      let (child, stage) := prepare h s run child stage
      let turn := h.tick child stage
      match turn.outcome with
      | .error p => ⟨.error p, (run, turn.state), turn.stage⟩
      | .ok .running => ⟨.ok .running, ({ run with inProgress := true }, turn.state), turn.stage⟩
      | .ok .error => ⟨.ok .error, ({}, turn.state), turn.stage⟩
      | .ok .ready => ⟨.ok .error, ({}, turn.state), turn.stage⟩
      | .ok status =>
        let run := run.finishIteration status
        if breaksOn s status then ⟨.ok (finalStatus s run), ({}, turn.state), turn.stage⟩
        else loop h s left run turn.state turn.stage

/-- Ticks a repeater; without a child it fails and remembers what it did before. -/
def tick (h : Handling H γ) (s : Settings) (run : Run) (children : List γ) (stage : Stage H) :
    Turn H Status (Run × List γ) :=
  match children with
  | [] => ⟨.ok .failure, (run, []), stage⟩
  | child :: rest =>
    (loop h s (s.maxIterations.toNat - run.iteration.toNat) run child stage).map
      fun (run, child) => (run, child :: rest)

def findings (s : Settings) (childCount : Nat) : List String :=
  decoratorFindings childCount ++
    if s.repeatCount < -1 then
      ["repeatCount must be -1 or greater, found " ++ toString s.repeatCount]
    else []

end Conduct.Repeater
