import Conduct.Host

/-! Sequences: children in order until one fails.

A run remembers by their ids the children that finished in it, so it survives children that come and
go between ticks.
-/

set_option autoImplicit false

namespace Conduct.Sequence

structure Settings where
  /-- Whether a failure ends the run at once. -/
  abortOnFailure : Bool := true
  /-- Whether a success ends the run at once. -/
  stopOnFirstSuccess : Bool := false
  deriving DecidableEq

def Settings.known : List (Json.Setting Settings) :=
  [.of "abortOnFailure" Json.Decode.bool fun s b => { s with abortOnFailure := b },
    .of "stopOnFirstSuccess" Json.Decode.bool fun s b => { s with stopOnFirstSuccess := b }]

/-- What a sequence remembers of an unfinished run. -/
structure Run where
  /-- The index of the child that the run is paused at. -/
  cursor : Nat := 0
  /-- The ids of the children that finished in this run. -/
  completed : List String := []
  /-- Whether one of them failed. -/
  failed : Bool := false
  deriving DecidableEq

def Run.complete (run : Run) (id : String) : Run := { run with completed := id :: run.completed }

variable {H : Host} {γ : Type}

/-- Ticks the children from an index on. -/
def walk (h : Handling H γ) (s : Settings) :
    Run → Nat → List γ → Stage H → Turn H Status (Run × List γ)
  | run, _, [], stage => ⟨.ok (if run.failed then .failure else .success), ({}, []), stage⟩
  | run, index, child :: rest, stage =>
    let id := h.id child
    if run.completed.contains id then (walk h s run (index + 1) rest stage).push child
    else
      let turn := h.tick child stage
      let stop := fun (run : Run) => (run, turn.state :: rest)
      match turn.outcome with
      | .error p => ⟨.error p, stop run, turn.stage⟩
      | .ok .running => ⟨.ok .running, stop { run with cursor := index }, turn.stage⟩
      | .ok .success =>
        if s.stopOnFirstSuccess then ⟨.ok .success, stop {}, turn.stage⟩
        else (walk h s (run.complete id) (index + 1) rest turn.stage).push turn.state
      | .ok .failure =>
        if s.abortOnFailure then ⟨.ok .failure, stop {}, turn.stage⟩
        else
          let stage := turn.stage.write "sequence" "child failed, continuing" id
          (walk h s { run.complete id with failed := true } (index + 1) rest stage).push turn.state
      | .ok .error => ⟨.ok .error, stop {}, turn.stage⟩
      | .ok .ready => ⟨.ok .error, stop {}, turn.stage⟩

def tick (h : Handling H γ) (s : Settings) (run : Run) (children : List γ) (stage : Stage H) :
    Turn H Status (Run × List γ) := walk h s run 0 children stage

end Conduct.Sequence
