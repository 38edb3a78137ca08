import Conduct.Host

/-! Inverters: success and failure of one child exchanged. -/

set_option autoImplicit false

namespace Conduct

def decoratorFindings (childCount : Nat) : List String :=
  if childCount = 1 then []
  else ["decorators need exactly one child, found " ++ toString childCount]

namespace Inverter

structure Settings where
  /-- Whether a running child counts as a failure. -/
  invertRunning : Bool := false
  /-- Whether a child's error counts as a success. -/
  invertError : Bool := false
  deriving DecidableEq

def Settings.known : List (Json.Setting Settings) :=
  [.of "invertError" Json.Decode.bool fun s b => { s with invertError := b },
    .of "invertRunning" Json.Decode.bool fun s b => { s with invertRunning := b }]

def turnRound (s : Settings) : Status → Status
  | .success => .failure
  | .failure => .success
  | .running => if s.invertRunning then .failure else .running
  | .error => if s.invertError then .success else .error
  | .ready => .error

variable {H : Host} {γ : Type}

def tick (h : Handling H γ) (s : Settings) (children : List γ) (stage : Stage H) :
    Turn H Status (List γ) :=
  match children with
  | [] => ⟨.ok .failure, [], stage⟩
  | child :: rest =>
    let turn := h.tick child stage
    ⟨turn.outcome.map (turnRound s), turn.state :: rest, turn.stage⟩

end Inverter

end Conduct
