import Conduct.Host

/-! Parallels: every unfinished child on each tick, and a verdict by policy.

A run remembers by their ids what the children reported in it. A verdict may come before every child
has finished, where the settings ask for it and the outcome is certain.
-/

set_option autoImplicit false

namespace Conduct.Parallel

/-- By which rule the verdict is reached. -/
inductive Policy
  | requireAll
  | requireOne
  | requireMajority
  /-- By thresholds, once every child has finished. -/
  | custom
  deriving DecidableEq

def Policy.byName : List (String × Policy) :=
  [("require_all", .requireAll), ("require_one", .requireOne),
    ("require_majority", .requireMajority), ("custom", .custom)]

structure Settings where
  policy : Policy := .requireAll
  /-- How many successes the custom policy asks for; by default all children. -/
  successThreshold : Option Nat := none
  /-- How many failures the custom policy allows. -/
  failureThreshold : Nat := 0
  /-- Whether a verdict is given as soon as it is certain. -/
  earlyExit : Bool := true
  /-- Whether running children are reset when the verdict is not success. -/
  abortOnFailure : Bool := false
  /-- How many children are ticked in one tick; by default all. -/
  maxConcurrency : Option Nat := none
  deriving DecidableEq

def Settings.known : List (Json.Setting Settings) :=
  [.of "abortOnFailure" Json.Decode.bool fun s b => { s with abortOnFailure := b },
    .of "earlyExit" Json.Decode.bool fun s b => { s with earlyExit := b },
    .of "failureThreshold" Json.Decode.count fun s n => { s with failureThreshold := n },
    .of "maxConcurrency" (Json.Decode.optional Json.Decode.count) fun s n =>
      { s with maxConcurrency := n },
    .of "policy" (Json.Decode.variant Policy.byName) fun s p => { s with policy := p },
    .of "successThreshold" (Json.Decode.optional Json.Decode.count) fun s n =>
      { s with successThreshold := n }]

/-- What the children last reported in a run, by their ids. -/
abbrev Results : Type := Dict Status

/-! ## The verdict -/

/-- The verdict on a number of children of which some succeeded and some failed. -/
def decide (s : Settings) (total success failure : Nat) : Option Status :=
  let remaining := total - success - failure
  let mayDecide := s.earlyExit || remaining == 0
  match s.policy with
  | .requireAll =>
    if 0 < failure ∧ mayDecide then some .failure
    else if success = total then some .success
    else none
  | .requireOne =>
    if 0 < success ∧ mayDecide then some .success
    else if remaining = 0 then some .failure
    else none
  | .requireMajority =>
    let majority := (total + 1) / 2
    if majority ≤ success ∧ mayDecide then some .success
    else if success + remaining < majority ∧ mayDecide then some .failure
    else none
  | .custom =>
    if 0 < remaining then none
    else if s.successThreshold.getD total ≤ success ∧ failure ≤ s.failureThreshold then some .success
    else some .failure

/-! ## Ticking -/

variable {H : Host} {γ : Type}

def finished (results : Results) (id : String) : Bool :=
  match results.get? id with
  | some status => status.isTerminal
  | none => false

/-- Ticks the unfinished children as far as the budget goes. -/
def advance (h : Handling H γ) :
    Option Nat → Results → List γ → Stage H → Turn H Unit (Results × List γ)
  | _, results, [], stage => ⟨.ok (), (results, []), stage⟩
  | budget, results, child :: rest, stage =>
    let id := h.id child
    if finished results id || budget == some 0 then (advance h budget results rest stage).push child
    else
      let turn := h.tick child stage
      match turn.outcome with
      | .error p => ⟨.error p, (results, turn.state :: rest), turn.stage⟩
      | .ok status =>
        (advance h (budget.map (· - 1)) (results.insert id status) rest turn.stage).push turn.state

def count (h : Handling H γ) (results : Results) (children : List γ) (status : Status) : Nat :=
  children.countP fun c => results.get? (h.id c) == some status

def cancel (h : Handling H γ) (results : Results) : List γ → Stage H → List γ × Stage H
  | [], stage => ([], stage)
  | child :: rest, stage =>
    if results.get? (h.id child) == some .running then
      let (rest, stage) := cancel h results rest (stage.tell (h.notice child))
      (h.reset child :: rest, stage)
    else
      let (rest, stage) := cancel h results rest stage
      (child :: rest, stage)

def finish (h : Handling H γ) (s : Settings) (results : Results) (children : List γ) (stage : Stage H)
    (status : Status) : Turn H Status (Results × List γ) :=
  if status ≠ .success ∧ s.abortOnFailure then
    let (children, stage) := cancel h results children stage
    ⟨.ok status, (.nil, children), stage⟩
  else ⟨.ok status, (.nil, children), stage⟩

/-- Ends a run if the results so far allow it. -/
def settle (h : Handling H γ) (s : Settings) (results : Results) (children : List γ)
    (stage : Stage H) : Turn H Status (Results × List γ) :=
  if 0 < count h results children .error then finish h s results children stage .error
  else
    let verdict := decide s children.length (count h results children .success)
      (count h results children .failure)
    match verdict with
    | some status => finish h s results children stage status
    | none => ⟨.ok .running, (results, children), stage⟩

def tick (h : Handling H γ) (s : Settings) (results : Results) (children : List γ)
    (stage : Stage H) : Turn H Status (Results × List γ) :=
  let turn := advance h s.maxConcurrency results children stage
  match turn.outcome with
  | .error p => ⟨.error p, turn.state, turn.stage⟩
  | .ok () => settle h s turn.state.1 turn.state.2 turn.stage

def findings (s : Settings) (childCount : Nat) : List String :=
  let exceeding := fun (name : String) (threshold : Nat) =>
    if childCount < threshold then
      [name ++ " " ++ toString threshold ++ " exceeds the " ++ toString childCount ++ " children"]
    else []
  (match s.successThreshold with
    | some threshold => exceeding "successThreshold" threshold
    | none => []) ++
    exceeding "failureThreshold" s.failureThreshold ++
    if s.maxConcurrency = some 0 then ["maxConcurrency must be at least 1"] else []

end Conduct.Parallel
