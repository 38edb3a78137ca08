import Conduct.Tree.Tick

/-! Ticks that check their arithmetic.

Here every sum and difference of the counters goes through a check: a result that is no number of its
type unwinds the tick as a panic does, in place of wrapping around. Apart from that a checked tick
does what a tick does. A count of children is a word of 64 bits.
-/

set_option autoImplicit false

namespace Conduct

/-! ## Checked sums and differences -/

def Panic.overflow (operation : String) : Panic :=
  ⟨some ("attempt to " ++ operation ++ " with overflow")⟩

namespace Checked

/-- The next word of 32 bits. -/
def next (n : UInt32) : Except Panic UInt32 :=
  if n.toNat + 1 < UInt32.size then .ok (n + 1) else .error (.overflow "add")

def add (a b : Nat) : Except Panic Nat :=
  if a + b < UInt64.size then .ok (a + b) else .error (.overflow "add")

def sub (a b : Nat) : Except Panic Nat :=
  if b ≤ a then .ok (a - b) else .error (.overflow "subtract")

theorem toNat_next {n m : UInt32} (h : next n = .ok m) : m.toNat = n.toNat + 1 := by
  unfold next at h
  split at h
  · next hlt =>
    cases h
    rw [UInt32.toNat_add]
    exact Nat.mod_eq_of_lt hlt
  · cases h

end Checked

variable {H : Host} {γ : Type}

/-! ## Repeaters -/

namespace Repeater

/-- Repeats the child until the count or the greatest number of iterations is reached, or the child
ends the loop. -/
def loopChecked (h : Handling H γ) (s : Settings) (run : Run) (child : γ) (stage : Stage H) :
    Turn H Status (Run × γ) :=
  if countReached s run then ⟨.ok (finalStatus s run), ({}, child), stage⟩
  else if _hcap : s.maxIterations ≤ run.iteration then ⟨.ok (finalStatus s run), ({}, child), stage⟩
  else
    let (child, stage) := prepare h s run child stage
    let turn := h.tick child stage
    match turn.outcome with
    | .error p => ⟨.error p, (run, turn.state), turn.stage⟩
    | .ok .running => ⟨.ok .running, ({ run with inProgress := true }, turn.state), turn.stage⟩
    | .ok status =>
      match _hnext : Checked.next run.iteration with
      | .error p => ⟨.error p, ({ run with inProgress := false }, turn.state), turn.stage⟩
      | .ok iteration =>
        let finished := { run.finishIteration status with iteration := iteration }
        if status ≠ .success ∧ status ≠ .failure then
          ⟨.ok .error, ({}, turn.state), turn.stage⟩
        else if breaksOn s status then
          ⟨.ok (finalStatus s finished), ({}, turn.state), turn.stage⟩
        else loopChecked h s finished turn.state turn.stage
termination_by s.maxIterations.toNat - run.iteration.toNat
decreasing_by
  have hiteration := Checked.toNat_next _hnext
  rw [UInt32.le_iff_toNat_le] at _hcap
  omega

def tickChecked (h : Handling H γ) (s : Settings) (run : Run) (children : List γ)
    (stage : Stage H) : Turn H Status (Run × List γ) :=
  match children with
  | [] => ⟨.ok .failure, (run, []), stage⟩
  | child :: rest =>
    (loopChecked h s run child stage).map fun (run, child) => (run, child :: rest)

end Repeater

/-! ## Parallels -/

namespace Parallel

/-- Ticks the unfinished children as far as the budget goes, and counts it down. -/
def advanceChecked (h : Handling H γ) :
    Nat → Results → List γ → Stage H → Turn H Unit (Results × List γ)
  | _, results, [], stage => ⟨.ok (), (results, []), stage⟩
  | budget, results, child :: rest, stage =>
    let id := h.id child
    if finished results id || budget == 0 then
      (advanceChecked h budget results rest stage).push child
    else
      match Checked.sub budget 1 with
      | .error p => ⟨.error p, (results, child :: rest), stage⟩
      | .ok budget =>
        let turn := h.tick child stage
        match turn.outcome with
        | .error p => ⟨.error p, (results, turn.state :: rest), turn.stage⟩
        | .ok status =>
          (advanceChecked h budget (results.insert id status) rest turn.stage).push turn.state

/-- What children reported: how many of them success, how many failure, and whether one an error. -/
structure Counts where
  success : Nat := 0
  failure : Nat := 0
  errored : Bool := false

/-- Counts on over more children. -/
def countChecked (h : Handling H γ) (results : Results) : Counts → List γ → Except Panic Counts
  | counts, [] => .ok counts
  | counts, child :: rest =>
    match results.get? (h.id child) with
    | some .success => do
      let success ← Checked.add counts.success 1
      countChecked h results { counts with success := success } rest
    | some .failure => do
      let failure ← Checked.add counts.failure 1
      countChecked h results { counts with failure := failure } rest
    | some .error => countChecked h results { counts with errored := true } rest
    | _ => countChecked h results counts rest

def decideChecked (s : Settings) (total success failure : Nat) : Except Panic (Option Status) := do
  let unsuccessful ← Checked.sub total success
  let remaining ← Checked.sub unsuccessful failure
  let mayDecide := s.earlyExit || remaining == 0
  match s.policy with
  | .requireAll =>
    .ok (if 0 < failure ∧ mayDecide then some .failure
      else if success = total then some .success
      else none)
  | .requireOne =>
    .ok (if 0 < success ∧ mayDecide then some .success
      else if remaining = 0 then some .failure
      else none)
  | .requireMajority => do
    let above ← Checked.add total 1
    let possible ← Checked.add success remaining
    let majority := above / 2
    .ok (if majority ≤ success ∧ mayDecide then some .success
      else if possible < majority ∧ mayDecide then some .failure
      else none)
  | .custom =>
    .ok (if 0 < remaining then none
      else if s.successThreshold.getD total ≤ success ∧ failure ≤ s.failureThreshold then
        some .success
      else some .failure)

/-- The verdict on children with these results; an error of one of them is an error. -/
def verdictChecked (h : Handling H γ) (s : Settings) (results : Results) (children : List γ) :
    Except Panic (Option Status) := do
  let counts ← countChecked h results {} children
  if counts.errored then .ok (some .error)
  else decideChecked s children.length counts.success counts.failure

def tickChecked (h : Handling H γ) (s : Settings) (results : Results) (children : List γ)
    (stage : Stage H) : Turn H Status (Results × List γ) :=
  let budget := s.maxConcurrency.getD (UInt64.size - 1)
  let turn := advanceChecked h budget results children stage
  let (results, children) := turn.state
  match turn.outcome with
  | .error p => ⟨.error p, turn.state, turn.stage⟩
  | .ok () =>
    match verdictChecked h s results children with
    | .error p => ⟨.error p, turn.state, turn.stage⟩
    | .ok (some status) => finish h s results children turn.stage status
    | .ok none => ⟨.ok .running, turn.state, turn.stage⟩

end Parallel

/-! ## Actions -/

namespace Action

def reportChecked (s : Settings) (run : Run) (now : UInt64) (status : Status) :
    Except Panic (Status × Run) :=
  if status = .failure ∧ run.attempts < s.retryCount then do
    let attempts ← Checked.next run.attempts
    .ok (.running, { run with
      attempts := attempts
      nextAttempt := some (Clock.later now s.retryDelay) })
  else .ok (report s run now status)

def attemptChecked (s : Settings) (script : Option (Script H Status)) (run : Run)
    (stage : Stage H) : Turn H Status Run :=
  let now := stage.now
  let (outcome, run, stage) := perform s script { run with nextAttempt := none } stage
  match outcome with
  | .panic p => ⟨.error p, run, stage⟩
  | .fault _ =>
    let (status, run) := report s run now .error
    ⟨.ok status, run, stage⟩
  | .value status =>
    match reportChecked s run now status with
    | .error p => ⟨.error p, run, stage⟩
    | .ok (status, run) => ⟨.ok status, run, stage⟩

def tickChecked (s : Settings) (script : Option (Script H Status)) (run : Run) (stage : Stage H) :
    Turn H Status Run :=
  if run.delayed stage.now then ⟨.ok .running, run, stage⟩ else attemptChecked s script run stage

end Action

/-! ## Trees -/

def Behavior.tickChecked (h : Handling H γ) (b : Behavior H) (children : List γ)
    (stage : Stage H) : Turn H Status (Behavior H × List γ) :=
  match b with
  | .parallel s results =>
    (Parallel.tickChecked h s results children stage).map fun (results, cs) =>
      (.parallel s results, cs)
  | .repeater s run =>
    (Repeater.tickChecked h s run children stage).map fun (run, cs) => (.repeater s run, cs)
  | .action s script run =>
    (Action.tickChecked s script run stage).map fun run => (.action s script run, children)
  | b => b.tick h children stage

def Node.tickChecked (h : Handling H (Tree H)) (n : Node H) (children : List (Tree H))
    (stage : Stage H) : Turn H Status (Tree H) :=
  let turn := n.behavior.tickChecked h children stage
  let (behavior, children) := turn.state
  match turn.outcome with
  | .error p => ⟨.error p, .node { n with behavior := behavior } children, turn.stage⟩
  | .ok reported =>
    let status := reported.settled
    ⟨.ok status, .node (n.account behavior status turn.stage.now) children,
      turn.stage.close stage.flags n status⟩

namespace Tree

/-- Ticks a tree of at most the given number of levels. -/
def tickCheckedWithin : Nat → Tree H → Stage H → Turn H Status (Tree H)
  | 0, t, stage => ⟨.ok .error, t, stage⟩
  | levels + 1, .node n children, stage =>
    n.tickChecked (handling (tickCheckedWithin levels)) children stage

def tickChecked (t : Tree H) (stage : Stage H) : Turn H Status (Tree H) :=
  tickCheckedWithin t.height t stage

end Tree

end Conduct
