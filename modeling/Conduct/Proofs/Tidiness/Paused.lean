import Conduct.Proofs.Frame

/-! What nodes remember of their runs.

A behavior is idle when it remembers nothing of a run and no child below it is running. It is paused
when a run of it goes on, and then it knows which children are running: a sequence and a selector
have one, where their cursor is, and a parallel has written down all of them.
-/

set_option autoImplicit false

namespace Conduct

variable {H : Host} {γ : Type}

/-! ## Idle and paused -/

section Paused

variable (id : γ → String) (status : γ → Status)

/-- None of the children is running. -/
def Still (cs : List γ) : Prop := ∀ c ∈ cs, status c ≠ .running

/-- Among all children the one after some others is running, and no other one is. -/
structure Alone (cs pre : List γ) (c : γ) (post : List γ) : Prop where
  split : cs = pre ++ c :: post
  running : status c = .running
  before : Still status pre
  after : Still status post

/-- At most the first child is running. -/
def FirstOnly (cs : List γ) : Prop := ∃ c rest, cs = c :: rest ∧ Still status rest

/-- A sequence whose first child has the given index waits for the child at its cursor, and remembers
those before it. -/
def Sequence.PausedFrom (index : Nat) (run : Run) (cs : List γ) : Prop :=
  ∃ pre c post, Alone status cs pre c post ∧ run.cursor = index + pre.length ∧
    (∀ d ∈ pre, id d ∈ run.completed) ∧ id c ∉ run.completed

/-- The ids before the one of a child in an order are those of children that finished or went away. -/
def Selector.Next (order completed present : List String) (i : String) : Prop :=
  i ∉ completed ∧ ∃ before after, order = before ++ i :: after ∧
    ∀ j ∈ before, j ∈ completed ∨ j ∉ present

/-- A selector waits for the child at its cursor, which is the next one in its order. -/
def Selector.Paused (run : Run) (cs : List γ) : Prop :=
  run.planned = true ∧ ∃ pre c post, Alone status cs pre c post ∧ run.cursor = pre.length ∧
    Next run.order run.completed (cs.map id) (id c)

/-- A parallel has written down which children are running. -/
def Parallel.Tracks (results : Results) (cs : List γ) : Prop :=
  ∀ c ∈ cs, status c = .running → results.get? (id c) = some .running

/-- A repeater has iterations left, and none of them ended in a child that is running. -/
structure Repeater.Goes (s : Settings) (run : Run) : Prop where
  uncounted : countReached s run = false
  left : run.iteration.toNat < s.maxIterations.toNat
  last : run.last.getD .success ≠ .running

/-- Only an action that waits remembers when it started to. -/
def Action.Holds (s : Settings) (run : Run) : Prop := s.deed ≠ .wait → run.waitStarted = none

/-- The behavior is in the middle of a run, for which the running children are to be ticked again. -/
def Behavior.Paused (b : Behavior H) (cs : List γ) : Prop :=
  match b with
  | .root _ _ => FirstOnly status cs
  | .sequence _ run => Sequence.PausedFrom id status 0 run cs
  | .selector _ run _ => Selector.Paused id status run cs
  | .parallel _ results => Parallel.Tracks id status results cs
  | .inverter _ => FirstOnly status cs
  | .repeater s run => FirstOnly status cs ∧ Repeater.Goes s run
  | .action s _ run => Still status cs ∧ Action.Holds s run
  | .condition _ _ _ => False
  | .extension _ _ => False

/-- The behavior remembers nothing of a run, and no child is running. -/
def Behavior.Idle (b : Behavior H) (cs : List γ) : Prop := b.reset = b ∧ Still status cs

end Paused

/-- Settings by which a node that ends a run leaves no child running. -/
def Behavior.Tame : Behavior H → Prop
  | .inverter s => s.invertRunning = false
  | .parallel s _ =>
    s.abortOnFailure = true ∧ (s.earlyExit = false ∨ s.policy = .requireAll ∨ s.policy = .custom)
  | _ => True

/-- Completed ticks leave good children behind, of which is known what they reported. Whatever happens
to a good child, it can be reset to one. -/
structure Handling.Tidy (h : Handling H γ) (status : γ → Status) (Shape Good : γ → Prop) : Prop where
  id : ∀ c x, h.id (h.tick c x).state = h.id c
  shape : ∀ c, Good c → Shape c
  unwound : ∀ c x, Good c → Shape (h.tick c x).state
  ticked : ∀ c x r, Good c → (h.tick c x).outcome = .ok r →
    Good (h.tick c x).state ∧ status (h.tick c x).state = r ∧ r ≠ .ready
  reset : ∀ c, Shape c → Good (h.reset c) ∧ status (h.reset c) ≠ .running

variable {h : Handling H γ} {status : γ → Status} {Shape Good : γ → Prop} {r : Status}

theorem still_nil : Still status [] := fun _ hc => absurd hc List.not_mem_nil

theorem still_cons {c : γ} {cs : List γ} :
    Still status (c :: cs) ↔ status c ≠ .running ∧ Still status cs := List.forall_mem_cons

theorem still_append {cs ds : List γ} :
    Still status (cs ++ ds) ↔ Still status cs ∧ Still status ds := List.forall_mem_append

end Conduct
