import Conduct.Control.Agreement

/-! Watching how children are handled.

Any way to handle children can be made to write down what it does to them, in a host that has room
for a list of events. Nothing else changes by that: what a control node does with its children is the
same, whether it is watched or not. Main statements: `Sequence.tick_recorded`,
`Selector.tick_recorded`, `Parallel.tick_recorded` and `Repeater.tick_recorded`.
-/

set_option autoImplicit false

namespace Conduct

/-- What is done to a child. -/
inductive Event
  /-- It is ticked, and reports something unless a panic unwinds it. -/
  | ticked (id : String) (report : Option Status)
  | reset (id : String)
  deriving DecidableEq

/-- A host that has room for a list of events, the earliest first. -/
abbrev Host.recorded (H : Host) : Host := { H with State := H.State × List Event }

variable {H : Host} {γ : Type}

namespace Stage

/-- The stage without its list of events. -/
def forget (x : Stage H.recorded) : Stage H where
  scene :=
    { blackboard := x.scene.blackboard
      agent := x.scene.agent
      world := x.scene.world
      log := x.scene.log
      now := x.scene.now
      host := x.scene.host.1 }
  flags := x.flags
  visits := x.visits

/-- The events of a stage. -/
def events (x : Stage H.recorded) : List Event := x.scene.host.2

/-- The stage with a list of events. -/
def recorded (x : Stage H) (es : List Event) : Stage H.recorded where
  scene :=
    { blackboard := x.scene.blackboard
      agent := x.scene.agent
      world := x.scene.world
      log := x.scene.log
      now := x.scene.now
      host := (x.scene.host, es) }
  flags := x.flags
  visits := x.visits

@[simp] theorem forget_recorded (x : Stage H) (es : List Event) : (x.recorded es).forget = x := rfl

@[simp] theorem events_recorded (x : Stage H) (es : List Event) : (x.recorded es).events = es := rfl

@[simp] theorem events_write (x : Stage H.recorded) (category message node : String) :
    (x.write category message node).events = x.events := rfl

end Stage

/-- Handles children in the same way, and writes down what is done to them. -/
def Handling.recorded (h : Handling H γ) : Handling H.recorded γ where
  id := h.id
  tick c x :=
    let turn := h.tick c x.forget
    ⟨turn.outcome, turn.state,
      turn.stage.recorded (x.events ++ [.ticked (h.id c) turn.outcome.toOption])⟩
  reset := h.reset
  notice c := fun (s, es) => (h.notice c s, es ++ [.reset (h.id c)])

section

variable (h : Handling H γ) (c : γ) (x : Stage H.recorded)

@[simp] theorem Handling.outcome_recorded :
    (h.recorded.tick c x).outcome = (h.tick c x.forget).outcome := rfl

@[simp] theorem Handling.events_recorded : (h.recorded.tick c x).stage.events =
    x.events ++ [.ticked (h.id c) (h.tick c x.forget).outcome.toOption] := rfl

end

theorem Handling.recorded_agree (h : Handling H γ) :
    h.recorded.Agree Eq (fun x y => x.forget = y) h where
  id := by
    rintro c d rfl
    rfl
  tick := by
    rintro c d x y rfl rfl
    exact ⟨rfl, rfl, rfl⟩
  reset := by
    rintro c d rfl
    rfl
  notice := by
    rintro c d x y rfl rfl
    rfl
  write := by
    rintro x y category message node rfl
    rfl

theorem Turn.Related.of_paired {ρ σ : Type} {t : Turn H.recorded ρ (σ × List γ)}
    {u : Turn H ρ (σ × List γ)} (ht : t.Related (Paired Eq) (fun x y => x.forget = y) u) :
    t.outcome = u.outcome ∧ t.state = u.state ∧ t.stage.forget = u.stage := by
  obtain ⟨ho, ⟨h1, h2⟩, hs⟩ := ht
  exact ⟨ho, Prod.ext h1 (List.forall₂_eq_eq_eq ▸ h2), hs⟩

/-- A sequence does the same whether it is watched or not. -/
theorem Sequence.tick_recorded (h : Handling H γ) (s : Settings) (run : Run) (cs : List γ)
    (stage : Stage H) (es : List Event) :
    (tick h.recorded s run cs (stage.recorded es)).outcome = (tick h s run cs stage).outcome ∧
      (tick h.recorded s run cs (stage.recorded es)).state = (tick h s run cs stage).state ∧
      (tick h.recorded s run cs (stage.recorded es)).stage.forget = (tick h s run cs stage).stage :=
  (walk_agree h.recorded_agree s run 0 (List.forall₂_same.2 fun _ _ => rfl) rfl).of_paired

/-- A selector does the same whether it is watched or not. -/
theorem Selector.tick_recorded (h : Handling H γ) (s : Settings) (run : Run)
    (g : Random.Generator) (cs : List γ) (stage : Stage H) (es : List Event) :
    (tick h.recorded s run g cs (stage.recorded es)).outcome = (tick h s run g cs stage).outcome ∧
      (tick h.recorded s run g cs (stage.recorded es)).state = (tick h s run g cs stage).state ∧
      (tick h.recorded s run g cs (stage.recorded es)).stage.forget =
        (tick h s run g cs stage).stage :=
  (tick_agree h.recorded_agree s run g (List.forall₂_same.2 fun _ _ => rfl) rfl).of_paired

/-- A parallel does the same whether it is watched or not. -/
theorem Parallel.tick_recorded (h : Handling H γ) (s : Settings) (results : Results) (cs : List γ)
    (stage : Stage H) (es : List Event) :
    (tick h.recorded s results cs (stage.recorded es)).outcome = (tick h s results cs stage).outcome ∧
      (tick h.recorded s results cs (stage.recorded es)).state = (tick h s results cs stage).state ∧
      (tick h.recorded s results cs (stage.recorded es)).stage.forget =
        (tick h s results cs stage).stage :=
  (tick_agree h.recorded_agree s results (List.forall₂_same.2 fun _ _ => rfl) rfl).of_paired

/-- A repeater does the same whether it is watched or not. -/
theorem Repeater.tick_recorded (h : Handling H γ) (s : Settings) (run : Run) (cs : List γ)
    (stage : Stage H) (es : List Event) :
    (tick h.recorded s run cs (stage.recorded es)).outcome = (tick h s run cs stage).outcome ∧
      (tick h.recorded s run cs (stage.recorded es)).state = (tick h s run cs stage).state ∧
      (tick h.recorded s run cs (stage.recorded es)).stage.forget = (tick h s run cs stage).stage :=
  (tick_agree h.recorded_agree s run (List.forall₂_same.2 fun _ _ => rfl) rfl).of_paired

end Conduct
