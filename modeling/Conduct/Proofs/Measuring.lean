import Conduct.Leaf.Condition
import Conduct.Rehearsal.World

/-! What conditions make of measurements.

A distance or a health is measured as a float and becomes a value before it is compared, and as a value
a float that is not finite is no number. So against a number every measurement is equal or not, but only
a finite one has an order. Main statements: `Comparison.holds_ofFloat`, `Condition.outcome_measured` and
`Condition.tick_measured`.
-/

set_option autoImplicit false

namespace Conduct

namespace Comparison

/-- Whether an order is asked for. -/
def isOrdering : Comparison → Bool
  | .equals => false
  | .notEquals => false
  | _ => true

/-- The answer about a float and a number that are compared as values: a float that is not finite
equals no number and has no order. -/
def answer (c : Comparison) (f : Float) (n : Number) (tolerance : Float) :
    Except ScriptError Bool :=
  if f.isFinite then .ok (c.holdsOfFloats f n.toFloat tolerance)
  else if c.isOrdering then .error (.unordered .null (.num n))
  else .ok (c = .notEquals)

theorem holds_ofFloat (c : Comparison) (f : Float) (n : Number) (tolerance : Float) :
    c.holds (.ofFloat f) (.num n) tolerance = c.answer f n tolerance := by
  unfold answer
  cases h : f.isFinite with
  | true =>
    have hvalue : Json.ofFloat f = .num (.float f h) := by
      simp only [Json.ofFloat, Number.ofFloat?, h, dite_true, Option.map_some, Option.getD_some]
    rw [hvalue]
    rfl
  | false =>
    have hvalue : Json.ofFloat f = .null := by
      simp only [Json.ofFloat, Number.ofFloat?, h, Bool.false_eq_true, dite_false,
        Option.map_none, Option.getD_none]
    rw [hvalue]
    cases c <;> rfl

end Comparison

namespace Condition

variable {H : Host} {s : Settings} {scene : Scene H}

/-- The place that the distance is taken to, if it is there. -/
def target? (s : Settings) (scene : Scene H) : Option Vec2 :=
  match s.targetId with
  | some id => scene.world.bind fun world => H.locate? world id
  | none => s.target

/-- The health that is asked about, as it is or as a percentage of the greatest one, which counts as
nothing where that is not positive. -/
def Settings.share (s : Settings) (health most : Float) : Float :=
  if s.percentage then if 0 < most then health / most * 100 else 0 else health

/-- The distance or the health that is asked about, if the agent and the target are there. -/
def measured? (s : Settings) (scene : Scene H) : Option Float :=
  match s.subject with
  | .distance => scene.agent.bind fun agent => (target? s scene).map (H.position agent).distance
  | .health => scene.agent.map fun agent => s.share (H.health agent) (H.maxHealth agent)
  | _ => none

theorem distance?_eq (s : Settings) (scene : Scene H) : distance? s scene =
    (scene.agent.bind fun agent => (target? s scene).map (H.position agent).distance).map
      .ofFloat := by
  unfold distance? target?
  cases scene.agent with
  | none => rfl
  | some agent =>
    cases s.targetId with
    | none => cases s.target <;> rfl
    | some id =>
      dsimp only [bind, Option.bind_some]
      cases scene.world.bind fun world => H.locate? world id <;> rfl

theorem health?_eq (s : Settings) (scene : Scene H) : health? s scene =
    (scene.agent.map fun agent => s.share (H.health agent) (H.maxHealth agent)).map .ofFloat := by
  unfold health? Settings.share
  cases scene.agent <;> rfl

/-- What is asked is about the measurement as a value. -/
theorem ask_measured (hs : s.subject = .distance ∨ s.subject = .health) (path : PropertyPath) :
    ask s path scene = compare s ((measured? s scene).map .ofFloat) := by
  rcases hs with hs | hs
  · simp only [ask, measured?, hs, distance?_eq]
  · simp only [ask, measured?, hs, health?_eq]

theorem outcome_measured (hs : s.subject = .distance ∨ s.subject = .health) {n : Number}
    (hvalue : s.value = .num n) (script : Option (Script H Bool)) (path : PropertyPath)
    (x : Stage H) : (tick s script path x).1 = .ok (match measured? s x.scene with
      | none => .failure
      | some f => report ((s.comparison.answer f n s.tolerance).map some)) := by
  have hask : (tick s script path x).1 = .ok (report (ask s path x.scene)) := by
    rcases hs with hs | hs <;> simp only [tick, hs]
  rw [hask, ask_measured hs]
  cases measured? s x.scene with
  | none => rfl
  | some f => simp only [compare, Option.map_some, hvalue, Comparison.holds_ofFloat]

theorem report_ok (b : Bool) : report (.ok (some b)) = if b then .success else .failure := by
  cases b <;> rfl

theorem report_answer_of_finite {f : Float} (h : f.isFinite = true) (c : Comparison) (n : Number)
    (tolerance : Float) : report ((c.answer f n tolerance).map some) =
      if c.holdsOfFloats f n.toFloat tolerance then .success else .failure := by
  rw [Comparison.answer, if_pos h]
  exact report_ok _

/-- About a measurement that is not finite, only an order cannot be asked for. -/
theorem report_answer_ne_error_iff {f : Float} (h : f.isFinite = false) (c : Comparison)
    (n : Number) (tolerance : Float) :
    report ((c.answer f n tolerance).map some) ≠ .error ↔ c.isOrdering = false := by
  rw [Comparison.answer, h, if_neg Bool.false_ne_true]
  cases c.isOrdering with
  | true => exact iff_of_false (fun hne => hne rfl) Bool.noConfusion
  | false =>
    refine iff_of_true ?_ rfl
    rw [if_neg Bool.false_ne_true, Except.map, report_ok]
    split <;> exact nofun

theorem report_cases (a : Except ScriptError (Option Bool)) :
    report a = .success ∨ report a = .failure ∨ report a = .error := by
  unfold report
  split
  · exact .inl rfl
  · exact .inr (.inl rfl)
  · exact .inr (.inr rfl)

/-- A condition that compares a distance or a health with a number succeeds or fails, and is no error,
if and only if the measurement is finite, where there is one, or no order is asked for. A finite one is
compared as a float, and where there is none the condition fails. -/
theorem tick_measured (hs : s.subject = .distance ∨ s.subject = .health) {n : Number}
    (hvalue : s.value = .num n) (script : Option (Script H Bool)) (path : PropertyPath)
    (x : Stage H) : ∃ status, (tick s script path x).1 = .ok status ∧
      (status = .success ∨ status = .failure ∨ status = .error) ∧
      (status ≠ .error ↔
        ∀ f, measured? s x.scene = some f → f.isFinite = true ∨ s.comparison.isOrdering = false) ∧
      (∀ f, measured? s x.scene = some f → f.isFinite = true → status =
        if s.comparison.holdsOfFloats f n.toFloat s.tolerance then .success else .failure) ∧
      (measured? s x.scene = none → status = .failure) := by
  refine ⟨_, outcome_measured hs hvalue script path x, ?_⟩
  cases measured? s x.scene with
  | none => exact ⟨.inr (.inl rfl), iff_of_true nofun nofun, nofun, fun _ => rfl⟩
  | some f =>
    dsimp only
    refine ⟨report_cases _, ?_, ?_, nofun⟩
    · cases h : f.isFinite with
      | true =>
        rw [report_answer_of_finite h]
        refine iff_of_true ?_ fun g hg => .inl (Option.some.inj hg ▸ h)
        split <;> exact nofun
      | false =>
        rw [report_answer_ne_error_iff h]
        refine ⟨fun hc _ _ => .inr hc, fun hc => ?_⟩
        exact (hc f rfl).resolve_left (by simp [h])
    · rintro g hg hfinite
      cases hg
      exact report_answer_of_finite hfinite _ _ _

section Overflow

open Rehearsal (clock)

/-- Asks whether the health is above half of the greatest one. -/
def hale : Settings where
  subject := .health
  comparison := .greater
  value := .ofInt 50
  percentage := true

/-- A stage with an agent of the given health, the greatest one being as given. -/
def ward (health most : Float) : Stage Rehearsal.host :=
  { clock 0 with
    scene := { (clock 0).scene with agent := some { health := health, maxHealth := most } } }

/-- A percentage that is too large for a finite float is above fifty, but asking for that is an
error. -/
theorem percentage_overflows : ∃ f, measured? hale (ward 1e300 1e-300).scene = some f ∧
    f.isFinite = false ∧ hale.comparison.holdsOfFloats f 50 hale.tolerance = true ∧
    (tick hale none [] (ward 1e300 1e-300)).1 = .ok .error := by
  have hinfinite : (hale.share 1e300 1e-300).isFinite = false := by decide +kernel
  refine ⟨hale.share 1e300 1e-300, rfl, hinfinite, by decide +kernel, ?_⟩
  rw [outcome_measured (.inr rfl) rfl, show measured? hale (ward 1e300 1e-300).scene =
    some (hale.share 1e300 1e-300) from rfl]
  dsimp only
  rw [Comparison.answer, hinfinite]
  rfl

/-- Nine of ten is above half, and one of ten is not. -/
theorem tick_measured_ward : (tick hale none [] (ward 9 10)).1 = .ok .success ∧
    (tick hale none [] (ward 1 10)).1 = .ok .failure := by
  obtain ⟨high, hhigh, -, -, hcompared, -⟩ :=
    tick_measured (s := hale) (.inr rfl) rfl none [] (ward 9 10)
  obtain ⟨low, hlow, -, -, hcompared', -⟩ :=
    tick_measured (s := hale) (.inr rfl) rfl none [] (ward 1 10)
  rw [hhigh, hlow, hcompared _ rfl (by decide +kernel), hcompared' _ rfl (by decide +kernel)]
  exact ⟨congrArg Except.ok (if_pos (by decide +kernel)),
    congrArg Except.ok (if_neg (by decide +kernel))⟩

end Overflow

end Condition

end Conduct
