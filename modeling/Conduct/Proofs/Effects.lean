import Conduct.Proofs.Retries

/-! What the usual actions do to agents and worlds.

An attempt of a usual deed does at most one thing to what it finds, and only if it takes effect; all
else on the stage stays. That nothing is done twice shows in an audited host, whose agents and worlds
keep what is done to them. Main statements: `Action.perform_touched`, `Action.touch?_audited` and
`Action.tick_touches`.
-/

set_option autoImplicit false

namespace Conduct

/-- What may be done to an agent or a world. -/
inductive Touch
  | move (place : Vec2)
  | damage (id : String) (amount : Float)
  | interact (id : String)

/-- The host with agents and worlds that keep what is done to them, the latest first. -/
abbrev Host.audited (H : Host) : Host where
  Agent := H.Agent × List Touch
  World := H.World × List Touch
  State := H.State
  position agent := H.position agent.1
  moveTo agent place := (H.moveTo agent.1 place, .move place :: agent.2)
  health agent := H.health agent.1
  maxHealth agent := H.maxHealth agent.1
  entity? world id := H.entity? world.1 id
  object? world id := H.object? world.1 id
  damage world id amount := (H.damage world.1 id amount, .damage id amount :: world.2)
  interact world id :=
    ((H.interact world.1 id).1, (H.interact world.1 id).2, .interact id :: world.2)

variable {H : Host}

namespace Scene

/-- The scene after something is done to its agent or its world. -/
def touched (scene : Scene H) : Touch → Scene H
  | .move place => { scene with agent := scene.agent.map fun agent => H.moveTo agent place }
  | .damage id amount => { scene with world := scene.world.map fun world => H.damage world id amount }
  | .interact id => { scene with world := scene.world.map fun world => (H.interact world id).2 }

/-- The scene with an agent and a world to which nothing has been done. -/
def audited (scene : Scene H) : Scene H.audited where
  blackboard := scene.blackboard
  agent := scene.agent.map fun agent => (agent, [])
  world := scene.world.map fun world => (world, [])
  log := scene.log
  now := scene.now
  host := scene.host

/-- What was done to the agent and to the world. -/
def touches (scene : Scene H.audited) : List Touch :=
  scene.agent.elim [] Prod.snd ++ scene.world.elim [] Prod.snd

theorem touches_audited (scene : Scene H) : scene.audited.touches = [] := by
  unfold touches audited
  cases scene.agent with
  | none => cases scene.world <;> rfl
  | some agent => cases scene.world <;> rfl

end Scene

namespace Stage

/-- The stage after something is done to its scene, if anything is. -/
def touched (x : Stage H) (touch : Option Touch) : Stage H :=
  { x with scene := touch.elim x.scene x.scene.touched }

def audited (x : Stage H) : Stage H.audited := ⟨x.scene.audited, x.flags, x.visits⟩

end Stage

namespace Action

open Rehearsal (clock)

variable {s : Settings} {script : Option (Script H Status)} {run : Run} {x : Stage H}
  {scene : Scene H} {touch : Touch}

/-! ## What a deed does -/

/-- The place that a move of the agent is to end at, if it is known. -/
def aim? (s : Settings) (scene : Scene H) : Option Vec2 :=
  match s.targetId with
  | some id => scene.world.bind fun world => H.locate? world id
  | none => s.target

/-- The agent is in reach of the place that the world has for an id. -/
def Reaches (s : Settings) (scene : Scene H) (place? : H.World → String → Option Vec2)
    (id : String) : Prop :=
  ∃ agent world place, scene.agent = some agent ∧ scene.world = some world ∧
    place? world id = some place ∧ ¬ s.range < place.distance (H.position agent)

/-- The step of the agent toward its aim, unless it has arrived there. -/
def step? (s : Settings) (scene : Scene H) : Option Touch :=
  (aim? s scene).bind fun place => scene.agent.bind fun agent =>
    if (H.position agent).distance place ≤ s.arrivalDistance then none
    else some (.move ((H.position agent).stepToward place s.speed))

/-- What is done to the world under an id, if the agent is in reach of its place. -/
def reach? (s : Settings) (scene : Scene H) (place? : H.World → String → Option Vec2)
    (id? : Option String) (touch : String → Touch) : Option Touch :=
  id?.bind fun id => scene.agent.bind fun agent => scene.world.bind fun world =>
    (place? world id).bind fun place =>
      if s.range < place.distance (H.position agent) then none else some (touch id)

/-- What an attempt of a usual deed does to the scene. -/
def touch? (s : Settings) (scene : Scene H) : Option Touch :=
  match s.deed with
  | .moveTo => step? s scene
  | .attack => reach? s scene H.entity? s.targetId fun id => .damage id s.damage
  | .interact => reach? s scene H.object? s.objectId .interact
  | .custom => none
  | .wait => none

theorem step?_eq_some_iff : step? s scene = some touch ↔
    ∃ agent place, scene.agent = some agent ∧ aim? s scene = some place ∧
      ¬ (H.position agent).distance place ≤ s.arrivalDistance ∧
      touch = .move ((H.position agent).stepToward place s.speed) := by
  simp only [step?, Option.bind_eq_some_iff, Option.ite_none_left_eq_some, Option.some.injEq]
  constructor
  · rintro ⟨place, haim, agent, hagent, hfar, rfl⟩
    exact ⟨agent, place, hagent, haim, hfar, rfl⟩
  · rintro ⟨agent, place, hagent, haim, hfar, rfl⟩
    exact ⟨place, haim, agent, hagent, hfar, rfl⟩

theorem reach?_eq_some_iff {place? : H.World → String → Option Vec2} {id? : Option String}
    {f : String → Touch} : reach? s scene place? id? f = some touch ↔
      ∃ id, id? = some id ∧ Reaches s scene place? id ∧ touch = f id := by
  simp only [reach?, Option.bind_eq_some_iff, Option.ite_none_left_eq_some, Option.some.injEq]
  constructor
  · rintro ⟨id, hid, agent, hagent, world, hworld, place, hplace, hnear, rfl⟩
    exact ⟨id, hid, ⟨agent, world, place, hagent, hworld, hplace, hnear⟩, rfl⟩
  · rintro ⟨id, hid, ⟨agent, world, place, hagent, hworld, hplace, hnear⟩, rfl⟩
    exact ⟨id, hid, agent, hagent, world, hworld, place, hplace, hnear, rfl⟩

/-! ## What comes of it -/

theorem approach_touched {place : Vec2} (h : aim? s scene = some place) :
    (approach s scene place).2 = (step? s scene).elim scene scene.touched ∧
      (step? s scene ≠ none → (approach s scene place).1 = .value .success ∨
        (approach s scene place).1 = .value .running) := by
  unfold approach step?
  rw [h, Option.bind_some]
  cases hagent : scene.agent with
  | none => exact ⟨rfl, fun hne => absurd rfl hne⟩
  | some agent =>
    rw [Option.bind_some]
    dsimp only
    split
    · exact ⟨rfl, fun hne => absurd rfl hne⟩
    · refine ⟨?_, fun _ => ?_⟩
      · simp only [Option.elim, Scene.touched, hagent, Option.map_some]
      · split
        · exact .inl rfl
        · exact .inr rfl

theorem moveTo_touched (s : Settings) (scene : Scene H) :
    (moveTo s scene).2 = (step? s scene).elim scene scene.touched ∧
      (step? s scene ≠ none → (moveTo s scene).1 = .value .success ∨
        (moveTo s scene).1 = .value .running) := by
  have hstill : aim? s scene = none → step? s scene = none := by
    intro h
    rw [step?, h, Option.bind_none]
  unfold moveTo
  split
  · next id hid =>
    cases hworld : scene.world with
    | none =>
      rw [hstill (by rw [aim?, hid, hworld]; rfl)]
      exact ⟨rfl, fun hne => absurd rfl hne⟩
    | some world =>
      have haim : aim? s scene = H.locate? world id := by rw [aim?, hid, hworld]; rfl
      dsimp only
      split
      · next place hplace => exact approach_touched (haim.trans hplace)
      · next hplace =>
        rw [hstill (haim.trans hplace)]
        exact ⟨rfl, fun hne => absurd rfl hne⟩
  · next place hid htarget => exact approach_touched (by rw [aim?, hid]; exact htarget)
  · next hid htarget =>
    rw [hstill (by rw [aim?, hid]; exact htarget)]
    exact ⟨rfl, fun hne => absurd rfl hne⟩

theorem attack_touched (s : Settings) (scene : Scene H) :
    (attack s scene).2 =
        (reach? s scene H.entity? s.targetId fun id => .damage id s.damage).elim scene
          scene.touched ∧
      ((attack s scene).1 = .value .success ↔
        reach? s scene H.entity? s.targetId (fun id => .damage id s.damage) ≠ none) := by
  unfold attack reach?
  cases s.targetId with
  | none => exact ⟨rfl, iff_of_false nofun fun hne => hne rfl⟩
  | some id =>
    cases hagent : scene.agent with
    | none => exact ⟨rfl, iff_of_false nofun fun hne => hne rfl⟩
    | some agent =>
      cases hworld : scene.world with
      | none => exact ⟨rfl, iff_of_false nofun fun hne => hne rfl⟩
      | some world =>
        simp only [Option.bind_some]
        cases H.entity? world id with
        | none => exact ⟨rfl, iff_of_false nofun fun hne => hne rfl⟩
        | some place =>
          simp only [Option.bind_some]
          split
          · exact ⟨rfl, iff_of_false nofun fun hne => hne rfl⟩
          · refine ⟨?_, iff_of_true rfl nofun⟩
            simp only [Option.elim, Scene.touched, hagent, hworld, Option.map_some]

theorem interact_touched (s : Settings) (scene : Scene H) :
    (interact s scene).2 =
        (reach? s scene H.object? s.objectId .interact).elim scene scene.touched ∧
      (reach? s scene H.object? s.objectId .interact ≠ none →
        (interact s scene).1 = .value .success ∨ (interact s scene).1 = .value .failure) ∧
      ((interact s scene).1 = .value .success ↔ ∃ id world, scene.world = some world ∧
        reach? s scene H.object? s.objectId .interact = some (.interact id) ∧
        (H.interact world id).1 = true) := by
  unfold interact reach?
  cases s.objectId with
  | none => simp
  | some id =>
    cases hagent : scene.agent with
    | none => simp
    | some agent =>
      cases hworld : scene.world with
      | none => simp
      | some world =>
        simp only [Option.bind_some]
        cases H.object? world id with
        | none => simp
        | some place =>
          simp only [Option.bind_some]
          split
          · simp
          · refine ⟨?_, fun _ => ?_, ?_⟩
            · simp only [Option.elim, Scene.touched, hagent, hworld, Option.map_some]
            · split
              · exact .inl rfl
              · exact .inr rfl
            · simp

theorem perform_touched (hs : s.deed ≠ .custom) (script : Option (Script H Status)) (run : Run)
    (x : Stage H) : (perform s script run x).2.2 = x.touched (touch? s x.scene) := by
  unfold perform touch? Stage.touched
  cases hd : s.deed with
  | custom => exact absurd hd hs
  | moveTo => simp only [(moveTo_touched s x.scene).1]
  | attack => simp only [(attack_touched s x.scene).1]
  | interact => simp only [(interact_touched s x.scene).1]
  | wait => rfl

theorem outcome_perform (script : Option (Script H Status)) (run : Run) (x : Stage H) :
    (s.deed = .moveTo → (perform s script run x).1 = (moveTo s x.scene).1) ∧
      (s.deed = .attack → (perform s script run x).1 = (attack s x.scene).1) ∧
      (s.deed = .interact → (perform s script run x).1 = (interact s x.scene).1) := by
  unfold perform
  refine ⟨fun hd => ?_, fun hd => ?_, fun hd => ?_⟩
  · rw [hd]
  · rw [hd]
  · rw [hd]

/-- An attempt that does something is no error. -/
theorem ne_error_of_touch {o : Outcome Status} (ho : (perform s script run x).1 = o)
    (ht : touch? s x.scene ≠ none) : ¬ (o = .value .error ∨ ∃ e, o = .fault e) := by
  obtain ⟨hmove, hattack, hinteract⟩ := outcome_perform (s := s) script run x
  subst ho
  unfold touch? at ht
  split at ht
  · next hd =>
    rcases (moveTo_touched s x.scene).2 ht with h | h
    · simp [hmove hd, h]
    · simp [hmove hd, h]
  · next hd => simp [hattack hd, (attack_touched s x.scene).2.2 ht]
  · next hd =>
    rcases (interact_touched s x.scene).2.1 ht with h | h
    · simp [hinteract hd, h]
    · simp [hinteract hd, h]
  · exact absurd rfl ht
  · exact absurd rfl ht

/-! ## Audits -/

theorem touch?_audited (s : Settings) (scene : Scene H) :
    touch? s scene.audited = touch? s scene := by
  unfold touch?
  cases s.deed with
  | custom => rfl
  | wait => rfl
  | moveTo =>
    unfold step? aim? Scene.audited
    cases scene.world with
    | none => cases scene.agent <;> rfl
    | some world => cases scene.agent <;> rfl
  | attack | interact =>
    unfold reach? Scene.audited
    cases scene.agent with
    | none => rfl
    | some agent => cases scene.world <;> rfl

theorem approach_audited (s : Settings) (scene : Scene H) (place : Vec2) :
    (approach s scene.audited place).1 = (approach s scene place).1 := by
  unfold approach Scene.audited
  cases scene.agent with
  | none => rfl
  | some agent =>
    simp only [Option.map_some]
    split
    · rfl
    · rfl

theorem moveTo_audited (s : Settings) (scene : Scene H) :
    (moveTo s scene.audited).1 = (moveTo s scene).1 := by
  unfold moveTo
  cases s.targetId with
  | none =>
    cases s.target with
    | none => rfl
    | some place => exact approach_audited s scene place
  | some id =>
    have haudited : scene.audited.world = scene.world.map fun world => (world, []) := rfl
    cases hworld : scene.world with
    | none => simp only [haudited, hworld, Option.map_none]
    | some world =>
      have hlocate : H.audited.locate? (world, []) id = H.locate? world id := rfl
      simp only [haudited, hworld, Option.map_some, hlocate]
      cases H.locate? world id with
      | none => rfl
      | some place => exact approach_audited s scene place

theorem attack_audited (s : Settings) (scene : Scene H) :
    (attack s scene.audited).1 = (attack s scene).1 := by
  unfold attack Scene.audited
  cases s.targetId with
  | none => rfl
  | some id =>
    cases scene.agent with
    | none => rfl
    | some agent =>
      cases scene.world with
      | none => rfl
      | some world =>
        simp only [Option.map_some]
        cases H.entity? world id with
        | none => rfl
        | some place =>
          dsimp only
          split
          · rfl
          · rfl

theorem interact_audited (s : Settings) (scene : Scene H) :
    (interact s scene.audited).1 = (interact s scene).1 := by
  unfold interact Scene.audited
  cases s.objectId with
  | none => rfl
  | some id =>
    cases scene.agent with
    | none => rfl
    | some agent =>
      cases scene.world with
      | none => rfl
      | some world =>
        simp only [Option.map_some]
        cases H.object? world id with
        | none => rfl
        | some place =>
          dsimp only
          split
          · rfl
          · rfl

theorem outcome_audited (hs : s.deed ≠ .custom) (script : Option (Script H Status))
    (script' : Option (Script H.audited Status)) (run : Run) (x : Stage H) :
    (perform s script' run x.audited).1 = (perform s script run x).1 := by
  obtain ⟨hmove, hattack, hinteract⟩ := outcome_perform (s := s) script run x
  obtain ⟨hmove', hattack', hinteract'⟩ := outcome_perform (s := s) script' run x.audited
  cases hd : s.deed with
  | custom => exact absurd hd hs
  | moveTo => exact (hmove' hd).trans ((moveTo_audited s x.scene).trans (hmove hd).symm)
  | attack => exact (hattack' hd).trans ((attack_audited s x.scene).trans (hattack hd).symm)
  | interact => exact (hinteract' hd).trans ((interact_audited s x.scene).trans (hinteract hd).symm)
  | wait =>
    unfold perform
    rw [hd]
    rfl

/-- What an attempt does is done once. -/
theorem touches_touched (s : Settings) (scene : Scene H) :
    ((touch? s scene).elim scene.audited scene.audited.touched).touches =
      (touch? s scene).toList := by
  cases ht : touch? s scene with
  | none => exact scene.touches_audited
  | some touch =>
    unfold touch? at ht
    split at ht
    · obtain ⟨agent, place, hagent, -, -, rfl⟩ := step?_eq_some_iff.1 ht
      cases hworld : scene.world with
      | none => simp [Scene.touched, Scene.touches, Scene.audited, hagent, hworld]
      | some world => simp [Scene.touched, Scene.touches, Scene.audited, hagent, hworld]
    · obtain ⟨id, -, ⟨agent, world, place, hagent, hworld, -⟩, rfl⟩ := reach?_eq_some_iff.1 ht
      simp [Scene.touched, Scene.touches, Scene.audited, hagent, hworld]
    · obtain ⟨id, -, ⟨agent, world, place, hagent, hworld, -⟩, rfl⟩ := reach?_eq_some_iff.1 ht
      simp [Scene.touched, Scene.touches, Scene.audited, hagent, hworld]
    · cases ht
    · cases ht

/-! ## Ticks -/

theorem attempted_of_delayed (s : Settings) (script : Option (Script H Status)) (run : Run)
    (x : Stage H) (h : run.delayed x.now = false) :
    attempted s script run x = some (perform s script { run with nextAttempt := none } x).1 := by
  rw [attempted, h, if_neg Bool.false_ne_true]

/-- An audit changes nothing of what an attempt comes to. -/
theorem attempted_audited (hs : s.deed ≠ .custom) (script : Option (Script H Status))
    (script' : Option (Script H.audited Status)) (run : Run) (x : Stage H) :
    attempted s script' run x.audited = attempted s script run x := by
  unfold attempted
  rw [outcome_audited hs script script']
  rfl

theorem touches_tick (hs : s.deed ≠ .custom) (h : run.delayed x.now = false)
    (script : Option (Script H.audited Status)) :
    (tick s script run x.audited).stage.scene.touches = (touch? s x.scene).toList := by
  have hmade := attempted_of_delayed s script run x.audited h
  rw [(tick_of_attempted hmade).2.1, perform_touched hs, ← touches_touched]
  unfold Stage.touched Stage.audited
  rw [touch?_audited]

/-- What is done in a tick of a usual action, if anything is: nothing else is changed by the tick, and
in an audit it shows up once. -/
structure Effect (s : Settings) (script : Option (Script H Status)) (run : Run) (x : Stage H)
    (done : Option Touch) : Prop where
  frame : (tick s script run x).stage = x.touched done
  once : ∀ script', attempted s script' run x.audited = attempted s script run x ∧
    (tick s script' run x.audited).stage.scene.touches = done.toList
  idle : attempted s script run x = none → done = none
  harmless : ∀ o, attempted s script run x = some o → o = .value .error ∨ (∃ e, o = .fault e) →
    done = none
  /-- An agent is moved if it has not arrived at its aim, and then the attempt succeeds or goes on. -/
  moveTo : s.deed = .moveTo →
    (∀ touch, done = some touch ↔ attempted s script run x ≠ none ∧
      ∃ agent place, x.scene.agent = some agent ∧ aim? s x.scene = some place ∧
        ¬ (H.position agent).distance place ≤ s.arrivalDistance ∧
        touch = .move ((H.position agent).stepToward place s.speed)) ∧
    (done ≠ none → attempted s script run x = some (.value .success) ∨
      attempted s script run x = some (.value .running))
  /-- An entity takes the damage if it is there and in reach, which is when the attempt succeeds. -/
  attack : s.deed = .attack →
    (∀ touch, done = some touch ↔ attempted s script run x ≠ none ∧
      ∃ id, s.targetId = some id ∧ Reaches s x.scene H.entity? id ∧ touch = .damage id s.damage) ∧
    (attempted s script run x = some (.value .success) ↔ done ≠ none)
  /-- An object is used if it is there and in reach, and the attempt succeeds if that was of use. -/
  interact : s.deed = .interact →
    (∀ touch, done = some touch ↔ attempted s script run x ≠ none ∧
      ∃ id, s.objectId = some id ∧ Reaches s x.scene H.object? id ∧ touch = .interact id) ∧
    (attempted s script run x = some (.value .success) ↔ ∃ id world,
      x.scene.world = some world ∧ done = some (.interact id) ∧ (H.interact world id).1 = true)
  wait : s.deed = .wait → done = none

theorem effect_of_delay (h : run.delayed x.now = true) : Effect s script run x none := by
  have hnone : attempted s script run x = none := attempted_eq_none_iff.2 h
  have haudited : ∀ script, attempted s script run x.audited = none :=
    fun _ => attempted_eq_none_iff.2 h
  exact {
    frame := by
      rw [tick_of_attempted_none hnone]
      rfl
    once := fun script' => by
      rw [tick_of_attempted_none (haudited script'), haudited, hnone]
      exact ⟨rfl, x.scene.touches_audited⟩
    idle := fun _ => rfl
    harmless := fun _ _ _ => rfl
    moveTo := fun _ => by simp [hnone]
    attack := fun _ => by simp [hnone]
    interact := fun _ => by simp [hnone]
    wait := fun _ => rfl }

theorem effect_of_attempt (hs : s.deed ≠ .custom) (h : run.delayed x.now = false) :
    Effect s script run x (touch? s x.scene) := by
  have hmade := attempted_of_delayed s script run x h
  obtain ⟨hmove, hattack, hinteract⟩ :=
    outcome_perform (s := s) script { run with nextAttempt := none } x
  exact {
    frame := by rw [(tick_of_attempted hmade).2.1, perform_touched hs]
    once := fun script' => ⟨attempted_audited hs script script' run x, touches_tick hs h script'⟩
    idle := fun hnone => nomatch hmade.symm.trans hnone
    harmless := fun o ho herror => by
      rw [hmade, Option.some.injEq] at ho
      by_contra ht
      exact ne_error_of_touch ho ht herror
    moveTo := fun hd => by
      have htouch : touch? s x.scene = step? s x.scene := by rw [touch?, hd]
      rw [hmade, htouch, hmove hd]
      refine ⟨fun touch => ?_, fun ht => ?_⟩
      · rw [step?_eq_some_iff]
        exact (and_iff_right nofun).symm
      · exact ((moveTo_touched s x.scene).2 ht).imp (congrArg some) (congrArg some)
    attack := fun hd => by
      have htouch : touch? s x.scene =
          reach? s x.scene H.entity? s.targetId fun id => .damage id s.damage := by
        rw [touch?, hd]
      rw [hmade, htouch, hattack hd, Option.some.injEq]
      refine ⟨fun touch => ?_, (attack_touched s x.scene).2⟩
      rw [reach?_eq_some_iff]
      exact (and_iff_right nofun).symm
    interact := fun hd => by
      have htouch : touch? s x.scene = reach? s x.scene H.object? s.objectId .interact := by
        rw [touch?, hd]
      rw [hmade, htouch, hinteract hd, Option.some.injEq]
      refine ⟨fun touch => ?_, (interact_touched s x.scene).2.2⟩
      rw [reach?_eq_some_iff]
      exact (and_iff_right nofun).symm
    wait := fun hd => by rw [touch?, hd] }

/-- A tick of a usual action changes nothing but an agent or a world, and that by one thing done once,
if at all. Without an attempt and with one that is an error, nothing is done. -/
theorem tick_touches (hs : s.deed ≠ .custom) (script : Option (Script H Status)) (run : Run)
    (x : Stage H) : ∃ done : Option Touch, Effect s script run x done := by
  cases hd : run.delayed x.now with
  | true => exact ⟨none, effect_of_delay hd⟩
  | false => exact ⟨_, effect_of_attempt hs hd⟩

section Worn

/-- An action that tries a lever twice, the lever being at the edge of its reach. -/
def pulling : Settings where
  deed := .interact
  objectId := some "lever"
  retryCount := 1

/-- A stage with an agent, and a lever that is worn out. -/
def corner : Stage Rehearsal.host :=
  let lever : Rehearsal.Object := { position := ⟨0, 1.5⟩, uses := 0 }
  { clock 7 with
    scene := { (clock 7).scene with
      agent := some {}
      world := some { objects := Dict.From.insert .nil "lever" lever } } }

/-- The lever is used once and of no use, which is reported as running. Before the delay has passed,
it is not used again. -/
theorem tick_touches_worn :
    (tick pulling none {} corner.audited).stage.scene.touches = [.interact "lever"] ∧
      attempted pulling none {} corner = some (.value .failure) ∧
      (tick pulling none {} corner).outcome = .ok .running ∧
      (tick pulling none { nextAttempt := some 8 } corner.audited).stage.scene.touches = [] := by
  have hdeed : pulling.deed ≠ .custom := by decide
  have hreach : Reaches pulling corner.scene Rehearsal.host.object? "lever" :=
    ⟨{}, _, ⟨0, 1.5⟩, rfl, rfl, rfl, by decide +kernel⟩
  have hmade := attempted_of_delayed pulling none {} corner rfl
  obtain ⟨done, heffect⟩ := tick_touches hdeed none {} corner
  obtain ⟨htouch, hsuccess⟩ := heffect.interact rfl
  have hdone : done = some (.interact "lever") :=
    (htouch _).2 ⟨by rw [hmade]; nofun, "lever", rfl, hreach, rfl⟩
  have hfailed : attempted pulling none {} corner = some (.value .failure) := by
    have hreached : reach? pulling corner.scene Rehearsal.host.object? (some "lever") .interact ≠
        none := by
      rw [reach?_eq_some_iff.2 ⟨"lever", rfl, hreach, rfl⟩]
      nofun
    rcases (interact_touched pulling corner.scene).2.1 hreached with h | h
    · obtain ⟨id, world, hworld, ht, hused⟩ := hsuccess.1 (hmade.trans (congrArg some h))
      rw [hdone] at ht
      cases ht
      cases hworld
      cases hused
    · exact hmade.trans (congrArg some h)
  refine ⟨?_, hfailed, (tick_of_attempted hfailed).1, ?_⟩
  · rw [(heffect.once none).2, hdone]
    rfl
  · obtain ⟨done, heffect⟩ := tick_touches hdeed none { nextAttempt := some 8 } corner
    rw [(heffect.once none).2, heffect.idle (attempted_eq_none_iff.2 rfl)]
    rfl

end Worn

end Action

end Conduct
