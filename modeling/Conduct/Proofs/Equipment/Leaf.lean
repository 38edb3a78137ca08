import Conduct.Catalog

/-! Leaves of which nothing is found wrong.

A leaf that has the script it names, and whose path was read, raises no message of its own. Main
statements: `Action.script_of_message` and `Condition.ask_ne_message`.
-/

set_option autoImplicit false

namespace Conduct

variable {H : Host}

namespace Action

variable {s : Settings} {script : Option (Script H Status)} {run : Run} {scene : Scene H}
  {stage : Stage H}

theorem approach_ne_message (s : Settings) (scene : Scene H) (target : Vec2) (text : String) :
    (approach s scene target).1 ≠ .fault (.message text) := by
  unfold approach
  split
  · exact nofun
  · dsimp only
    split
    · exact nofun
    · exact nofun

theorem moveTo_ne_message (hs : s.targetId ≠ none ∨ s.target ≠ none) (text : String) :
    (moveTo s scene).1 ≠ .fault (.message text) := by
  unfold moveTo
  split
  · split
    · exact nofun
    · split
      · exact approach_ne_message s scene _ text
      · exact nofun
  · exact approach_ne_message s scene _ text
  · next hid hplace =>
    rcases hs with hs | hs
    · exact absurd hid hs
    · exact absurd hplace hs

theorem attack_ne_message (hs : s.targetId ≠ none) (text : String) :
    (attack s scene).1 ≠ .fault (.message text) := by
  unfold attack
  split
  · next hid => exact absurd hid hs
  · exact nofun
  · exact nofun
  · split
    · exact nofun
    · split
      · exact nofun
      · exact nofun

theorem interact_ne_message (hs : s.objectId ≠ none) (text : String) :
    (interact s scene).1 ≠ .fault (.message text) := by
  unfold interact
  split
  · next hid => exact absurd hid hs
  · exact nofun
  · exact nofun
  · split
    · exact nofun
    · split
      · exact nofun
      · exact nofun

/-- In an action without findings every message is one of its script. -/
theorem script_of_message {text : String} (hfindings : findings s = [])
    (hscript : s.deed = .custom → s.script ≠ none → script ≠ none)
    (h : (perform s script run stage).1 = .fault (.message text)) :
    ∃ f, script = some f ∧ (stage.run f).1 = .fault (.message text) := by
  unfold perform at h
  unfold findings at hfindings
  cases hd : s.deed with
  | custom =>
    simp only [hd] at h hfindings hscript
    cases script with
    | some f => exact ⟨f, rfl, h⟩
    | none =>
      cases hname : s.script with
      | none =>
        rw [hname] at hfindings
        cases hfindings
      | some name =>
        rw [hname] at hscript
        exact absurd rfl (hscript trivial (Option.some_ne_none name))
  | moveTo =>
    simp only [hd] at h hfindings
    refine absurd h (moveTo_ne_message ?_ text)
    cases hid : s.targetId with
    | some id => exact .inl (Option.some_ne_none id)
    | none =>
      cases hplace : s.target with
      | some place => exact .inr (Option.some_ne_none place)
      | none =>
        rw [hid, hplace] at hfindings
        cases hfindings
  | attack =>
    simp only [hd] at h hfindings
    refine absurd h (attack_ne_message ?_ text)
    rintro hid
    rw [hid] at hfindings
    cases hfindings
  | interact =>
    simp only [hd] at h hfindings
    refine absurd h (interact_ne_message ?_ text)
    rintro hid
    rw [hid] at hfindings
    cases hfindings
  | wait =>
    simp only [hd] at h
    cases h

end Action

namespace Condition

variable {s : Settings} {path : PropertyPath} {scene : Scene H}

theorem compare_ne_message (s : Settings) (value : Option Json) (text : String) :
    compare s value ≠ .error (.message text) := by
  unfold compare
  split
  · exact nofun
  · next value =>
    unfold Comparison.holds
    intro h
    split at h
    · cases h
    · split at h
      · cases h
      · cases h
      · cases h

theorem script_ne_none (hfindings : findings s path = []) (hs : s.subject = .custom) :
    s.script ≠ none := by
  intro hnone
  unfold findings at hfindings
  simp only [hs, hnone] at hfindings
  cases hfindings

theorem ask_ne_message (hfindings : findings s path = [])
    (hpath : path = [] ∨ ∃ name rest, path = .key name :: rest) (hs : s.subject ≠ .custom)
    (text : String) : ask s path scene ≠ .error (.message text) := by
  unfold ask
  unfold findings at hfindings
  cases hsubject : s.subject with
  | custom => exact absurd hsubject hs
  | distance => exact compare_ne_message s _ text
  | health => exact compare_ne_message s _ text
  | «variable» =>
    cases hname : s.variableName with
    | some name => exact compare_ne_message s _ text
    | none =>
      simp only [hsubject, hname] at hfindings
      cases hfindings
  | property =>
    rcases hpath with rfl | ⟨name, rest, rfl⟩
    · simp only [hsubject] at hfindings
      cases hfindings
    · exact compare_ne_message s _ text

end Condition

end Conduct
