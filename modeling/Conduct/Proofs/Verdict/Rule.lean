import Conduct.Control.Parallel
import Mathlib.Algebra.Order.Floor.Div

/-! The rule behind the verdicts of a parallel.

The rule judges children that have all succeeded or failed. As long as some are unfinished, there are
several counts that they may come to. Main statement: `decide_eq_some_iff`, a verdict is reached
exactly when the rule gives it for all of these counts and nothing has to be waited for.
-/

set_option autoImplicit false

namespace Conduct.Parallel

variable {s : Settings} {v : Status} {total success failure : Nat}

/-- The verdict on children that have all finished, of which so many succeeded and failed. -/
def Settings.rule (s : Settings) (success failure : Nat) : Status :=
  match s.policy with
  | .requireAll => if failure = 0 then .success else .failure
  | .requireOne => if 0 < success then .success else .failure
  | .requireMajority => if (success + failure) ⌈/⌉ 2 ≤ success then .success else .failure
  | .custom =>
    if s.successThreshold.getD (success + failure) ≤ success ∧ failure ≤ s.failureThreshold then
      .success
    else .failure

/-- There is no verdict before every child has finished. -/
def Settings.Waits (s : Settings) : Prop := s.policy = .custom ∨ s.earlyExit = false

/-- However the unfinished children end, the rule gives this verdict. -/
def Settings.Certain (s : Settings) (total success failure : Nat) (v : Status) : Prop :=
  ∀ a b, success ≤ a → failure ≤ b → a + b = total → s.rule a b = v

/-- How many successes the policy asks for. -/
def Settings.quota (s : Settings) (total : Nat) : Nat :=
  match s.policy with
  | .requireAll => total
  | .requireOne => 1
  | .requireMajority => (total + 1) / 2
  | .custom => s.successThreshold.getD total

theorem majority_le_iff (n k : Nat) : n ⌈/⌉ 2 ≤ k ↔ (n + 1) / 2 ≤ k := by
  have hceil : n ⌈/⌉ 2 ≤ k ↔ n ≤ 2 * k := ceilDiv_le_iff_le_mul (by omega)
  rw [hceil]
  omega

/-! ## When the verdict is certain -/

/-- But for the custom policy, enough successes are all that is asked for. -/
theorem rule_eq_quota (hp : s.policy ≠ .custom) {a b : Nat} (hab : a + b = total) :
    s.rule a b = if s.quota total ≤ a then .success else .failure := by
  unfold Settings.rule Settings.quota
  cases h : s.policy with
  | requireAll =>
    have hiff : b = 0 ↔ total ≤ a := by omega
    simp only [hiff]
  | requireOne =>
    have hiff : 0 < a ↔ 1 ≤ a := by omega
    simp only [hiff]
  | requireMajority => simp only [hab, majority_le_iff]
  | custom => exact absurd h hp

/-- The worst that may come is that all unfinished children fail. -/
theorem certain_success_iff (hp : s.policy ≠ .custom) (hle : success + failure ≤ total) :
    s.Certain total success failure .success ↔ s.quota total ≤ success := by
  constructor
  · intro h
    have hall : success + (total - success) = total := by omega
    have hworst := h success (total - success) (by omega) (by omega) hall
    rw [rule_eq_quota hp hall] at hworst
    by_contra hs
    rw [if_neg hs] at hworst
    cases hworst
  · intro hs a b ha _ hab
    have hquota : s.quota total ≤ a := by omega
    rw [rule_eq_quota hp hab, if_pos hquota]

/-- The best that may come is that all unfinished children succeed. -/
theorem certain_failure_iff (hp : s.policy ≠ .custom) (hle : success + failure ≤ total) :
    s.Certain total success failure .failure ↔ total - failure < s.quota total := by
  constructor
  · intro h
    have hall : total - failure + failure = total := by omega
    have hbest := h (total - failure) failure (by omega) (by omega) hall
    rw [rule_eq_quota hp hall] at hbest
    by_contra hf
    have hquota : s.quota total ≤ total - failure := by omega
    rw [if_pos hquota] at hbest
    cases hbest
  · intro hf a b _ hb hab
    have hquota : ¬ s.quota total ≤ a := by omega
    rw [rule_eq_quota hp hab, if_neg hquota]

/-- Once every child has finished, there is one way left in which they may end. -/
theorem certain_of_finished (h : success + failure = total) :
    s.Certain total success failure v ↔ s.rule success failure = v := by
  constructor
  · intro hc
    exact hc success failure (Nat.le_refl _) (Nat.le_refl _) h
  · intro hr a b ha hb hab
    have hsuccess : a = success := by omega
    have hfailure : b = failure := by omega
    rw [hsuccess, hfailure, hr]

/-! ## Verdicts -/

/-- Where nothing is waited for, a verdict depends on the quota alone. -/
theorem decide_eq_quota (hw : ¬ s.Waits) (hle : success + failure ≤ total) :
    decide s total success failure =
      if s.quota total ≤ success then some .success
      else if total - failure < s.quota total then some .failure
      else none := by
  have hearly : s.earlyExit = true := by
    cases he : s.earlyExit with
    | true => rfl
    | false => exact absurd (.inr he) hw
  unfold decide Settings.quota
  cases hp : s.policy with
  | requireAll =>
    simp only [hearly, Bool.true_or, and_true]
    by_cases hf : 0 < failure
    · rw [if_pos hf, if_neg (by omega), if_pos (by omega)]
    · by_cases hs : success = total
      · rw [if_neg hf, if_pos hs, if_pos (by omega)]
      · rw [if_neg hf, if_neg hs, if_neg (by omega), if_neg (by omega)]
  | requireOne =>
    simp only [hearly, Bool.true_or, and_true]
    by_cases hs : 0 < success
    · rw [if_pos hs, if_pos (by omega)]
    · by_cases hr : total - success - failure = 0
      · rw [if_neg hs, if_pos hr, if_neg (by omega), if_pos (by omega)]
      · rw [if_neg hs, if_neg hr, if_neg (by omega), if_neg (by omega)]
  | requireMajority =>
    have hmost : success + (total - success - failure) = total - failure := by omega
    simp only [hearly, Bool.true_or, and_true, hmost]
  | custom => exact absurd (.inl hp) hw

/-- Once every child has finished, the verdict is that of the rule. -/
theorem decide_of_finished (s : Settings) (h : success + failure = total) :
    decide s total success failure = some (s.rule success failure) := by
  have hrest : total - success - failure = 0 := by omega
  unfold decide Settings.rule
  cases hp : s.policy with
  | requireAll =>
    simp only [hrest, beq_self_eq_true, Bool.or_true, and_true]
    by_cases hf : failure = 0
    · rw [if_neg (by omega), if_pos (by omega), if_pos hf]
    · rw [if_pos (by omega), if_neg hf]
  | requireOne =>
    simp only [hrest, beq_self_eq_true, Bool.or_true, and_true]
    by_cases hs : 0 < success
    · rw [if_pos hs, if_pos hs]
    · rw [if_neg hs, if_neg hs, if_pos trivial]
  | requireMajority =>
    simp only [hrest, beq_self_eq_true, Bool.or_true, and_true, h, majority_le_iff, Nat.add_zero]
    by_cases hs : (total + 1) / 2 ≤ success
    · rw [if_pos hs, if_pos hs]
    · rw [if_neg hs, if_neg hs, if_pos (by omega)]
  | custom =>
    simp only [hrest, Nat.lt_irrefl, if_false, h]
    split
    · rfl
    · rfl

/-- Settings that wait reach no verdict while a child is unfinished. -/
theorem decide_of_waits (hw : s.Waits) (h : success + failure < total) :
    decide s total success failure = none := by
  have hrest : total - success - failure ≠ 0 := by omega
  by_cases hp : s.policy = .custom
  · unfold decide
    simp only [hp]
    rw [if_pos (by omega)]
  · have hearly : s.earlyExit = false := hw.resolve_left hp
    unfold decide
    simp only [hearly, Bool.false_or, beq_iff_eq, hrest, and_false, if_false]
    cases h : s.policy with
    | requireAll => exact if_neg (by omega)
    | requireOne => rfl
    | requireMajority => rfl
    | custom => exact absurd h hp

/-- A verdict is reached exactly when it is certain and nothing has to be waited for. -/
theorem decide_eq_some_iff (s : Settings) (hle : success + failure ≤ total)
    (hv : v = .success ∨ v = .failure) :
    decide s total success failure = some v ↔
      (s.Waits → success + failure = total) ∧ s.Certain total success failure v := by
  by_cases hall : success + failure = total
  · rw [decide_of_finished s hall, certain_of_finished hall, Option.some.injEq]
    exact ⟨fun h => ⟨fun _ => hall, h⟩, fun h => h.2⟩
  · by_cases hw : s.Waits
    · rw [decide_of_waits hw (by omega)]
      exact ⟨nofun, fun h => absurd (h.1 hw) hall⟩
    · have hp : s.policy ≠ .custom := fun h => hw (.inl h)
      have hcertain : s.Certain total success failure v ↔ decide s total success failure = some v := by
        rw [decide_eq_quota hw hle]
        rcases hv with rfl | rfl
        · rw [certain_success_iff hp hle]
          by_cases hs : s.quota total ≤ success
          · simp [hs]
          · by_cases hf : total - failure < s.quota total
            · simp [hs, hf]
            · simp [hs, hf]
        · rw [certain_failure_iff hp hle]
          by_cases hs : s.quota total ≤ success
          · have hf : ¬ total - failure < s.quota total := by omega
            simp [hs, hf]
          · by_cases hf : total - failure < s.quota total
            · simp [hs, hf]
            · simp [hs, hf]
      rw [hcertain]
      exact ⟨fun h => ⟨fun hw' => absurd hw' hw, h⟩, fun h => h.2⟩

theorem decide_cases (s : Settings) (total success failure : Nat) :
    decide s total success failure = none ∨ decide s total success failure = some .success ∨
      decide s total success failure = some .failure := by
  unfold decide
  dsimp only
  split
  all_goals repeat' split
  all_goals simp

end Conduct.Parallel
