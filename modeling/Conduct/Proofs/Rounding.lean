import Conduct.Decimal.Shortest
import Mathlib.Algebra.Order.Archimedean.Basic
import Mathlib.Algebra.Order.Field.Power
import Mathlib.Tactic.Linarith
import Mathlib.Tactic.Positivity
import Mathlib.Tactic.Ring

/-! What the shortest decimal of a float is.

Numbers and decimals stand for rationals here, so that the interval of what rounds to a number can be
told from its ends. What is computed in whole numbers are comparisons with these ends. The search finds
a grid in time since one grid is fine enough to have a point in every such interval, and starts above
all grids that have one. Main statement: `Binary.shortest_ofFloat`.
-/

set_option autoImplicit false

namespace Conduct.Decimal

/-- Powers with exponents of either sign as fractions of powers. -/
theorem zpow_eq_div (base : ℚ) (a : ℤ) :
    base ^ a = base ^ a.toNat / base ^ (-a).toNat := by
  obtain ⟨n, rfl | rfl⟩ := a.eq_nat_or_neg
  · simp
  · simp

theorem natCast_zpow_le_iff {m n : ℕ} (hm : 0 < m) (hn : 0 < n) (a c : ℤ) :
    (m : ℚ) ^ a ≤ n ^ c ↔ m ^ a.toNat * n ^ (-c).toNat ≤ n ^ c.toNat * m ^ (-a).toNat := by
  rw [zpow_eq_div, zpow_eq_div (n : ℚ), div_le_div_iff₀ (by positivity) (by positivity)]
  exact_mod_cast Iff.rfl

namespace Binary

variable {b : Binary} {k : ℤ} {n : ℕ} {x y : ℚ}

def value (b : Binary) : ℚ := b.m * 2 ^ b.q

/-- A quarter of the last place. -/
def quarter (b : Binary) : ℚ := 2 ^ (b.q - 2)

/-- The middle of the way to the next lower number. -/
def low (b : Binary) : ℚ := b.value - (if b.narrow then 1 else 2) * b.quarter

/-- The middle of the way to the next higher number. -/
def high (b : Binary) : ℚ := b.value + 2 * b.quarter

/-- The rational is rounded to the number: it is nearer to it than to any other number, or as near
where the number has an even significand. -/
def Attracts (b : Binary) (x : ℚ) : Prop :=
  if b.closed then b.low ≤ x ∧ x ≤ b.high else b.low < x ∧ x < b.high

theorem quarter_pos (b : Binary) : 0 < b.quarter := by
  unfold quarter
  positivity

theorem value_eq (b : Binary) : b.value = (4 * b.m : ℕ) * b.quarter := by
  have hquarter : b.quarter = 2 ^ b.q / 4 := by
    rw [quarter, zpow_sub₀ (by norm_num)]
    norm_num
  rw [value, hquarter]
  push_cast
  ring

theorem low_lt_value (b : Binary) : b.low < b.value := by
  have := b.quarter_pos
  unfold low
  split
  · linarith
  · linarith

theorem value_lt_high (b : Binary) : b.value < b.high := by
  have := b.quarter_pos
  unfold high
  linarith

theorem four_quarters_le (hm : 0 < b.m) : 4 * b.quarter ≤ b.value := by
  have hfour : (4 : ℚ) ≤ (4 * b.m : ℕ) := by exact_mod_cast (by omega : 4 ≤ 4 * b.m)
  rw [value_eq]
  exact mul_le_mul_of_nonneg_right hfour b.quarter_pos.le

theorem low_pos (hm : 0 < b.m) : 0 < b.low := by
  have hquarter := b.quarter_pos
  have hvalue := four_quarters_le hm
  unfold low
  split
  · linarith
  · linarith

theorem Attracts.low_le (h : b.Attracts x) : b.low ≤ x := by
  unfold Attracts at h
  split at h
  · exact h.1
  · exact h.1.le

theorem Attracts.le_high (h : b.Attracts x) : x ≤ b.high := by
  unfold Attracts at h
  split at h
  · exact h.2
  · exact h.2.le

theorem attracts_of_lt (hlow : b.low < x) (hhigh : x < b.high) : b.Attracts x := by
  unfold Attracts
  split
  · exact ⟨hlow.le, hhigh.le⟩
  · exact ⟨hlow, hhigh⟩

/-- What lies between the number and something that is rounded to it is rounded to it. -/
theorem Attracts.above (h : b.Attracts x) (hxy : x ≤ y) (hy : y ≤ b.value) : b.Attracts y := by
  have hhigh := b.value_lt_high
  unfold Attracts at h ⊢
  split at h
  · next hclosed =>
    rw [if_pos hclosed]
    exact ⟨h.1.trans hxy, hy.trans hhigh.le⟩
  · next hopen =>
    rw [if_neg hopen]
    exact ⟨h.1.trans_le hxy, hy.trans_lt hhigh⟩

theorem Attracts.below (h : b.Attracts x) (hyx : y ≤ x) (hy : b.value ≤ y) : b.Attracts y := by
  have hlow := b.low_lt_value
  unfold Attracts at h ⊢
  split at h
  · next hclosed =>
    rw [if_pos hclosed]
    exact ⟨hlow.le.trans hy, hyx.trans h.2⟩
  · next hopen =>
    rw [if_neg hopen]
    exact ⟨hlow.trans_le hy, hyx.trans_lt h.2⟩

/-! ## In whole numbers -/

/-- What everything is multiplied by on the grid to become whole. -/
def unit (b : Binary) (k : ℤ) : ℚ := b.quarterDen * scaleUp k

theorem unit_pos (b : Binary) (k : ℤ) : 0 < b.unit k := by
  have hden : 0 < b.quarterDen := Nat.pow_pos (by decide)
  have hup : 0 < scaleUp k := Nat.pow_pos (by decide)
  unfold unit
  positivity

theorem cast_quarters (b : Binary) (k : ℤ) (count : ℕ) :
    ((count * (b.quarterNum * scaleUp k) : ℕ) : ℚ) = count * b.quarter * b.unit k := by
  have hquarter : b.quarter * b.quarterDen = b.quarterNum := by
    rw [quarter, zpow_eq_div, neg_sub, quarterNum, quarterDen, Nat.pow_eq, Nat.pow_eq,
      Nat.cast_pow, Nat.cast_pow, Nat.cast_ofNat]
    exact div_mul_cancel₀ _ (pow_ne_zero _ two_ne_zero)
  push_cast
  rw [unit, ← hquarter]
  ring

theorem cast_point (b : Binary) (k : ℤ) (n : ℕ) :
    ((n * scaleDown k * b.quarterDen : ℕ) : ℚ) = n * 10 ^ k * b.unit k := by
  have hscale : (10 : ℚ) ^ k * scaleUp k = scaleDown k := by
    rw [zpow_eq_div, scaleUp, scaleDown, Nat.pow_eq, Nat.pow_eq, Nat.cast_pow, Nat.cast_pow,
      Nat.cast_ofNat]
    exact div_mul_cancel₀ _ (pow_ne_zero _ (by norm_num : (10 : ℚ) ≠ 0))
  push_cast
  rw [unit, ← hscale]
  ring

theorem quarters_le_point {count : ℕ} :
    count * (b.quarterNum * scaleUp k) ≤ n * scaleDown k * b.quarterDen ↔
      count * b.quarter ≤ n * 10 ^ k := by
  rw [← Nat.cast_le (α := ℚ), cast_quarters, cast_point, mul_le_mul_iff_left₀ (b.unit_pos k)]

theorem point_le_quarters {count : ℕ} :
    n * scaleDown k * b.quarterDen ≤ count * (b.quarterNum * scaleUp k) ↔
      (n * 10 ^ k : ℚ) ≤ count * b.quarter := by
  rw [← Nat.cast_le (α := ℚ), cast_quarters, cast_point, mul_le_mul_iff_left₀ (b.unit_pos k)]

theorem cast_low (hm : 0 < b.m) :
    ((4 * b.m - if b.narrow then 1 else 2 : ℕ) : ℚ) * b.quarter = b.low := by
  rw [low, value_eq]
  split
  · rw [Nat.cast_sub (by omega)]
    push_cast
    ring
  · rw [Nat.cast_sub (by omega)]
    push_cast
    ring

theorem cast_high (b : Binary) : ((4 * b.m + 2 : ℕ) : ℚ) * b.quarter = b.high := by
  rw [high, value_eq]
  push_cast
  ring

theorem admits_iff (hm : 0 < b.m) : b.admits k n = true ↔ b.Attracts (n * 10 ^ k) := by
  unfold admits Attracts
  rw [← cast_low hm, ← cast_high]
  cases b.closed with
  | true =>
    simp only [if_true, Bool.and_eq_true, decide_eq_true_eq]
    exact and_congr quarters_le_point point_le_quarters
  | false =>
    simp only [Bool.false_eq_true, if_false, Bool.and_eq_true, decide_eq_true_eq]
    exact and_congr (lt_iff_lt_of_le_iff_le point_le_quarters)
      (lt_iff_lt_of_le_iff_le quarters_le_point)

/-! ## The neighbours on a grid -/

theorem floorOn_le (b : Binary) (k : ℤ) : (b.floorOn k : ℚ) * 10 ^ k ≤ b.value := by
  rw [value_eq, ← point_le_quarters, mul_assoc (b.floorOn k)]
  exact Nat.div_mul_le_self _ _

theorem lt_floorOn_succ (b : Binary) (k : ℤ) :
    b.value < ((b.floorOn k + 1 : ℕ) : ℚ) * 10 ^ k := by
  have hpos : 0 < scaleDown k * b.quarterDen :=
    Nat.mul_pos (Nat.pow_pos (by decide)) (Nat.pow_pos (by decide))
  rw [value_eq, ← not_le, ← point_le_quarters, not_le, mul_assoc (b.floorOn k + 1)]
  exact Nat.lt_mul_of_div_lt (Nat.lt_succ_self _) hpos

theorem prefersUpper_iff {d : ℕ} : b.prefersUpper k d = true ↔
    ((2 * d + 1 : ℕ) : ℚ) * 10 ^ k < 2 * b.value ∨
      ((2 * d + 1 : ℕ) : ℚ) * 10 ^ k = 2 * b.value ∧ d % 2 = 1 := by
  have htwice : 2 * b.value = ((2 * (4 * b.m) : ℕ) : ℚ) * b.quarter := by
    rw [value_eq]
    push_cast
    ring
  have hle : 2 * (4 * b.m * (b.quarterNum * scaleUp k)) ≤
      (2 * d + 1) * (scaleDown k * b.quarterDen) ↔
        2 * b.value ≤ ((2 * d + 1 : ℕ) : ℚ) * 10 ^ k := by
    rw [htwice, ← quarters_le_point, mul_assoc 2 (4 * b.m), mul_assoc (2 * d + 1)]
  have hge : (2 * d + 1) * (scaleDown k * b.quarterDen) ≤
      2 * (4 * b.m * (b.quarterNum * scaleUp k)) ↔
        ((2 * d + 1 : ℕ) : ℚ) * 10 ^ k ≤ 2 * b.value := by
    rw [htwice, ← point_le_quarters, mul_assoc 2 (4 * b.m), mul_assoc (2 * d + 1)]
  unfold prefersUpper
  simp only [Bool.or_eq_true, Bool.and_eq_true, decide_eq_true_eq]
  refine or_congr (lt_iff_lt_of_le_iff_le hle) (and_congr ?_ Iff.rfl)
  rw [eq_comm, le_antisymm_iff, le_antisymm_iff, hle, hge]

/-- Nothing on the grid lies strictly between the two neighbours of the number. -/
theorem le_floorOn_or_succ_le (b : Binary) (k : ℤ) (n : ℕ) :
    (n : ℚ) * 10 ^ k ≤ b.floorOn k * 10 ^ k ∨
      ((b.floorOn k + 1 : ℕ) : ℚ) * 10 ^ k ≤ n * 10 ^ k := by
  have hpos : (0 : ℚ) < 10 ^ k := by positivity
  rcases Nat.lt_or_ge (b.floorOn k) n with h | h
  · exact .inr ((mul_le_mul_iff_left₀ hpos).2 (by exact_mod_cast h))
  · exact .inl ((mul_le_mul_iff_left₀ hpos).2 (by exact_mod_cast h))

/-- A point of the grid that is rounded to the number and is nearest to it among these, where of two
that are as near it is the even one. -/
structure Nearest (b : Binary) (k : ℤ) (n : ℕ) : Prop where
  attracts : b.Attracts (n * 10 ^ k)
  least : ∀ n' : ℕ, b.Attracts (n' * 10 ^ k) → |n * 10 ^ k - b.value| ≤ |n' * 10 ^ k - b.value|
  even : ∀ n' : ℕ, b.Attracts (n' * 10 ^ k) → n' ≠ n →
    |n' * 10 ^ k - b.value| = |n * 10 ^ k - b.value| → n % 2 = 0

/-- If any point of a grid is rounded to the number, one of its neighbours is. -/
theorem admits_of_attracts (hm : 0 < b.m) (h : b.Attracts (n * 10 ^ k)) :
    b.admits k (b.floorOn k) = true ∨ b.admits k (b.floorOn k + 1) = true := by
  rcases le_floorOn_or_succ_le b k n with hle | hle
  · exact .inl ((admits_iff hm).2 (h.above hle (b.floorOn_le k)))
  · exact .inr ((admits_iff hm).2 (h.below hle (b.lt_floorOn_succ k).le))

theorem onGrid_eq_none (hm : 0 < b.m) (h : b.onGrid k = none) (n : ℕ) :
    ¬b.Attracts (n * 10 ^ k) := by
  intro hn
  unfold onGrid at h
  dsimp only at h
  split at h
  · cases h
  · cases h
  · cases h
  · next hd hs =>
    rcases admits_of_attracts hm hn with hadmits | hadmits
    · rw [hd] at hadmits
      cases hadmits
    · rw [hs] at hadmits
      cases hadmits

theorem abs_floorOn (b : Binary) (k : ℤ) :
    |(b.floorOn k : ℚ) * 10 ^ k - b.value| = b.value - b.floorOn k * 10 ^ k := by
  rw [abs_of_nonpos (by linarith [b.floorOn_le k]), neg_sub]

theorem abs_floorOn_succ (b : Binary) (k : ℤ) :
    |((b.floorOn k + 1 : ℕ) : ℚ) * 10 ^ k - b.value| =
      ((b.floorOn k + 1 : ℕ) : ℚ) * 10 ^ k - b.value :=
  abs_of_nonneg (by linarith [b.lt_floorOn_succ k])

/-- Beside every point that is rounded to the number there is a neighbour that is nearer, if it is not
the point itself. -/
theorem exists_neighbour (h : b.Attracts (n * 10 ^ k)) :
    ∃ d : ℕ, (d = b.floorOn k ∨ d = b.floorOn k + 1) ∧ b.Attracts (d * 10 ^ k) ∧
      |(d : ℚ) * 10 ^ k - b.value| ≤ |n * 10 ^ k - b.value| ∧
      (|(d : ℚ) * 10 ^ k - b.value| = |n * 10 ^ k - b.value| → n = d) := by
  have hpos : (0 : ℚ) < 10 ^ k := by positivity
  have hcancel : ∀ d : ℕ, (d : ℚ) * 10 ^ k = n * 10 ^ k → n = d := fun d heq =>
    Nat.cast_injective (mul_right_cancel₀ hpos.ne' heq).symm
  have hlower := b.floorOn_le k
  have hupper := b.lt_floorOn_succ k
  rcases le_floorOn_or_succ_le b k n with hle | hle
  · have hn : |(n : ℚ) * 10 ^ k - b.value| = b.value - n * 10 ^ k := by
      rw [abs_of_nonpos (by linarith), neg_sub]
    refine ⟨_, .inl rfl, h.above hle hlower, ?_, fun heq => hcancel _ ?_⟩
    · rw [abs_floorOn, hn]
      linarith
    · rw [abs_floorOn, hn] at heq
      linarith
  · have hn : |(n : ℚ) * 10 ^ k - b.value| = n * 10 ^ k - b.value :=
      abs_of_nonneg (by linarith)
    refine ⟨_, .inr rfl, h.below hle hupper.le, ?_, fun heq => hcancel _ ?_⟩
    · rw [abs_floorOn_succ, hn]
      linarith
    · rw [abs_floorOn_succ, hn] at heq
      linarith

/-- It is enough to compare a point with the two neighbours. -/
theorem nearest_of_neighbours (h : b.Attracts (n * 10 ^ k))
    (hless : ∀ d : ℕ, d = b.floorOn k ∨ d = b.floorOn k + 1 → d ≠ n → b.Attracts (d * 10 ^ k) →
      |(n : ℚ) * 10 ^ k - b.value| ≤ |d * 10 ^ k - b.value| ∧
        (|(d : ℚ) * 10 ^ k - b.value| = |n * 10 ^ k - b.value| → n % 2 = 0)) :
    b.Nearest k n := by
  have hleast : ∀ d : ℕ, d = b.floorOn k ∨ d = b.floorOn k + 1 → b.Attracts (d * 10 ^ k) →
      |(n : ℚ) * 10 ^ k - b.value| ≤ |d * 10 ^ k - b.value| := by
    intro d hd hattracts
    by_cases hne : d = n
    · rw [hne]
    · exact (hless d hd hne hattracts).1
  refine ⟨h, fun n' hn' => ?_, fun n' hn' hne heq => ?_⟩
  · obtain ⟨d, hd, hattracts, hle, -⟩ := exists_neighbour hn'
    exact (hleast d hd hattracts).trans hle
  · obtain ⟨d, hd, hattracts, hle, hsame⟩ := exists_neighbour hn'
    have hn : n' = d := hsame (hle.antisymm (heq.le.trans (hleast d hd hattracts)))
    subst hn
    exact (hless n' hd hne hattracts).2 heq

theorem nearest_of_onGrid (hm : 0 < b.m) (h : b.onGrid k = some n) : b.Nearest k n := by
  have hlower := b.abs_floorOn k
  have hupper := b.abs_floorOn_succ k
  unfold onGrid at h
  dsimp only at h
  split at h
  · next hd hs =>
    -- both are rounded to the number, and the test has compared them
    have hprefers := prefersUpper_iff (b := b) (k := k) (d := b.floorOn k)
    push_cast at hupper hprefers
    cases hp : b.prefersUpper k (b.floorOn k) with
    | true =>
      rw [hp, if_pos rfl] at h
      cases h
      refine nearest_of_neighbours ((admits_iff hm).1 hs) ?_
      rintro d (rfl | rfl) hne -
      · push_cast
        rw [hlower, hupper]
        rcases hprefers.1 hp with hlt | ⟨heq, hodd⟩
        · exact ⟨by linarith, fun heq => by linarith⟩
        · exact ⟨by linarith, fun _ => by omega⟩
      · exact absurd rfl hne
    | false =>
      rw [hp, if_neg Bool.false_ne_true] at h
      cases h
      refine nearest_of_neighbours ((admits_iff hm).1 hd) ?_
      rintro d (rfl | rfl) hne -
      · exact absurd rfl hne
      · push_cast
        rw [hlower, hupper]
        rw [hp, eq_false_intro Bool.false_ne_true, false_iff, not_or, not_lt, not_and] at hprefers
        obtain ⟨hle, hodd⟩ := hprefers
        refine ⟨by linarith, fun heq => ?_⟩
        have := hodd (by linarith)
        omega
  · next hd hs =>
    cases h
    refine nearest_of_neighbours ((admits_iff hm).1 hd) ?_
    rintro d (rfl | rfl) hne hattracts
    · exact absurd rfl hne
    · rw [(admits_iff hm).2 hattracts] at hs
      cases hs
  · next hd hs =>
    cases h
    refine nearest_of_neighbours ((admits_iff hm).1 hs) ?_
    rintro d (rfl | rfl) hne hattracts
    · rw [(admits_iff hm).2 hattracts] at hd
      cases hd
    · exact absurd rfl hne
  · cases h

/-! ## The search -/

/-- The search ends on the first of its grids with a point that is rounded to the number, if there is
one. -/
theorem search_of_isSome (hm : 0 < b.m) {tries steps : ℕ} (hsteps : steps < tries)
    (h : (b.onGrid (k - steps)).isSome = true) :
    b.Nearest (b.search tries k).exponent (b.search tries k).digits ∧
      ∀ l ≤ k, (b.search tries k).exponent < l → ∀ n : ℕ, ¬b.Attracts (n * 10 ^ l) := by
  induction tries generalizing k steps with
  | zero => exact absurd hsteps (Nat.not_lt_zero steps)
  | succ tries ih =>
    unfold search
    cases hgrid : b.onGrid k with
    | some n => exact ⟨nearest_of_onGrid hm hgrid, fun l hle hlt => absurd hle (not_le.2 hlt)⟩
    | none =>
      cases steps with
      | zero =>
        rw [Nat.cast_zero, sub_zero, hgrid] at h
        cases h
      | succ steps =>
        have hk : k - (steps + 1 : ℕ) = k - 1 - steps := by omega
        rw [hk] at h
        obtain ⟨hnearest, hnone⟩ := ih (Nat.lt_of_succ_lt_succ hsteps) h
        refine ⟨hnearest, fun l hle hlt => ?_⟩
        rcases hle.lt_or_eq with hlt' | rfl
        · exact hnone l (by omega) hlt
        · exact onGrid_eq_none hm hgrid

/-- A grid that is no coarser than a quarter of the last place has a point that is rounded to the
number. -/
theorem isSome_onGrid (hm : 0 < b.m) (h : (10 : ℚ) ^ k ≤ b.quarter) :
    (b.onGrid k).isSome = true := by
  have hupper := b.lt_floorOn_succ k
  have hlow : b.low ≤ b.value - b.quarter := by
    have := b.quarter_pos
    unfold low
    split
    · linarith
    · linarith
  push_cast at hupper
  have hattracts : b.Attracts (b.floorOn k * 10 ^ k) :=
    attracts_of_lt (by linarith) ((b.floorOn_le k).trans_lt b.value_lt_high)
  cases hgrid : b.onGrid k with
  | some n => rfl
  | none => exact absurd hattracts (onGrid_eq_none hm hgrid _)

/-- A grid that is at least ten times as coarse as the number is large has no point that is rounded to
it. -/
theorem not_attracts_of_coarse (hm : 0 < b.m) (h : 10 * b.value ≤ 10 ^ k) (n : ℕ) :
    ¬b.Attracts (n * 10 ^ k) := by
  intro hn
  have hquarter := b.quarter_pos
  have hlarge := four_quarters_le hm
  have hhigh := hn.le_high
  rcases Nat.eq_zero_or_pos n with rfl | hpos
  · have hlow := (low_pos hm).trans_le hn.low_le
    rw [Nat.cast_zero, zero_mul] at hlow
    exact lt_irrefl 0 hlow
  · have hone : (10 : ℚ) ^ k ≤ n * 10 ^ k :=
      le_mul_of_one_le_left (by positivity) (by exact_mod_cast hpos)
    unfold high at hhigh
    linarith

/-! ## Where the search starts -/

/-- The significands and exponents of positive numbers of double precision. -/
structure InRange (b : Binary) : Prop where
  pos : 0 < b.m
  lt : b.m < 0x20000000000000
  least : -1074 ≤ b.q
  greatest : b.q ≤ 971

/-- A power of two above the number. -/
def ceiling (b : Binary) : ℤ := Nat.log2 (4 * b.m) + 1 + (b.q - 2)

theorem value_lt_ceiling (b : Binary) : b.value < 2 ^ b.ceiling := by
  have hlt : ((4 * b.m : ℕ) : ℚ) < 2 ^ (Nat.log2 (4 * b.m) + 1) := by
    exact_mod_cast Nat.lt_log2_self
  rw [value_eq, ceiling, zpow_add₀ two_ne_zero]
  exact mul_lt_mul_of_pos_right (by exact_mod_cast hlt) b.quarter_pos

/-- The grid that the search starts from for numbers below a power of two. -/
def startFor (e : ℤ) : ℤ := (e * 30103).fdiv 100000 + 1

/-- The grid to start from is as coarse as the power of two is large, and twenty-three grids below it
one is no coarser than the last place of numbers of fifty-five bits just below that power. -/
def StartsWell (e : ℤ) : Prop :=
  2 ^ e.toNat * 10 ^ (-startFor e).toNat ≤ 10 ^ (startFor e).toNat * 2 ^ (-e).toNat ∧
    10 ^ (startFor e - 23).toNat * 2 ^ (-(e - 55)).toNat ≤
      2 ^ (e - 55).toNat * 10 ^ (-(startFor e - 23)).toNat

instance (e : ℤ) : Decidable (StartsWell e) := inferInstanceAs (Decidable (_ ∧ _))

theorem startsWell : ∀ i ∈ List.range 2098, StartsWell (i - 1073) := by decide +kernel

namespace InRange

theorem log2_bounds (h : b.InRange) : 2 ≤ Nat.log2 (4 * b.m) ∧ Nat.log2 (4 * b.m) < 55 := by
  have hpos := h.pos
  have hlt := h.lt
  exact ⟨(Nat.le_log2 (by omega)).2 (by omega), (Nat.log2_lt (by omega)).2 (by omega)⟩

theorem startsWell (h : b.InRange) : StartsWell b.ceiling := by
  have hlog := h.log2_bounds
  have hleast := h.least
  have hgreatest := h.greatest
  have hmem : (b.ceiling + 1073).toNat ∈ List.range 2098 := by
    unfold ceiling
    rw [List.mem_range]
    omega
  have hstart := Binary.startsWell _ hmem
  have hceiling : ((b.ceiling + 1073).toNat : ℤ) - 1073 = b.ceiling := by
    unfold ceiling
    omega
  rwa [hceiling] at hstart

/-- No grid above the first one of the search has a point that is rounded to the number. -/
theorem not_attracts_of_coarsest_lt (h : b.InRange) (hk : b.coarsest < k) (n : ℕ) :
    ¬b.Attracts (n * 10 ^ k) := by
  have hpower : (2 : ℚ) ^ b.ceiling ≤ 10 ^ b.coarsest :=
    (natCast_zpow_le_iff two_pos (by decide : 0 < 10) _ _).2 h.startsWell.1
  have hnext : (10 : ℚ) ^ (b.coarsest + 1) ≤ 10 ^ k := zpow_le_zpow_right₀ (by norm_num) hk
  rw [zpow_add_one₀ (by norm_num)] at hnext
  exact not_attracts_of_coarse h.pos (by linarith [b.value_lt_ceiling]) n

/-- The search gets to a grid that is no coarser than a quarter of the last place. -/
theorem exists_isSome (h : b.InRange) :
    ∃ steps < 24, (b.onGrid (b.coarsest - (steps : ℕ))).isSome = true := by
  have hfine : (10 : ℚ) ^ (b.coarsest - 23) ≤ 2 ^ (b.ceiling - 55) :=
    (natCast_zpow_le_iff (by decide : 0 < 10) two_pos _ _).2 h.startsWell.2
  have hplace : (2 : ℚ) ^ (b.ceiling - 55) ≤ b.quarter := by
    have := h.log2_bounds.2
    refine zpow_le_zpow_right₀ one_le_two ?_
    unfold ceiling
    omega
  exact ⟨23, by decide, isSome_onGrid h.pos (hfine.trans hplace)⟩

end InRange

/-- The decimal is rounded to the number and is as short as can be: nothing on a coarser grid is
rounded to it. On its own grid it is nearest to the number among what is rounded to it. -/
structure Shortest (b : Binary) (d : Decimal) : Prop where
  nearest : b.Nearest d.exponent d.digits
  coarsest : ∀ k, d.exponent < k → ∀ n : ℕ, ¬b.Attracts (n * 10 ^ k)

theorem shortest_of_inRange (h : b.InRange) : b.Shortest b.shortest := by
  obtain ⟨steps, hsteps, hsome⟩ := h.exists_isSome
  obtain ⟨hnearest, hnone⟩ := search_of_isSome h.pos hsteps hsome
  refine ⟨hnearest, fun k hk n => ?_⟩
  rcases le_or_gt k b.coarsest with hle | hlt
  · exact hnone k hle hk n
  · exact h.not_attracts_of_coarsest_lt hlt n

theorem Shortest.digits_pos {d : Decimal} (h : b.Shortest d) (hm : 0 < b.m) : 0 < d.digits := by
  refine Nat.pos_of_ne_zero fun hzero => ?_
  have hlow := (low_pos hm).trans_le h.nearest.attracts.low_le
  rw [hzero, Nat.cast_zero, zero_mul] at hlow
  exact lt_irrefl 0 hlow

/-! ## Floats -/

open Float.Model (Format UnpackedFloat)

/-- The bits of a float below its exponent. -/
def fraction (f : Float) : ℕ := f.toBits.toNat % hiddenBit

/-- The bits of a float between its fraction and its sign. -/
def level (f : Float) : ℕ := f.toBits.toNat / hiddenBit % 2048

theorem ofFloat_of_level_eq {f : Float} (h : level f = 0) :
    ofFloat f = ⟨fraction f, -1074, false⟩ := if_pos h

theorem ofFloat_of_level_ne {f : Float} (h : level f ≠ 0) :
    ofFloat f = ⟨fraction f + hiddenBit, level f - 1075, fraction f = 0 && level f > 1⟩ := if_neg h

theorem toNat_unpackMantissa (f : Float) :
    (@UnpackedFloat.unpackMantissa Format.binary64 f.toModel.toBits.toBitVec).toNat =
      fraction f := by
  rw [UnpackedFloat.unpackMantissa, BitVec.toNat_cast, BitVec.extractLsb_toNat]
  rfl

theorem toNat_unpackExponent (f : Float) :
    (@UnpackedFloat.unpackExponent Format.binary64 f.toModel.toBits.toBitVec).toNat =
      level f := by
  rw [UnpackedFloat.unpackExponent, BitVec.toNat_cast, BitVec.extractLsb_toNat,
    Nat.shiftRight_eq_div_pow]
  rfl

theorem toNat_one_append (bits : BitVec 52) : (1#1 ++ bits).toNat = bits.toNat + hiddenBit := by
  rw [BitVec.toNat_append, ← Nat.shiftLeft_add_eq_or_of_lt bits.isLt, Nat.add_comm]
  rfl

/-- A number of double precision is taken apart into its significand and its exponent, which are in
range. -/
theorem ofFloat_of_unpack {f : Float} {sign : UnpackedFloat.Sign} {m : ℕ} {q : ℤ} {hm : 0 < m}
    (h : f.toModel.unpack = .finite sign m q hm) :
    (ofFloat f).m = m ∧ (ofFloat f).q = q ∧ (ofFloat f).InRange := by
  have hlt : fraction f < hiddenBit := Nat.mod_lt _ (by decide)
  have hbound : level f < 2048 := Nat.mod_lt _ (by decide)
  have hbias : (Format.binary64.exponentBias : ℤ) + (52 : ℕ) = 1075 := by decide
  unfold Float.Model.unpack UnpackedFloat.unpack at h
  extract_lets mantissa exponent place sign' at h
  have hmantissa : mantissa.toNat = fraction f := toNat_unpackMantissa f
  have hexponent : exponent.toNat = level f := toNat_unpackExponent f
  have hplace : place = level f - 1075 := by rw [← hexponent, ← hbias]
  by_cases htop : exponent = -1#11
  · rw [if_pos htop] at h
    by_cases hzero : mantissa = 0#52
    · rw [if_pos hzero] at h
      cases h
    · rw [if_neg hzero] at h
      cases h
  rw [if_neg htop] at h
  have hlevel : level f ≠ 2047 := fun heq => htop (BitVec.eq_of_toNat_eq (hexponent.trans heq))
  by_cases hleast : exponent = 0#11
  · rw [if_pos hleast] at h
    have hlevel : level f = 0 := by rw [← hexponent, hleast]; rfl
    by_cases hzero : mantissa = 0#52
    · rw [dif_pos hzero] at h
      cases h
    · rw [dif_neg hzero] at h
      obtain ⟨-, hm', hq⟩ := UnpackedFloat.finite.inj h
      replace hm' : fraction f = m := hmantissa.symm.trans hm'
      rw [ofFloat_of_level_eq hlevel, hm']
      refine ⟨rfl, ?_, hm, ?_, le_refl _, (by decide : (-1074 : ℤ) ≤ 971)⟩
      · rw [← hq, hplace, hlevel]
        rfl
      · rw [← hm']
        exact hlt.trans (by decide)
  · rw [if_neg hleast] at h
    have hpos : level f ≠ 0 := fun heq => hleast (BitVec.eq_of_toNat_eq (hexponent.trans heq))
    obtain ⟨-, hm', hq⟩ := UnpackedFloat.finite.inj h
    rw [toNat_one_append, hmantissa] at hm'
    rw [ofFloat_of_level_ne hpos, hm', ← hplace]
    have hq' : q = level f - 1075 := hq.symm.trans hplace
    refine ⟨rfl, hq, hm, ?_, ?_, ?_⟩
    · rw [← hm']
      exact Nat.add_lt_add_right hlt hiddenBit
    · show -1074 ≤ place
      omega
    · show place ≤ 971
      omega

theorem zero_beq (sign : UnpackedFloat.Sign) :
    (UnpackedFloat.zero sign).beq (0 : Float).toModel.unpack = true := by
  cases sign with
  | positive => decide +kernel
  | negative => decide +kernel

theorem exists_unpack {f : Float} (hf : f.isFinite = true) (hzero : (f == 0) = false) :
    ∃ sign m q hm, f.toModel.unpack = .finite sign m q hm := by
  have hcompare : f.toModel.unpack.beq (0 : Float).toModel.unpack = false := hzero
  change f.toModel.unpack.isFinite = true at hf
  cases hu : f.toModel.unpack with
  | notANumber =>
    rw [hu] at hf
    cases hf
  | infinity sign =>
    rw [hu] at hf
    cases hf
  | zero sign =>
    rw [hu, zero_beq] at hcompare
    cases hcompare
  | finite sign m q hm => exact ⟨sign, m, q, hm, rfl⟩
theorem inRange_ofFloat {f : Float} (hf : f.isFinite = true) (hzero : (f == 0) = false) :
    (ofFloat f).InRange := by
  obtain ⟨sign, m, q, hm, hunpack⟩ := exists_unpack hf hzero
  exact (ofFloat_of_unpack hunpack).2.2

/-- For a finite float other than zero the search ends with its shortest decimal. -/
theorem shortest_ofFloat {f : Float} (hf : f.isFinite = true) (hzero : (f == 0) = false) :
    (ofFloat f).Shortest (ofFloat f).shortest :=
  shortest_of_inRange (inRange_ofFloat hf hzero)

example : (ofFloat (0.1 + 0.2)).shortest = ⟨30000000000000004, -17⟩ := by decide +kernel

end Binary

end Conduct.Decimal
