/-! Times in milliseconds, as words of 64 bits that neither wrap at the end nor at the start.

Main statements: `toNat_elapsed` and `toNat_later`.
-/

set_option autoImplicit false

namespace Conduct.Clock

/-- The time from one reading of the clock to another, which is zero if the clock went back. -/
def elapsed (started now : UInt64) : UInt64 := if started ≤ now then now - started else 0

def latest : UInt64 := 0xffffffffffffffff

/-- The time after a delay, at most the latest there is. -/
def later (now delay : UInt64) : UInt64 :=
  if now.toNat + delay.toNat < UInt64.size then now + delay else latest

theorem toNat_elapsed (started now : UInt64) :
    (elapsed started now).toNat = now.toNat - started.toNat := by
  unfold elapsed
  split
  · next h => exact UInt64.toNat_sub_of_le _ _ h
  · next h =>
    have : now.toNat < started.toNat := by
      simpa [UInt64.le_iff_toNat_le] using h
    simp
    omega

theorem toNat_later (now delay : UInt64) :
    (later now delay).toNat = min (now.toNat + delay.toNat) (UInt64.size - 1) := by
  unfold later
  split
  · next h =>
    rw [UInt64.toNat_add, Nat.mod_eq_of_lt h]
    omega
  · next h =>
    have : latest.toNat = UInt64.size - 1 := rfl
    omega

end Conduct.Clock
