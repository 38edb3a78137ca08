/-! The shortest decimal that reads back as a given binary fraction.

A finite number of double precision is `m * 2 ^ q`. The reals that round to it form an interval
around it, whose ends belong to it when `m` is even. Of all decimals `d * 10 ^ k` in the interval,
`Binary.shortest` takes one on the coarsest grid `k` that has any, and there the nearest to the
number. Everything is computed in whole numbers.
-/

set_option autoImplicit false

namespace Conduct

/-- The decimal number `digits * 10 ^ exponent`. -/
structure Decimal where
  digits : Nat
  exponent : Int
  deriving DecidableEq

namespace Decimal

/-- The positive number `m * 2 ^ q`; the next lower one is half as far away as the next higher one
when `narrow` holds. -/
structure Binary where
  m : Nat
  q : Int
  narrow : Bool
  deriving DecidableEq

namespace Binary

/-- The highest bit of a significand, which is not stored. -/
def hiddenBit : Nat := 0x10000000000000

/-- The absolute value of a finite number of double precision. -/
def ofFloat (f : Float) : Binary :=
  let bits := f.toBits.toNat
  let fraction := bits % hiddenBit
  let level := bits / hiddenBit % 2048
  if level = 0 then ⟨fraction, -1074, false⟩
  else ⟨fraction + hiddenBit, Int.ofNat level - 1075, fraction = 0 && level > 1⟩

def closed (b : Binary) : Bool := b.m % 2 = 0

/-- A quarter of the last place as the fraction `quarterNum / quarterDen`. -/
def quarterNum (b : Binary) : Nat := Nat.pow 2 (b.q - 2).toNat

def quarterDen (b : Binary) : Nat := Nat.pow 2 (2 - b.q).toNat

/-- The multiplier that brings the number to the grid `k`: `10 ^ (-k)` where that is whole. -/
def scaleUp (k : Int) : Nat := Nat.pow 10 (-k).toNat

/-- The multiplier that brings the grid `k` to whole numbers: `10 ^ k` where that is whole. -/
def scaleDown (k : Int) : Nat := Nat.pow 10 k.toNat

def admits (b : Binary) (k : Int) (d : Nat) : Bool :=
  let point := d * scaleDown k * b.quarterDen
  let quarter := b.quarterNum * scaleUp k
  let low := (4 * b.m - if b.narrow then 1 else 2) * quarter
  let high := (4 * b.m + 2) * quarter
  if b.closed then low ≤ point && point ≤ high else low < point && point < high

def floorOn (b : Binary) (k : Int) : Nat :=
  4 * b.m * (b.quarterNum * scaleUp k) / (scaleDown k * b.quarterDen)

/-- Whether the upper of the two neighbours `d` and `d + 1` is the nearer one, where an exact tie
goes to the even one. -/
def prefersUpper (b : Binary) (k : Int) (d : Nat) : Bool :=
  let twice := 2 * (4 * b.m * (b.quarterNum * scaleUp k))
  let middle := (2 * d + 1) * (scaleDown k * b.quarterDen)
  twice > middle || (twice = middle && d % 2 = 1)

/-- The nearest point of the grid `k` that rounds to the number. -/
def onGrid (b : Binary) (k : Int) : Option Nat :=
  let d := b.floorOn k
  match b.admits k d, b.admits k (d + 1) with
  | true, true => some (if b.prefersUpper k d then d + 1 else d)
  | true, false => some d
  | false, true => some (d + 1)
  | false, false => none

/-- The first grid at or below `k` with a point that rounds to the number, of the given many. -/
def search (b : Binary) : Nat → Int → Decimal
  | 0, k => ⟨b.floorOn k, k⟩
  | tries + 1, k =>
    match b.onGrid k with
    | some d => ⟨d, k⟩
    | none => b.search tries (k - 1)

/-- A grid that is at least as coarse as the number is large. -/
def coarsest (b : Binary) : Int :=
  ((Nat.log2 (4 * b.m) + 1 + (b.q - 2)) * 30103).fdiv 100000 + 1

/-- The shortest decimal that rounds to the number; seventeen digits always suffice. -/
def shortest (b : Binary) : Decimal := b.search 24 b.coarsest

end Binary

end Decimal

end Conduct
