import Conduct.Decimal.Notation

/-! Numbers of JSON: whole numbers of 64 bits, and finite numbers of double precision.

`Literal` is a number as it is spelled, and `Literal.number?` what it stands for. Its digits are
gathered into one significand of 64 bits for as long as they fit; digits that no longer fit only
move the point.
-/

set_option autoImplicit false

namespace Conduct

/-- The whole numbers that signed or unsigned words of 64 bits hold. -/
def Number.Fits (n : Int) : Prop := -0x8000000000000000 ≤ n ∧ n < 0x10000000000000000

instance (n : Int) : Decidable (Number.Fits n) := inferInstanceAs (Decidable (_ ∧ _))

/-- A number of JSON; a whole number and a number with a fraction are never the same. -/
inductive Number
  | int (n : Int) (fits : Number.Fits n)
  | float (f : Float) (finite : f.isFinite = true)

namespace Number

def ofFloat? (f : Float) : Option Number :=
  if h : f.isFinite = true then some (.float f h) else none

def ofInt? (n : Int) : Option Number := if h : Fits n then some (.int n h) else none

def toFloat : Number → Float
  | .int n _ => Float.ofInt n
  | .float f _ => f

/-- Equality as numbers of the same sort, by which both zeros are equal. -/
def beq : Number → Number → Bool
  | .int m _, .int n _ => m == n
  | .float f _, .float g _ => f == g
  | _, _ => false

instance : BEq Number := ⟨beq⟩

/-- How JSON writes floats; those that are not finite have no spelling of their own. -/
def style : Decimal.Style := ⟨true, "null", "null", "null"⟩

def text : Number → String
  | .int n _ => toString n
  | .float f _ => style.write f

end Number

/-- A number as it is spelled: its sign, the digits before and after the point, and the sign and
the digits of its exponent. -/
structure Literal where
  negative : Bool
  whole : List Nat
  fraction : Option (List Nat)
  exponent : Option (Bool × List Nat)

namespace Literal

/-- A significand and how far its point was moved to the right. -/
structure Gathered where
  significand : Nat
  shift : Int

/-- Takes one more digit of the whole part, or only moves the point when the digit does not fit;
from then on no digit of the whole part is taken. -/
def gatherWhole : Nat → List Nat → Gathered
  | s, [] => ⟨s, 0⟩
  | s, d :: ds =>
    if s * 10 + d < UInt64.size then gatherWhole (s * 10 + d) ds else ⟨s, (d :: ds).length⟩

/-- Takes the digits of the fraction up to the first that does not fit. -/
def gatherFraction : Gathered → List Nat → Gathered
  | g, [] => g
  | g, d :: ds =>
    if g.significand * 10 + d < UInt64.size then
      gatherFraction ⟨g.significand * 10 + d, g.shift - 1⟩ ds
    else g

def powerOfTen (n : Nat) : Float := Float.ofScientific 1 false n

/-- The largest exponent whose power of ten is a finite float. -/
def topPower : Nat := 308

/-- A significand times a power of ten in float arithmetic, if it does not overflow. A small power
is divided out in up to two steps; what is smaller still is zero. -/
def scale? (significand : Nat) (exponent : Int) : Option Float :=
  let f := significand.toUInt64.toFloat
  let n := exponent.natAbs
  if 0 ≤ exponent then
    if n ≤ topPower then
      let scaled := f * powerOfTen n
      if scaled.isInf then none else some scaled
    else if significand = 0 then some f else none
  else if n ≤ topPower then some (f / powerOfTen n)
  else if n ≤ 2 * topPower then some (f / powerOfTen topPower / powerOfTen (n - topPower))
  else some 0

def ofDigits (digits : List Nat) : Nat := digits.foldl (fun n d => n * 10 + d) 0

/-- The size of the float that the literal stands for; an exponent beyond 32 bits overflows, unless
the number is zero or the exponent negative. -/
def magnitude? (l : Literal) : Option Float :=
  let g := gatherFraction (gatherWhole 0 l.whole) (l.fraction.getD [])
  match l.exponent with
  | none => scale? g.significand g.shift
  | some (negativeExponent, digits) =>
    let e := ofDigits digits
    if e < 0x80000000 then
      let exponent := if negativeExponent then g.shift - e else g.shift + e
      scale? g.significand (max (-0x80000000) (min 0x7fffffff exponent))
    else if g.significand ≠ 0 ∧ negativeExponent = false then none
    else some 0

def float? (l : Literal) : Option Number :=
  l.magnitude?.bind fun f => Number.ofFloat? (if l.negative then -f else f)

/-- The number that the literal stands for, if it is not too large. Without point and exponent it is
whole if it fits, save that minus zero is a float. -/
def number? (l : Literal) : Option Number :=
  match l.fraction, l.exponent with
  | none, none =>
    let n := ofDigits l.whole
    if l.negative then
      if n = 0 then Number.ofFloat? (-0.0)
      else if n ≤ 0x8000000000000000 then Number.ofInt? (-n)
      else if n < UInt64.size then Number.ofFloat? (-n.toUInt64.toFloat)
      else l.float?
    else if n < UInt64.size then Number.ofInt? n
    else l.float?
  | _, _ => l.float?

end Literal

end Conduct
