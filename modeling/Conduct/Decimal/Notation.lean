import Conduct.Decimal.Shortest

/-! How a number of double precision is written.

The shortest digits that read back are written positionally from `0.00001` up to below `10 ^ 16`,
always with a fraction, and with an exponent outside of that range.
-/

set_option autoImplicit false

namespace Conduct.Decimal

/-- What two ways of writing numbers differ in. -/
structure Style where
  /-- Whether an exponent that is not negative carries a plus sign. -/
  plusSign : Bool
  notANumber : String
  infinity : String
  negativeInfinity : String
  deriving DecidableEq

/-- The digits with the point `point` places after their start, given that this lies between the
smallest and the largest positional size. -/
def positional (digits : List Char) (point : Int) : List Char :=
  if point ≤ 0 then '0' :: '.' :: List.replicate (-point).toNat '0' ++ digits
  else if digits.length ≤ point.toNat then
    digits ++ List.replicate (point.toNat - digits.length) '0' ++ ['.', '0']
  else digits.take point.toNat ++ '.' :: digits.drop point.toNat

/-- The digits with a point after the first one, where others follow. -/
def pointed : List Char → List Char
  | [] => []
  | [d] => [d]
  | d :: ds => d :: '.' :: ds

/-- A signed whole number for an exponent. -/
def exponentText (plusSign : Bool) (e : Int) : List Char :=
  if e < 0 then '-' :: Nat.toDigits 10 e.natAbs
  else if plusSign then '+' :: Nat.toDigits 10 e.natAbs
  else Nat.toDigits 10 e.natAbs

/-- A positive decimal in the given style. -/
def layout (style : Style) (d : Decimal) : List Char :=
  let digits := Nat.toDigits 10 d.digits
  let point := digits.length + d.exponent
  if -5 < point ∧ point ≤ 16 then positional digits point
  else pointed digits ++ 'e' :: exponentText style.plusSign (point - 1)

def isNegative (f : Float) : Bool := 0x8000000000000000 ≤ f.toBits

def Style.write (style : Style) (f : Float) : String :=
  if f.isNaN then style.notANumber
  else if f.isInf then if isNegative f then style.negativeInfinity else style.infinity
  else
    let size :=
      if f == 0 then ['0', '.', '0'] else (Binary.ofFloat f).shortest.layout style
    String.ofList (if isNegative f then '-' :: size else size)

end Conduct.Decimal
