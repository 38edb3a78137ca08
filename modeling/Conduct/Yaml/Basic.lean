import Conduct.Json.Basic

/-! Documents of YAML, and what plain scalars stand for.

A scalar without quotes may stand for null, a truth value or a number; one in quotes is always a
text.
-/

set_option autoImplicit false

namespace Conduct

/-- A document of YAML, with the entries of mappings in the order of the text. -/
inductive Yaml
  | plain (text : String)
  | quoted (text : String)
  | seq (items : List Yaml)
  | map (entries : List (Yaml × Yaml))

namespace Yaml

/-- What stands where nothing is written. -/
def absent : Yaml := .plain "~"

inductive Scalar
  | null
  | bool (b : Bool)
  | int (n : Int)
  | float (f : Float)
  | text (s : String)

/-! ## Numbers -/

def isDigit (c : Char) : Bool := '0' ≤ c && c ≤ '9'

/-- The value of a digit in a base up to sixteen. -/
def digit? (base : Nat) (c : Char) : Option Nat :=
  let value :=
    if isDigit c then c.toNat - 48
    else if 'a' ≤ c && c ≤ 'f' then c.toNat - 87
    else if 'A' ≤ c && c ≤ 'F' then c.toNat - 55
    else base
  if value < base then some value else none

def digits? (base : Nat) (cs : List Char) : Option Nat :=
  if cs.isEmpty then none
  else cs.foldlM (fun n c => (digit? base c).map (n * base + ·)) 0

/-- The base that the start of a number names, and what follows that start. -/
def base? (cs : List Char) : Option (Nat × List Char) :=
  match cs with
  | '0' :: 'x' :: rest => some (16, rest)
  | '0' :: 'o' :: rest => some (8, rest)
  | '0' :: 'b' :: rest => some (2, rest)
  | _ => none

def dropPlus (cs : List Char) : List Char :=
  match cs with
  | '+' :: rest => rest
  | _ => cs

/-- The whole number that digits in a base with a name stand for, as far as words of 64 bits hold
it. Where no minus sign stands before the base, a plus sign may stand on either side of it. -/
def basedInt? (cs : List Char) : Option Int :=
  match cs with
  | '-' :: rest => do
    let (base, rest) ← base? rest
    let n ← digits? base rest
    if n ≤ 0x8000000000000000 then some (-Int.ofNat n) else none
  | _ => do
    let (base, rest) ← base? (dropPlus cs)
    let n ← digits? base (dropPlus rest)
    if n < UInt64.size then some (.ofNat n) else none

def decimalInt? (cs : List Char) : Option Int :=
  match cs with
  | '-' :: rest => (digits? 10 rest).map fun n => -Int.ofNat n
  | _ => (digits? 10 (dropPlus cs)).map .ofNat

/-- Whether digits, after signs, start with a zero that does not stand alone, which makes them a
text. -/
def isPadded (cs : List Char) : Bool :=
  match cs.dropWhile fun c => c = '+' || c = '-' with
  | '0' :: rest => !rest.isEmpty && rest.all isDigit
  | _ => false

def int? (cs : List Char) : Option Int :=
  basedInt? cs <|> if isPadded cs then none else decimalInt? cs

/-- A sign, digits with or without a point, and with or without an exponent. -/
structure DecimalText where
  negative : Bool
  whole : List Char
  fraction : List Char
  negativeExponent : Bool
  exponent : List Char

def takeSign (cs : List Char) : Bool × List Char :=
  match cs with
  | '+' :: rest => (false, rest)
  | '-' :: rest => (true, rest)
  | _ => (false, cs)

/-- The decimal that a whole text spells, with at least one digit before or after the point. -/
def decimal? (cs : List Char) : Option DecimalText :=
  let (negative, cs) := takeSign cs
  let whole := cs.takeWhile isDigit
  let rest := cs.dropWhile isDigit
  let (fraction, rest) := match rest with
    | '.' :: rest => (rest.takeWhile isDigit, rest.dropWhile isDigit)
    | _ => ([], rest)
  if whole.isEmpty && fraction.isEmpty then none
  else
    match rest with
    | [] => some ⟨negative, whole, fraction, false, []⟩
    | c :: rest =>
      let (negativeExponent, digits) := takeSign rest
      if (c = 'e' || c = 'E') && !digits.isEmpty && digits.all isDigit then
        some ⟨negative, whole, fraction, negativeExponent, digits⟩
      else none

/-- The words that stand for floats that are not finite, in lower case. -/
def specialWords : List (List Char) :=
  ["inf".toList, "infinity".toList, "nan".toList]

/-- Whether the text spells a float, finite or not. -/
def spellsFloat (cs : List Char) : Bool :=
  (decimal? cs).isSome || specialWords.contains ((takeSign cs).2.map Char.toLower)

def ofDigits (digits : List Char) : Nat :=
  digits.foldl (fun n c => n * 10 + (c.toNat - 48)) 0

/-- An exponent beyond this size makes any number of digits overflow or vanish. -/
def exponentBound (d : DecimalText) : Nat := 400 + d.whole.length + d.fraction.length

/-- The float next to a decimal. -/
def DecimalText.toFloat (d : DecimalText) : Float :=
  let significand := ofDigits (d.whole ++ d.fraction)
  let size := min (ofDigits d.exponent) (exponentBound d)
  let exponent := (if d.negativeExponent then -Int.ofNat size else Int.ofNat size) - d.fraction.length
  let f := Float.ofScientific significand (exponent < 0) exponent.natAbs
  if d.negative then -f else f

def float? (cs : List Char) : Option Float :=
  let unsigned := cs.dropWhile (· = '+')
  if [".inf", ".Inf", ".INF"].contains (String.ofList unsigned) then some (1.0 / 0.0)
  else if ["-.inf", "-.Inf", "-.INF"].contains (String.ofList cs) then some (-1.0 / 0.0)
  else if [".nan", ".NaN", ".NAN"].contains (String.ofList cs) then some (0.0 / 0.0)
  else
    match decimal? cs with
    | some d => if d.toFloat.isFinite then some d.toFloat else none
    | none => none

/-- What a plain scalar stands for. -/
def resolve (text : String) : Scalar :=
  let cs := text.toList
  if text = "~" || text = "null" then .null
  else if text = "true" then .bool true
  else if text = "false" then .bool false
  else
    match int? cs with
    | some n => .int n
    | none =>
      if isPadded cs then .text text
      else
        match float? cs with
        | some f => .float f
        | none => .text text

end Yaml

end Conduct
