import Conduct.Json.Draft
import Conduct.Text.Quoted

/-! What is wrong with data that is spelled well but does not fit what is wanted.

A `Mismatch` is a cause; `Mismatch.message` words it.
-/

set_option autoImplicit false

namespace Conduct.Json

inductive Found
  | null
  | bool (b : Bool)
  | number (n : Number)
  | text (s : String)
  | sequence
  | map

inductive Mismatch
  | wrongType (found : Found) (wanted : String)
  /-- A whole number that the wanted type does not hold. -/
  | outOfRange (n : Int) (wanted : String)
  | missingField (name : String)
  | duplicateField (name : String)
  /-- A name that is none of the known ones. -/
  | unknownVariant (name : String) (known : List String)
  | wrongLength (length : Nat) (wanted : String)
  /-- An object that stands for a name but has not exactly one member. -/
  | notSingleKey

namespace Found

def ofJson : Json → Found
  | .null => .null
  | .bool b => .bool b
  | .num n => .number n
  | .str s => .text s
  | .arr _ => .sequence
  | .obj _ => .map

def describe : Found → String
  | .null => "null"
  | .bool b => "boolean `" ++ toString b ++ "`"
  | .number n@(.int _ _) => "integer `" ++ n.text ++ "`"
  | .number n@(.float _ _) => "floating point `" ++ n.text ++ "`"
  | .text s => "string " ++ Text.quoted s
  | .sequence => "sequence"
  | .map => "map"

end Found

def Mismatch.message : Mismatch → String
  | .wrongType found wanted => "invalid type: " ++ found.describe ++ ", expected " ++ wanted
  | .outOfRange n wanted => "invalid value: integer `" ++ toString n ++ "`, expected " ++ wanted
  | .missingField name => "missing field `" ++ name ++ "`"
  | .duplicateField name => "duplicate field `" ++ name ++ "`"
  | .unknownVariant name known =>
    "unknown variant `" ++ name ++ "`, expected one of " ++
      ", ".intercalate (known.map fun k => "`" ++ k ++ "`")
  | .wrongLength length wanted => "invalid length " ++ toString length ++ ", expected " ++ wanted
  | .notSingleKey => "invalid value: map, expected map with a single key"

/-- Why a text does not yield what is wanted: a fault of its spelling, or data that does not fit. -/
inductive ReadError
  | fault (f : Fault)
  | mismatch (m : Mismatch)

def ReadError.ofFault {α : Type} (r : Except Fault α) : Except ReadError α := r.mapError .fault

/-- A value of another sort than the wanted one; what is there has to be spelled well. -/
def Draft.mismatch {α : Type} (d : Draft) (wanted : String) : Except ReadError α :=
  let wrong := fun found => .error (.mismatch (.wrongType found wanted))
  match d with
  | .null => wrong .null
  | .bool b => wrong (.bool b)
  | .num (some n) => wrong (.number n)
  | .str (some s) => wrong (.text s)
  | .num none => .error (.fault .malformed)
  | .str none => .error (.fault .malformed)
  | .list _ _ => wrong .sequence
  | .fields _ _ => wrong .map
  | .broken stop => .error (.fault stop.strict)

end Conduct.Json
