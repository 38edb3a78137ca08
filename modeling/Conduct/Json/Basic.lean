import Conduct.Dict
import Conduct.Json.Number

/-! Values of JSON.

The members of an object are in increasing order of their names, with one value for each name, so
two values are the same exactly when they are written the same. `Json.beq` is equality of values, by
which both zeros are equal.
-/

set_option autoImplicit false

namespace Conduct

inductive Json
  | null
  | bool (b : Bool)
  | num (n : Number)
  | str (s : String)
  | arr (items : List Json)
  | obj (members : Dict.From Json none)

namespace Json

instance : Inhabited Json := ⟨.null⟩

mutual

/-- Equality of values, which compares floats as numbers. -/
def beq : Json → Json → Bool
  | .null, .null => true
  | .bool a, .bool b => a == b
  | .num m, .num n => m == n
  | .str s, .str t => s == t
  | .arr xs, .arr ys => beqItems xs ys
  | .obj xs, .obj ys => beqMembers xs ys
  | _, _ => false
termination_by structural j => j

def beqItems : List Json → List Json → Bool
  | [], [] => true
  | x :: xs, y :: ys => x.beq y && beqItems xs ys
  | _, _ => false
termination_by structural items => items

def beqMembers {lo' : Option String} :
    {lo : Option String} → Dict.From Json lo → Dict.From Json lo' → Bool
  | _, .nil, .nil => true
  | _, .cons k _ x xs, .cons l _ y ys => k == l && x.beq y && beqMembers xs ys
  | _, _, _ => false
termination_by structural _ members => members

end

instance : BEq Json := ⟨beq⟩

/-- A whole number as a value; one that does not fit is null. -/
def ofInt (n : Int) : Json := ((Number.ofInt? n).map Json.num).getD .null

/-- A count as a value. -/
def ofNat (n : Nat) : Json := ofInt n

/-- A float as a value; one that is not finite is null. -/
def ofFloat (f : Float) : Json := ((Number.ofFloat? f).map Json.num).getD .null

/-- The object of a list of members, of which a later one of the same name wins. -/
def ofMembers (members : List (String × Json)) : Json := .obj (Dict.ofList members)

def get? (j : Json) (name : String) : Option Json :=
  match j with
  | .obj members => members.get? name
  | _ => none

def item? (j : Json) (index : Nat) : Option Json :=
  match j with
  | .arr items => items[index]?
  | _ => none

def asString? : Json → Option String
  | .str s => some s
  | _ => none

def asFloat? : Json → Option Float
  | .num n => some n.toFloat
  | _ => none

def isNumber (j : Json) : Bool := j.asFloat?.isSome

end Json

end Conduct
