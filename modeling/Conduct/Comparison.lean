import Conduct.Json.Decode
import Conduct.Json.Outline

/-! Comparing values in conditions.

Two numbers compare as floats, with a tolerance where equality is asked for. Other values only
support equality; asking for their order is an error.
-/

set_option autoImplicit false

namespace Conduct

/-- A question about two values. -/
inductive Comparison
  | equals
  | notEquals
  | greater
  | less
  | greaterEqual
  | lessEqual
  deriving DecidableEq

/-- What the code of a host may raise. -/
inductive ScriptError
  | message (text : String)
  | missing (what : String)
  /-- Two values that have no order. -/
  | unordered (a b : Json)

namespace ScriptError

def text : ScriptError → String
  | .message text => text
  | .missing what => "missing context field " ++ Text.quoted what
  | .unordered a b => "cannot order non-numeric values " ++ a.compact ++ " and " ++ b.compact

end ScriptError

namespace Comparison

def byName : List (String × Comparison) :=
  [("equals", .equals), ("not_equals", .notEquals), ("greater", .greater), ("less", .less),
    ("greater_equal", .greaterEqual), ("less_equal", .lessEqual)]

def decode : Json.Decoder Comparison := Json.Decode.variant byName

/-- How far numbers may be apart and still count as equal, unless the tolerance is given. -/
def defaultTolerance : Float := 1e-6

def holdsOfFloats (c : Comparison) (a b tolerance : Float) : Bool :=
  match c with
  | .equals => (a - b).abs ≤ tolerance
  | .notEquals => tolerance < (a - b).abs
  | .greater => b < a
  | .less => a < b
  | .greaterEqual => b ≤ a
  | .lessEqual => a ≤ b

def holds (c : Comparison) (a b : Json) (tolerance : Float) : Except ScriptError Bool :=
  match a.asFloat?, b.asFloat? with
  | some x, some y => .ok (c.holdsOfFloats x y tolerance)
  | _, _ =>
    match c with
    | .equals => .ok (a == b)
    | .notEquals => .ok (!(a == b))
    | _ => .error (.unordered a b)

end Comparison

end Conduct
