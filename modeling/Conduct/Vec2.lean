import Conduct.Json.Decode

/-! Points of the plane, in float arithmetic. -/

set_option autoImplicit false

namespace Conduct

/-- A point of the plane. -/
structure Vec2 where
  x : Float
  y : Float

namespace Vec2

/-- Equality of coordinates as numbers. -/
def beq (a b : Vec2) : Bool := a.x == b.x && a.y == b.y

instance : BEq Vec2 := ⟨beq⟩

def distance (a b : Vec2) : Float :=
  ((a.x - b.x) * (a.x - b.x) + (a.y - b.y) * (a.y - b.y)).sqrt

/-- The point that is reached from `a` toward `target` by a step of at most the given length. -/
def stepToward (a target : Vec2) (step : Float) : Vec2 :=
  let distance := a.distance target
  if distance ≤ step || distance == 0 then target
  else
    let t := step / distance
    ⟨a.x + (target.x - a.x) * t, a.y + (target.y - a.y) * t⟩

/-- The coordinates that were found so far. -/
structure Coordinates where
  x : Option Float := none
  y : Option Float := none

def settings : List (Json.Setting Coordinates) :=
  [.of "x" Json.Decode.float fun c x => { c with x := some x },
    .of "y" Json.Decode.float fun c y => { c with y := some y }]

/-- The point of an object with both coordinates, or of a list of them. -/
def decode : Json.Decoder Vec2
  | .obj members => do
    let found ← Json.Setting.decode settings {} members
    match found.x, found.y with
    | none, _ => .error (.missingField "x")
    | _, none => .error (.missingField "y")
    | some x, some y => .ok ⟨x, y⟩
  | .arr items => do
    let wanted := "struct Vec2 with 2 elements"
    match items with
    | [] => .error (.wrongLength 0 wanted)
    | [x] => do
      let _ ← Json.Decode.float x
      .error (.wrongLength 1 wanted)
    | x :: y :: rest => do
      let x ← Json.Decode.float x
      let y ← Json.Decode.float y
      if rest.isEmpty then .ok ⟨x, y⟩
      else .error (.wrongLength items.length "fewer elements in array")
  | j => Json.wrongType j "struct Vec2"

end Vec2

end Conduct
