import Conduct.Host

/-! A host for rehearsals: its agents and worlds are plain data.

Damage is taken from the health of an entity. An object has a number of uses, and an interaction
with it takes place for as long as one is left.
-/

set_option autoImplicit false

namespace Conduct.Rehearsal

structure Agent where
  position : Vec2 := ⟨0, 0⟩
  health : Float := 100
  maxHealth : Float := 100

structure Entity where
  position : Vec2 := ⟨0, 0⟩
  health : Float := 100

structure Object where
  position : Vec2 := ⟨0, 0⟩
  uses : Int := 1

structure World where
  entities : Dict Entity := .nil
  objects : Dict Object := .nil
  /-- Whether entities without health are not found. -/
  hidesDead : Bool := false

/-- What the scripts of a rehearsal keep. -/
structure Memory where
  /-- The calls of scripts, the latest first. -/
  calls : List String := []
  /-- How often each script was called. -/
  played : Dict Nat := .nil

namespace World

def entity? (w : World) (id : String) : Option Entity :=
  (w.entities.get? id).filter fun e => !(w.hidesDead && e.health ≤ 0)

def damage (w : World) (id : String) (amount : Float) : World :=
  match w.entity? id with
  | some e => { w with entities := w.entities.insert id { e with health := e.health - amount } }
  | none => w

def interact (w : World) (id : String) : Bool × World :=
  match w.objects.get? id with
  | some o =>
    if 0 < o.uses then
      (true, { w with objects := w.objects.insert id { o with uses := o.uses - 1 } })
    else (false, w)
  | none => (false, w)

end World

/-- The host whose agents and worlds are plain data. -/
abbrev host : Host where
  Agent := Agent
  World := World
  State := Memory
  position := Agent.position
  moveTo a place := { a with position := place }
  health := Agent.health
  maxHealth := Agent.maxHealth
  entity? w id := (w.entity? id).map Entity.position
  object? w id := (w.objects.get? id).map Object.position
  damage := World.damage
  interact := World.interact

/-- A stage with nothing on it but a clock. -/
def clock (now : UInt64) : Stage host where
  scene := ⟨.nil, none, none, none, now, {}⟩
  flags := ⟨false, false⟩
  visits := []

def Memory.call (m : Memory) (text : String) : Memory := { m with calls := text :: m.calls }

/-- How often a script was called, which is once more from then on. -/
def Memory.count (m : Memory) (name : String) : Nat × Memory :=
  let n := (m.played.get? name).getD 0
  (n, { m with played := m.played.insert name (n + 1) })

end Conduct.Rehearsal
