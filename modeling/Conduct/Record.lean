import Conduct.Json.Outline
import Conduct.Rose

/-! Records: trees as data.

A record is a tree of entries, which say what a node is but nothing of how far it has run. Its tags
need not be those of a kind.
-/

set_option autoImplicit false

namespace Conduct

structure Layout where
  x : Float := 0
  y : Float := 0
  width : Float := 150
  height : Float := 60

def Layout.beq (a b : Layout) : Bool :=
  a.x == b.x && a.y == b.y && a.width == b.width && a.height == b.height

instance : BEq Layout := ⟨Layout.beq⟩

abbrev Properties : Type := Dict Json

structure Entry where
  /-- The id, where an empty one stands for one that is yet to be given. -/
  id : String
  tag : String
  name : String
  layout : Layout
  properties : Properties

/-- Equality of entries, which compares floats as numbers. -/
def Entry.beq (a b : Entry) : Bool :=
  a.id == b.id && a.tag == b.tag && a.name == b.name && a.layout == b.layout &&
    Json.obj a.properties == Json.obj b.properties

instance : BEq Entry := ⟨Entry.beq⟩

abbrev Record : Type := Rose Entry

namespace Record

mutual

def beq : Record → Record → Bool
  | .node a as, .node b bs => a == b && beqAll as bs

def beqAll : List Record → List Record → Bool
  | [], [] => true
  | a :: as, b :: bs => beq a b && beqAll as bs
  | _, _ => false

end

instance : BEq Record := ⟨beq⟩

def count (r : Record) : Nat := r.size

/-! ## As JSON -/

mutual

/-- The record as a JSON text with its fields in their order. -/
def outline : Record → Json.Outline
  | .node e children => .fields [
      ("id", .str e.id),
      ("type", .str e.tag),
      ("name", .str e.name),
      ("x", .float e.layout.x),
      ("y", .float e.layout.y),
      ("width", .float e.layout.width),
      ("height", .float e.layout.height),
      ("properties", (Json.obj e.properties).outline),
      ("children", .list (outlines children))]

def outlines : List Record → List Json.Outline
  | [] => []
  | r :: rs => outline r :: outlines rs

end

def jsonText (r : Record) : String := (outline r).pretty

mutual

def toJson : Record → Json
  | .node e children => .ofMembers [
      ("id", .str e.id),
      ("type", .str e.tag),
      ("name", .str e.name),
      ("x", .ofFloat e.layout.x),
      ("y", .ofFloat e.layout.y),
      ("width", .ofFloat e.layout.width),
      ("height", .ofFloat e.layout.height),
      ("properties", .obj e.properties),
      ("children", .arr (toJsonAll children))]

def toJsonAll : List Record → List Json
  | [] => []
  | r :: rs => toJson r :: toJsonAll rs

end

end Record

end Conduct
