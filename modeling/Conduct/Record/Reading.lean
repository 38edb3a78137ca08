import Conduct.Json.Mismatch
import Conduct.Record

/-! Records from JSON.

A record is read from an object with its fields by name, or from a list with its fields in order.
Fields of other names are passed over. The first problem on the way through is reported; missing
fields come to light at the end of the object.
-/

set_option autoImplicit false

namespace Conduct.Record

open Json (Depth Draft ReadError)

/-- What is wrong with a list that holds more items than a record has fields. A text breaks off at
the first of them; a value, which may nest to any depth, is known as a whole. -/
def overlong : Depth → Nat → ReadError
  | .atMost _, _ => .fault .malformed
  | .unlimited, length => .mismatch (.wrongLength length "fewer elements in array")

inductive Field
  | id
  | tag
  | name
  | x
  | y
  | width
  | height
  | properties
  | children
  deriving DecidableEq

def Field.byName : List (String × Field) :=
  [("id", .id), ("type", .tag), ("name", .name), ("x", .x), ("y", .y), ("width", .width),
    ("height", .height), ("properties", .properties), ("children", .children)]

def Field.text : Field → String
  | .id => "id"
  | .tag => "type"
  | .name => "name"
  | .x => "x"
  | .y => "y"
  | .width => "width"
  | .height => "height"
  | .properties => "properties"
  | .children => "children"

structure Partial where
  id : Option String := none
  tag : Option String := none
  name : Option String := none
  x : Option Float := none
  y : Option Float := none
  width : Option Float := none
  height : Option Float := none
  properties : Option Properties := none
  children : Option (List Record) := none

def Partial.has (p : Partial) : Field → Bool
  | .id => p.id.isSome
  | .tag => p.tag.isSome
  | .name => p.name.isSome
  | .x => p.x.isSome
  | .y => p.y.isSome
  | .width => p.width.isSome
  | .height => p.height.isSome
  | .properties => p.properties.isSome
  | .children => p.children.isSome

def required {α : Type} (f : Field) (found : Option α) : Except ReadError α :=
  match found with
  | some a => .ok a
  | none => .error (.mismatch (.missingField f.text))

/-- The record of the fields that were read; those that have a default may be missing. -/
def Partial.finish (p : Partial) : Except ReadError Record := do
  let tag ← required .tag p.tag
  let name ← required .name p.name
  let x ← required .x p.x
  let y ← required .y p.y
  let start : Layout := {}
  .ok (.node {
    id := p.id.getD ""
    tag := tag
    name := name
    layout := ⟨x, y, p.width.getD start.width, p.height.getD start.height⟩
    properties := p.properties.getD .nil } (p.children.getD []))

/-! ## Single fields -/

def readString : Draft → Except ReadError String
  | .str (some s) => .ok s
  | d => d.mismatch "a string"

def readFloat : Draft → Except ReadError Float
  | .num (some n) => .ok n.toFloat
  | d => d.mismatch "f64"

def readProperties (depth : Depth) : Draft → Except ReadError Properties
  | .fields members stop => do
    let depth ← ReadError.ofFault depth.enter
    let members ← ReadError.ofFault (Draft.valuesByName depth .nil members)
    ReadError.ofFault (Draft.stopped stop)
    .ok members
  | d => d.mismatch "a map"

def Partial.read (depth : Depth) (p : Partial) (f : Field) (d : Draft) :
    Except ReadError Partial :=
  match f with
  | .id => (readString d).map fun s => { p with id := some s }
  | .tag => (readString d).map fun s => { p with tag := some s }
  | .name => (readString d).map fun s => { p with name := some s }
  | .x => (readFloat d).map fun n => { p with x := some n }
  | .y => (readFloat d).map fun n => { p with y := some n }
  | .width => (readFloat d).map fun n => { p with width := some n }
  | .height => (readFloat d).map fun n => { p with height := some n }
  | .properties => (readProperties depth d).map fun ps => { p with properties := some ps }
  | .children => .ok p

/-- How many fields of a record have no default or come before one that has none. -/
def requiredCount : Nat := 5

/-! ## Whole records -/

mutual

def ofDraft (depth : Depth) : Draft → Except ReadError Record
  | .fields members stop => do
    let depth ← ReadError.ofFault depth.enter
    let p ← readMembers depth {} members
    ReadError.ofFault (Draft.stopped stop)
    p.finish
  | .list items stop => do
    let depth ← ReadError.ofFault depth.enter
    let p ← readItems depth items.length {} (Field.byName.map Prod.snd) items
    ReadError.ofFault (Draft.stopped stop)
    if items.length < requiredCount then
      .error (.mismatch (.wrongLength (if items.isEmpty then 1 else items.length)
        "struct NodeRecord with 9 elements"))
    else p.finish
  | d => d.mismatch "struct NodeRecord"
termination_by structural d => d

def readMembers (depth : Depth) (p : Partial) :
    List (Option String × Draft) → Except ReadError Partial
  | [] => .ok p
  | (name, d) :: members => do
    let name ← ReadError.ofFault (Draft.held name)
    match Field.byName.lookup name with
    | none => do
      ReadError.ofFault d.skip
      readMembers depth p members
    | some f =>
      if p.has f then .error (.mismatch (.duplicateField f.text))
      else if f = .children then do
        let children ← readChildren depth d
        readMembers depth { p with children := some children } members
      else do
        let p ← p.read depth f d
        readMembers depth p members
termination_by structural members => members

/-- Reads fields in their order from a list of the given length. -/
def readItems (depth : Depth) (length : Nat) (p : Partial) (fields : List Field) :
    List Draft → Except ReadError Partial
  | [] => .ok p
  | d :: items =>
    match fields with
    | [] => .error (overlong depth length)
    | f :: fields =>
      if f = .children then do
        let children ← readChildren depth d
        readItems depth length { p with children := some children } fields items
      else do
        let p ← p.read depth f d
        readItems depth length p fields items
termination_by structural items => items

def readChildren (depth : Depth) : Draft → Except ReadError (List Record)
  | .list items stop => do
    let depth ← ReadError.ofFault depth.enter
    let children ← readAll depth items
    ReadError.ofFault (Draft.stopped stop)
    .ok children
  | d => d.mismatch "a sequence"
termination_by structural d => d

def readAll (depth : Depth) : List Draft → Except ReadError (List Record)
  | [] => .ok []
  | d :: items => do
    let r ← ofDraft depth d
    let rs ← readAll depth items
    .ok (r :: rs)
termination_by structural items => items

end

def ofJsonText (text : String) : Except ReadError Record := do
  let (draft, complete) := Draft.ofText text
  let r ← ofDraft (.atMost Json.maxDepth) draft
  if complete then .ok r else .error (.fault .malformed)

def ofJson (j : Json) : Except ReadError Record := ofDraft .unlimited (.ofJson j)

end Conduct.Record
