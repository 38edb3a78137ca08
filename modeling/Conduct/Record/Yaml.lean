import Conduct.Record.Reading
import Conduct.Yaml.Reader
import Conduct.Yaml.Writer

/-! Records as YAML.

A record is read from a mapping or a sequence, with the same fields as from JSON. A scalar is taken
as the text that it spells where a text is wanted, and as what it stands for elsewhere.
-/

set_option autoImplicit false

namespace Conduct.Record

/-- How deep sequences and mappings may nest. -/
def maxYamlDepth : Nat := 128

/-- The text that a scalar spells, in quotes or not. -/
def scalarText : Yaml → Option String
  | .plain text => some text
  | .quoted text => some text
  | _ => none

/-- The whole numbers that signed or unsigned words of 128 bits hold. -/
def IsLong (n : Int) : Prop :=
  -0x80000000000000000000000000000000 ≤ n ∧ n < 0x100000000000000000000000000000000

instance (n : Int) : Decidable (IsLong n) := inferInstanceAs (Decidable (_ ∧ _))

/-- The value of a scalar; a float that is not finite is null. -/
def scalarValue (text : String) : Option Json :=
  match Yaml.resolve text with
  | .null => some .null
  | .bool b => some (.bool b)
  | .int n =>
    if IsLong n then (Number.ofInt? n).map .num
    else
      match Yaml.float? text.toList with
      | some f => some (.ofFloat f)
      | none => some (.str text)
  | .float f => some (.ofFloat f)
  | .text s => some (.str s)

mutual

/-- The value of a document that nests at most to the given depth. -/
def yamlValue (depth : Nat) : Yaml → Option Json
  | .plain text => scalarValue text
  | .quoted text => some (.str text)
  | .seq items =>
    match depth with
    | 0 => none
    | depth + 1 => (yamlValues depth items).map .arr
  | .map entries =>
    match depth with
    | 0 => none
    | depth + 1 => (yamlMembers depth .nil entries).map .obj

def yamlValues (depth : Nat) : List Yaml → Option (List Json)
  | [] => some []
  | item :: items => do
    let item ← yamlValue depth item
    let items ← yamlValues depth items
    some (item :: items)

/-- Adds the values of entries to a dictionary; of a repeated name the last value stays. -/
def yamlMembers (depth : Nat) (found : Dict Json) : List (Yaml × Yaml) → Option (Dict Json)
  | [] => some found
  | (key, value) :: entries => do
    let name ← scalarText key
    let value ← yamlValue depth value
    yamlMembers depth (found.insert name value) entries

end

def yamlFloat : Yaml → Option Float
  | .plain text =>
    match Yaml.resolve text with
    | .int n =>
      if Number.Fits n then some (Float.ofInt n)
      else if IsLong n then none
      else Yaml.float? text.toList
    | .float f => some f
    | _ => none
  | _ => none

/-- Reads a field other than the children. -/
def Partial.readYaml (depth : Nat) (p : Partial) (f : Field) (y : Yaml) : Option Partial :=
  match f with
  | .id => (scalarText y).map fun s => { p with id := some s }
  | .tag => (scalarText y).map fun s => { p with tag := some s }
  | .name => (scalarText y).map fun s => { p with name := some s }
  | .x => (yamlFloat y).map fun n => { p with x := some n }
  | .y => (yamlFloat y).map fun n => { p with y := some n }
  | .width => (yamlFloat y).map fun n => { p with width := some n }
  | .height => (yamlFloat y).map fun n => { p with height := some n }
  | .properties =>
    match depth, y with
    | depth + 1, .map entries =>
      (yamlMembers depth .nil entries).map fun ps => { p with properties := some ps }
    | _, _ => none
  | .children => some p

mutual

/-- The record of a document that nests at most to the given depth. -/
def ofYaml (depth : Nat) : Yaml → Option Record
  | .map entries =>
    match depth with
    | 0 => none
    | depth + 1 => (readYamlEntries depth {} entries).bind fun p => p.finish.toOption
  | .seq items =>
    match depth with
    | 0 => none
    | depth + 1 =>
      (readYamlItems depth {} (Field.byName.map Prod.snd) items).bind fun p => p.finish.toOption
  | _ => none

def readYamlEntries (depth : Nat) (p : Partial) : List (Yaml × Yaml) → Option Partial
  | [] => some p
  | (key, y) :: entries => do
    let name ← scalarText key
    match Field.byName.lookup name with
    | none => readYamlEntries depth p entries
    | some f =>
      if p.has f then none
      else if f = .children then do
        let children ← readYamlChildren depth y
        readYamlEntries depth { p with children := some children } entries
      else do
        let p ← p.readYaml depth f y
        readYamlEntries depth p entries

def readYamlItems (depth : Nat) (p : Partial) (fields : List Field) : List Yaml → Option Partial
  | [] => some p
  | y :: items =>
    match fields with
    | [] => none
    | f :: fields =>
      if f = .children then do
        let children ← readYamlChildren depth y
        readYamlItems depth { p with children := some children } fields items
      else do
        let p ← p.readYaml depth f y
        readYamlItems depth p fields items

def readYamlChildren (depth : Nat) : Yaml → Option (List Record)
  | .seq items =>
    match depth with
    | 0 => none
    | depth + 1 => readYamlAll depth items
  | _ => none

def readYamlAll (depth : Nat) : List Yaml → Option (List Record)
  | [] => some []
  | y :: items => do
    let r ← ofYaml depth y
    let rs ← readYamlAll depth items
    some (r :: rs)

end

def ofYamlText (text : String) : Option Record := (Yaml.ofText text).bind (ofYaml maxYamlDepth)

def yamlText (r : Record) : String := Yaml.document (outline r)

end Conduct.Record
