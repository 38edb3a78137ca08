import Conduct.Json.Basic

/-! JSON texts before they are laid out, and their two layouts.

An `Outline` keeps the members of an object in the order in which they are written. `compact` writes
it without any space, `pretty` with one item or member a line, indented by two spaces a level.
-/

set_option autoImplicit false

namespace Conduct.Json

/-- A JSON text before it is laid out. -/
inductive Outline
  | null
  | bool (b : Bool)
  | num (n : Number)
  /-- A float that need not be finite. -/
  | float (f : Float)
  | str (s : String)
  | list (items : List Outline)
  | fields (members : List (String × Outline))

/-! ## Strings -/

/-- How a character is written inside a string. -/
def escaped (c : Char) : List Char :=
  if c = '"' then ['\\', '"']
  else if c = '\\' then ['\\', '\\']
  else if c = '\n' then ['\\', 'n']
  else if c = '\r' then ['\\', 'r']
  else if c = '\t' then ['\\', 't']
  else if c = '\x08' then ['\\', 'b']
  else if c = '\x0c' then ['\\', 'f']
  else if c.toNat < 0x20 then
    ['\\', 'u', '0', '0', Nat.digitChar (c.toNat / 16), Nat.digitChar (c.toNat % 16)]
  else [c]

def stringText (s : String) : List Char := '"' :: s.toList.flatMap escaped ++ ['"']

/-! ## Layouts -/

/-- What separates the parts of a text. -/
structure Spacing where
  /-- What precedes an item or a closing bracket at a level of nesting. -/
  line : Nat → List Char
  afterColon : List Char

/-- No space at all. -/
def Spacing.none : Spacing := ⟨fun _ => [], []⟩

/-- A line for each item, indented by two spaces a level. -/
def Spacing.lines : Spacing := ⟨fun level => '\n' :: List.replicate (2 * level) ' ', [' ']⟩

namespace Outline

mutual

/-- The text of an outline at a level of nesting. -/
def write (spacing : Spacing) (level : Nat) : Outline → List Char
  | .null => ['n', 'u', 'l', 'l']
  | .bool true => ['t', 'r', 'u', 'e']
  | .bool false => ['f', 'a', 'l', 's', 'e']
  | .num n => n.text.toList
  | .float f => (Number.style.write f).toList
  | .str s => stringText s
  | .list [] => ['[', ']']
  | .list (item :: items) =>
    '[' :: spacing.line (level + 1) ++ item.write spacing (level + 1) ++
      writeItems spacing (level + 1) items ++ spacing.line level ++ [']']
  | .fields [] => ['\x7b', '\x7d']
  | .fields ((name, value) :: members) =>
    '\x7b' :: spacing.line (level + 1) ++ stringText name ++ ':' :: spacing.afterColon ++
      value.write spacing (level + 1) ++ writeMembers spacing (level + 1) members ++
      spacing.line level ++ ['\x7d']

def writeItems (spacing : Spacing) (level : Nat) : List Outline → List Char
  | [] => []
  | item :: items =>
    ',' :: spacing.line level ++ item.write spacing level ++ writeItems spacing level items

def writeMembers (spacing : Spacing) (level : Nat) : List (String × Outline) → List Char
  | [] => []
  | (name, value) :: members =>
    ',' :: spacing.line level ++ stringText name ++ ':' :: spacing.afterColon ++
      value.write spacing level ++ writeMembers spacing level members

end

/-- The text without any space. -/
def compact (o : Outline) : String := String.ofList (o.write .none 0)

/-- The text with one item or member a line. -/
def pretty (o : Outline) : String := String.ofList (o.write .lines 0)

end Outline

/-! ## Values -/

mutual

def outline : Json → Outline
  | .null => .null
  | .bool b => .bool b
  | .num n => .num n
  | .str s => .str s
  | .arr items => .list (outlineItems items)
  | .obj members => .fields (outlineMembers members)
termination_by structural j => j

def outlineItems : List Json → List Outline
  | [] => []
  | item :: items => item.outline :: outlineItems items
termination_by structural items => items

def outlineMembers : {lo : Option String} → Dict.From Json lo → List (String × Outline)
  | _, .nil => []
  | _, .cons name _ value rest => (name, value.outline) :: outlineMembers rest
termination_by structural _ members => members

end

def compact (j : Json) : String := j.outline.compact

def pretty (j : Json) : String := j.outline.pretty

end Conduct.Json
