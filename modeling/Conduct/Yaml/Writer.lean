import Conduct.Json.Outline
import Conduct.Yaml.Basic

/-! Texts of YAML from JSON texts before they are laid out.

Everything is in block style, two spaces a level. A compound item starts on the line of its dash. A
text is put in quotes wherever it would not be read back as that text, and in some more cases.
-/

set_option autoImplicit false

namespace Conduct.Yaml

/-- How YAML writes floats. -/
def style : Decimal.Style := ⟨false, ".nan", ".inf", "-.inf"⟩

/-! ## Texts -/

/-- Characters that a text without quotes does not start with. -/
def quotedAtStart (c : Char) : Bool :=
  ['&', '*', '?', '|', '-', '<', '>', '=', '!', '%', '@', '.'].contains c

/-- Characters that a text without quotes does not contain. -/
def quotedAnywhere (c : Char) : Bool :=
  [':', '\x7b', '\x7d', '[', ']', ',', '#', '\x60', '"', '\'', '\\', '\t', '\n', '\r'].contains c ||
    c.toNat ≤ 6 || (0x0e ≤ c.toNat && c.toNat ≤ 0x1a) || (0x1c ≤ c.toNat && c.toNat ≤ 0x1f)

/-- Words that stand for truth values and null in some dialect. -/
def quotedWords : List String :=
  ["yes", "Yes", "YES", "no", "No", "NO", "true", "True", "TRUE", "false", "False", "FALSE", "on",
    "On", "ON", "off", "Off", "OFF", "null", "Null", "NULL", "~"]

/-- Whether a text is put in quotes. -/
def needsQuotes (s : String) : Bool :=
  let cs := s.toList
  match cs with
  | [] => true
  | first :: rest =>
    first = ' ' || cs.getLast? = some ' ' || quotedAtStart first || cs.any quotedAnywhere ||
      quotedWords.contains s || (first = '0' && rest.head? = some 'x') || spellsFloat cs

/-- How a character is written inside quotes. -/
def escaped (c : Char) : List Char :=
  if c.toNat = 0x7f then ['\\', 'u', '0', '0', '7', 'f'] else Json.escaped c

/-- A text, in quotes where it needs them. -/
def textOf (s : String) : List Char :=
  if needsQuotes s then '"' :: s.toList.flatMap escaped ++ ['"'] else s.toList

def numberText : Number → List Char
  | .int n _ => (toString n).toList
  | .float f _ => (style.write f).toList

/-! ## Layout -/

/-- A new line, indented for a level. -/
def newLine (level : Nat) : List Char := '\n' :: List.replicate (2 * level) ' '

/-- Whether a value takes lines of its own. -/
def isCompound : Json.Outline → Bool
  | .list (_ :: _) => true
  | .fields (_ :: _) => true
  | _ => false

/-- What stands between the colon of a member on a level and its value. -/
def afterColon (level : Nat) (value : Json.Outline) : List Char :=
  if isCompound value then newLine (level + 1) else [' ']

mutual

/-- The text of a value on a level; a compound value starts where the text is. -/
def write (level : Nat) : Json.Outline → List Char
  | .null => ['~']
  | .bool b => (toString b).toList
  | .num n => numberText n
  | .float f => (style.write f).toList
  | .str s => textOf s
  | .list [] => ['[', ']']
  | .list (item :: items) => '-' :: ' ' :: write (level + 1) item ++ writeItems level items
  | .fields [] => ['\x7b', '\x7d']
  | .fields ((name, value) :: members) =>
    textOf name ++ ':' :: afterColon level value ++ write (level + 1) value ++
      writeMembers level members

def writeItems (level : Nat) : List Json.Outline → List Char
  | [] => []
  | item :: items =>
    newLine level ++ '-' :: ' ' :: write (level + 1) item ++ writeItems level items

def writeMembers (level : Nat) : List (String × Json.Outline) → List Char
  | [] => []
  | (name, value) :: members =>
    newLine level ++ textOf name ++ ':' :: afterColon level value ++ write (level + 1) value ++
      writeMembers level members

end

def document (o : Json.Outline) : String :=
  String.ofList (['-', '-', '-', '\n'] ++ write 0 o ++ ['\n'])

end Conduct.Yaml
