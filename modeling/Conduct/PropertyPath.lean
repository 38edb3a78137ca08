import Conduct.Json.Basic
import Conduct.Text.Blank
import Conduct.Text.Quoted

/-! Paths to a value inside nested values, such as `enemy.stats[0].hp`.

A path is a name followed by parts `.name` and `[index]`. `PropertyPath.parse` reads the longest
list of parts it can, so what is left over starts where no part does. Space, tab and line ends may
surround a path.
-/

set_option autoImplicit false

namespace Conduct

/-- A step of a path: to a member by its name or to an item by its index. -/
inductive PathSegment
  | key (name : String)
  | index (n : Nat)
  deriving DecidableEq

inductive PathError
  | empty
  /-- The text does not start with a name but with an index. -/
  | leadingIndex (input : String)
  /-- The text has a rest that belongs to no path. -/
  | unexpected (input rest : String)
  deriving DecidableEq

def PathError.message : PathError → String
  | .empty => "empty property path"
  | .leadingIndex input => "property path " ++ Text.quoted input ++ " must start with a name"
  | .unexpected input rest =>
    "unexpected input " ++ Text.quoted rest ++ " in property path " ++ Text.quoted input

abbrev PropertyPath : Type := List PathSegment

namespace PropertyPath

def startsName (c : Char) : Bool :=
  ('a' ≤ c && c ≤ 'z') || ('A' ≤ c && c ≤ 'Z') || c = '_'

def isDigit (c : Char) : Bool := '0' ≤ c && c ≤ '9'

def continuesName (c : Char) : Bool := startsName c || isDigit c || c = '-'

def isSpace (c : Char) : Bool := c = ' ' || c = '\t' || c = '\r' || c = '\n'

/-- The longest name at the start of a text, and what follows it. -/
def name? : List Char → Option (String × List Char)
  | [] => none
  | c :: cs =>
    if startsName c then
      some (String.ofList (c :: cs.takeWhile continuesName), cs.dropWhile continuesName)
    else none

def ofDigits (digits : List Char) : Nat :=
  digits.foldl (fun n c => n * 10 + (c.toNat - 48)) 0

/-- The bound of an index: it has to fit 64 bits. -/
def indexBound : Nat := UInt64.size

/-- The index after an opening bracket up to its closing bracket, and what follows it. -/
def index? (cs : List Char) : Option (Nat × List Char) :=
  let digits := cs.takeWhile isDigit
  match cs.dropWhile isDigit with
  | ']' :: rest =>
    if digits.isEmpty || indexBound ≤ ofDigits digits then none else some (ofDigits digits, rest)
  | _ => none

/-- A part of a path after its first name, and what follows it. -/
def part? : List Char → Option (PathSegment × List Char)
  | '.' :: cs => (name? cs).map fun (name, rest) => (.key name, rest)
  | '[' :: cs => (index? cs).map fun (n, rest) => (.index n, rest)
  | _ => none

/-- As many parts as there are, up to the given number, and what follows them. -/
def parts : Nat → List Char → List PathSegment × List Char
  | 0, cs => ([], cs)
  | limit + 1, cs =>
    match part? cs with
    | none => ([], cs)
    | some (segment, rest) =>
      let (segments, rest) := parts limit rest
      (segment :: segments, rest)

/-- The segments of a path with the space around it, and what follows them. -/
def segments? (cs : List Char) : Option (List PathSegment × List Char) := do
  let (name, rest) ← name? (cs.dropWhile isSpace)
  let (segments, rest) := parts rest.length rest
  some (.key name :: segments, rest.dropWhile isSpace)

def parse (input : String) : Except PathError PropertyPath :=
  match Text.trimBlanks input.toList with
  | [] => .error .empty
  | '[' :: _ => .error (.leadingIndex input)
  | trimmed =>
    match segments? input.toList with
    | some (segments, []) => .ok segments
    | some (_, rest) => .error (.unexpected input (String.ofList rest))
    | none => .error (.unexpected input (String.ofList trimmed))

def step (j : Json) : PathSegment → Option Json
  | .key name => j.get? name
  | .index n => j.item? n

def follow (path : PropertyPath) (j : Json) : Option Json := path.foldlM step j

end PropertyPath

end Conduct
