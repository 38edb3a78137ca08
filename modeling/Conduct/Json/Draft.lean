import Conduct.Json.Basic

/-! JSON texts as far as they can be read.

Reading a text yields a `Draft`: its values in the order of the text up to the first fault, with the
members of objects as they are spelled. Whoever makes sense of a draft walks through it in order, so
of all the faults of a text the first one is reported, whether it lies in the spelling or in the
data. A value that nobody needs may hold more than one that is made sense of: numbers that are too
large, and halves of surrogate pairs. In such a value a number that ends too early counts as
malformed.
-/

set_option autoImplicit false

namespace Conduct.Json

inductive Fault
  | malformed
  | unfinished
  deriving DecidableEq

/-- The fault at which reading stopped: the one of a value that is needed, and the one of a value
that is passed over. -/
structure Stop where
  strict : Fault
  lenient : Fault

/-- The same fault either way. -/
def Stop.both (f : Fault) : Stop := ⟨f, f⟩

inductive Draft
  | null
  | bool (b : Bool)
  /-- A number; one that is too large has no value. -/
  | num (n : Option Number)
  /-- A string; one with half a surrogate pair has no value. -/
  | str (s : Option String)
  | list (items : List Draft) (stop : Option Stop)
  | fields (members : List (Option String × Draft)) (stop : Option Stop)
  | broken (stop : Stop)

def isSpace (c : Char) : Bool := c = ' ' || c = '\n' || c = '\t' || c = '\r'

def skipSpace (cs : List Char) : List Char := cs.dropWhile isSpace

/-! ## Strings -/

def hexValue? (c : Char) : Option Nat :=
  if '0' ≤ c ∧ c ≤ '9' then some (c.toNat - 48)
  else if 'a' ≤ c ∧ c ≤ 'f' then some (c.toNat - 87)
  else if 'A' ≤ c ∧ c ≤ 'F' then some (c.toNat - 55)
  else none

def byteCount (cs : List Char) : Nat := cs.foldr (fun c n => c.utf8Size + n) 0

/-- Four hexadecimal digits and what follows them; the text is unfinished if fewer than four bytes
follow. -/
def hexQuad (cs : List Char) : Except Fault (Nat × List Char) :=
  if byteCount (cs.take 4) < 4 then .error .unfinished
  else match cs with
    | a :: b :: c :: d :: rest =>
      match hexValue? a, hexValue? b, hexValue? c, hexValue? d with
      | some a, some b, some c, some d => .ok (a * 4096 + b * 256 + c * 16 + d, rest)
      | _, _, _, _ => .error .malformed
    | _ => .error .malformed

def isHighHalf (n : Nat) : Bool := 0xd800 ≤ n && n ≤ 0xdbff

def isLowHalf (n : Nat) : Bool := 0xdc00 ≤ n && n ≤ 0xdfff

/-- The second half of a surrogate pair, which has to follow the first half at once. -/
def lowHalf (cs : List Char) : Except Fault (Nat × List Char) :=
  match cs with
  | [] => .error .unfinished
  | ['\\'] => .error .unfinished
  | '\\' :: 'u' :: rest => do
    let (n, rest) ← hexQuad rest
    if isLowHalf n then .ok (n, rest) else .error .malformed
  | _ => .error .malformed

/-- The character of an escape by code units. Where a text is passed over, the halves of a pair need
not belong together. -/
def codeUnits (lenient : Bool) (cs : List Char) : Except Fault (Char × List Char) := do
  let (n, rest) ← hexQuad cs
  if lenient then .ok (' ', rest)
  else if isLowHalf n then .error .malformed
  else if isHighHalf n then do
    let (m, rest) ← lowHalf rest
    .ok (Char.ofNat (0x10000 + (n - 0xd800) * 0x400 + (m - 0xdc00)), rest)
  else .ok (Char.ofNat n, rest)

def unescape (lenient : Bool) (cs : List Char) : Except Fault (Char × List Char) :=
  match cs with
  | [] => .error .unfinished
  | '"' :: rest => .ok ('"', rest)
  | '\\' :: rest => .ok ('\\', rest)
  | '/' :: rest => .ok ('/', rest)
  | 'b' :: rest => .ok ('\x08', rest)
  | 'f' :: rest => .ok ('\x0c', rest)
  | 'n' :: rest => .ok ('\n', rest)
  | 'r' :: rest => .ok ('\r', rest)
  | 't' :: rest => .ok ('\t', rest)
  | 'u' :: rest => codeUnits lenient rest
  | _ => .error .malformed

/-- The next character of a string, or none at its closing quote. -/
def nextChar (lenient : Bool) (cs : List Char) : Except Fault (Option Char × List Char) :=
  match cs with
  | [] => .error .unfinished
  | '"' :: rest => .ok (none, rest)
  | '\\' :: rest => (unescape lenient rest).map fun (c, rest) => (some c, rest)
  | c :: rest => if c.toNat < 0x20 then .error .malformed else .ok (some c, rest)

/-- The characters up to the closing quote, of the given many at most. -/
def stringChars (lenient : Bool) : Nat → List Char → Except Fault (List Char × List Char)
  | 0, _ => .error .unfinished
  | limit + 1, cs => do
    match ← nextChar lenient cs with
    | (none, rest) => .ok ([], rest)
    | (some c, rest) =>
      let (more, rest) ← stringChars lenient limit rest
      .ok (c :: more, rest)

/-- A string after its opening quote, of the given many characters at most: its value, if it has
one, and what follows it. -/
def readString (limit : Nat) (cs : List Char) : Except Stop (Option String × List Char) :=
  match stringChars false limit cs with
  | .ok (s, rest) => .ok (some (String.ofList s), rest)
  | .error strict =>
    match stringChars true limit cs with
    | .ok (_, rest) => .ok (none, rest)
    | .error lenient => .error ⟨strict, lenient⟩

/-! ## Numbers -/

def isDigit (c : Char) : Bool := '0' ≤ c && c ≤ '9'

def readDigits (cs : List Char) : List Nat × List Char :=
  ((cs.takeWhile isDigit).map (fun c => c.toNat - 48), cs.dropWhile isDigit)

def readSomeDigits (cs : List Char) : Except Fault (List Nat × List Char) :=
  match readDigits cs with
  | ([], []) => .error .unfinished
  | ([], _) => .error .malformed
  | found => .ok found

/-- The digits before the point, where a leading zero stands alone. -/
def readWhole (cs : List Char) : Except Fault (List Nat × List Char) := do
  match ← readSomeDigits cs with
  | (0 :: _ :: _, _) => .error .malformed
  | found => .ok found

def readFraction (cs : List Char) : Except Fault (Option (List Nat) × List Char) :=
  match cs with
  | '.' :: rest => (readSomeDigits rest).map fun (digits, rest) => (some digits, rest)
  | _ => .ok (none, cs)

/-- The sign of an exponent, which is positive where there is none. -/
def readSign (cs : List Char) : Bool × List Char :=
  match cs with
  | '-' :: rest => (true, rest)
  | '+' :: rest => (false, rest)
  | _ => (false, cs)

def readExponent (cs : List Char) : Except Fault (Option (Bool × List Nat) × List Char) :=
  match cs with
  | [] => .ok (none, [])
  | c :: rest =>
    if c = 'e' ∨ c = 'E' then
      let (negative, rest) := readSign rest
      (readSomeDigits rest).map fun (digits, rest) => (some (negative, digits), rest)
    else .ok (none, cs)

def readLiteral (cs : List Char) : Except Fault (Literal × List Char) := do
  let (negative, cs) := match cs with
    | '-' :: rest => (true, rest)
    | _ => (false, cs)
  let (whole, cs) ← readWhole cs
  let (fraction, cs) ← readFraction cs
  let (exponent, cs) ← readExponent cs
  .ok (⟨negative, whole, fraction, exponent⟩, cs)

/-! ## Values -/

def readWord : List Char → List Char → Except Fault (List Char)
  | [], cs => .ok cs
  | _ :: _, [] => .error .unfinished
  | w :: word, c :: cs => if w = c then readWord word cs else .error .malformed

/-- A draft with what follows it, or the fault that ended it. -/
def Draft.orBroken (r : Except Fault (Draft × List Char)) : Draft × List Char :=
  match r with
  | .ok found => found
  | .error f => (.broken (.both f), [])

/-- A number with what follows it. Where a value is passed over, one that ends too early is
malformed. -/
def readNumber (cs : List Char) : Draft × List Char :=
  match readLiteral cs with
  | .ok (l, rest) => (.num l.number?, rest)
  | .error f => (.broken ⟨f, .malformed⟩, [])

/-- A value that is no list and no object, of the given many characters at most. -/
def readScalar (limit : Nat) (cs : List Char) : Draft × List Char :=
  match cs with
  | [] => (.broken (.both .unfinished), [])
  | '"' :: rest =>
    match readString limit rest with
    | .ok (s, rest) => (.str s, rest)
    | .error stop => (.broken stop, [])
  | c :: rest =>
    if c = 'n' then
      Draft.orBroken ((readWord ['u', 'l', 'l'] rest).map fun rest => (.null, rest))
    else if c = 't' then
      Draft.orBroken ((readWord ['r', 'u', 'e'] rest).map fun rest => (.bool true, rest))
    else if c = 'f' then
      Draft.orBroken ((readWord ['a', 'l', 's', 'e'] rest).map fun rest => (.bool false, rest))
    else if c = '-' ∨ isDigit c then readNumber cs
    else (.broken (.both .malformed), [])

mutual

def readValue : Nat → List Char → Draft × List Char
  | 0, _ => (.broken (.both .unfinished), [])
  | limit + 1, cs =>
    match skipSpace cs with
    | '[' :: rest =>
      match skipSpace rest with
      | ']' :: rest => (.list [] none, rest)
      | [] => (.list [] (some (.both .unfinished)), [])
      | rest =>
        let (items, stop, rest) := readItems limit rest
        (.list items stop, rest)
    | '\x7b' :: rest =>
      match skipSpace rest with
      | '\x7d' :: rest => (.fields [] none, rest)
      | rest =>
        let (members, stop, rest) := readMembers limit rest
        (.fields members stop, rest)
    | cs => readScalar limit cs

/-- Items up to the closing bracket, from the start of an item. -/
def readItems : Nat → List Char → List Draft × Option Stop × List Char
  | 0, _ => ([], some (.both .unfinished), [])
  | limit + 1, cs =>
    let (item, rest) := readValue limit cs
    match skipSpace rest with
    | ']' :: rest => ([item], none, rest)
    | ',' :: rest =>
      let (items, stop, rest) := readItems limit rest
      (item :: items, stop, rest)
    | [] => ([item], some (.both .unfinished), [])
    | _ => ([item], some (.both .malformed), [])

/-- Members up to the closing brace, from the start of a name. -/
def readMembers : Nat → List Char → List (Option String × Draft) × Option Stop × List Char
  | 0, _ => ([], some (.both .unfinished), [])
  | limit + 1, cs =>
    match skipSpace cs with
    | '"' :: rest =>
      match readString limit rest with
      | .error stop => ([], some stop, [])
      | .ok (name, rest) =>
        match skipSpace rest with
        | ':' :: rest =>
          let (value, rest) := readValue limit rest
          match skipSpace rest with
          | '\x7d' :: rest => ([(name, value)], none, rest)
          | ',' :: rest =>
            let (members, stop, rest) := readMembers limit rest
            ((name, value) :: members, stop, rest)
          | [] => ([(name, value)], some (.both .unfinished), [])
          | _ => ([(name, value)], some (.both .malformed), [])
        | [] => ([(name, .broken (.both .unfinished))], none, [])
        | _ => ([(name, .broken (.both .malformed))], none, [])
    | [] => ([], some (.both .unfinished), [])
    | _ => ([], some (.both .malformed), [])

end

/-- The draft of a text, and whether nothing but space follows it. Of two steps in a row at least
one takes a character, so twice the length of the text bounds the steps. -/
def Draft.ofText (text : String) : Draft × Bool :=
  let cs := text.toList
  let (draft, rest) := readValue (2 * cs.length + 2) cs
  (draft, (skipSpace rest).isEmpty)

/-! ## Passing over and making sense -/

inductive Depth
  | atMost (levels : Nat)
  | unlimited
  deriving DecidableEq

/-- The depth inside of a list or an object, if one may be opened. -/
def Depth.enter : Depth → Except Fault Depth
  | .atMost 0 => .error .malformed
  | .atMost (levels + 1) => .ok (.atMost levels)
  | .unlimited => .ok .unlimited

namespace Draft

def stopped (stop : Option Stop) : Except Fault Unit :=
  match stop with
  | none => .ok ()
  | some s => .error s.strict

def stoppedLeniently (stop : Option Stop) : Except Fault Unit :=
  match stop with
  | none => .ok ()
  | some s => .error s.lenient

mutual

/-- Passes over a value, which may nest to any depth. -/
def skip : Draft → Except Fault Unit
  | .list items stop => do skipItems items; stoppedLeniently stop
  | .fields members stop => do skipMembers members; stoppedLeniently stop
  | .broken stop => .error stop.lenient
  | _ => .ok ()

def skipItems : List Draft → Except Fault Unit
  | [] => .ok ()
  | item :: items => do item.skip; skipItems items

def skipMembers : List (Option String × Draft) → Except Fault Unit
  | [] => .ok ()
  | (_, value) :: members => do value.skip; skipMembers members

end

/-- A value that is there and not too large to hold. -/
def held {α : Type} (a : Option α) : Except Fault α :=
  match a with
  | some a => .ok a
  | none => .error .malformed

mutual

/-- The value of a draft whose lists and objects nest at most to the given depth. -/
def value (depth : Depth) : Draft → Except Fault Json
  | .null => .ok .null
  | .bool b => .ok (.bool b)
  | .num n => (held n).map .num
  | .str s => (held s).map .str
  | .list items stop => do
    let depth ← depth.enter
    let items ← values depth items
    stopped stop
    .ok (.arr items)
  | .fields members stop => do
    let depth ← depth.enter
    let members ← valuesByName depth .nil members
    stopped stop
    .ok (.obj members)
  | .broken stop => .error stop.strict
termination_by structural d => d

def values (depth : Depth) : List Draft → Except Fault (List Json)
  | [] => .ok []
  | item :: items => do
    let item ← item.value depth
    let items ← values depth items
    .ok (item :: items)
termination_by structural items => items

/-- Adds the values of members to a dictionary; of a repeated name the last value stays. -/
def valuesByName (depth : Depth) (found : Dict Json) :
    List (Option String × Draft) → Except Fault (Dict Json)
  | [] => .ok found
  | (name, value) :: members => do
    let name ← held name
    let value ← value.value depth
    valuesByName depth (found.insert name value) members
termination_by structural members => members

end

mutual

def ofJson : Json → Draft
  | .null => .null
  | .bool b => .bool b
  | .num n => .num (some n)
  | .str s => .str (some s)
  | .arr items => .list (ofItems items) none
  | .obj members => .fields (ofMembers members) none
termination_by structural j => j

def ofItems : List Json → List Draft
  | [] => []
  | item :: items => ofJson item :: ofItems items
termination_by structural items => items

def ofMembers : {lo : Option String} → Dict.From Json lo → List (Option String × Draft)
  | _, .nil => []
  | _, .cons name _ value rest => (some name, ofJson value) :: ofMembers rest
termination_by structural _ members => members

end

end Draft

/-- The greatest number of lists and objects that may be open at once. -/
def maxDepth : Nat := 127

def ofText (text : String) : Except Fault Json := do
  let (draft, complete) := Draft.ofText text
  let j ← draft.value (.atMost maxDepth)
  if complete then .ok j else .error .malformed

end Conduct.Json
