import Conduct.Yaml.Token

/-! Reading a document of YAML from its tokens.

What is left out stands for null. A text that is no single document is not read.
-/

set_option autoImplicit false

namespace Conduct.Yaml

/-- Reads with a function, unless one of some tokens shows that nothing is written here. -/
def unlessAt (stops : List Token) (read : List Token → Option (Yaml × List Token)) (ts : List Token) :
    Option (Yaml × List Token) :=
  if ts.head?.any stops.contains then some (absent, ts) else read ts

/-! ## Brackets and braces -/

mutual

/-- A node that is a scalar or stands in brackets or braces. -/
def flowNode : Nat → List Token → Option (Yaml × List Token)
  | 0, _ => none
  | limit + 1, ts =>
    match ts with
    | .plain text :: ts => some (.plain text, ts)
    | .quoted text :: ts => some (.quoted text, ts)
    | .bracketOpen :: ts => (flowItems limit ts).map fun (items, ts) => (.seq items, ts)
    | .braceOpen :: ts => (flowEntries limit ts).map fun (entries, ts) => (.map entries, ts)
    | _ => none

def flowItems : Nat → List Token → Option (List Yaml × List Token)
  | 0, _ => none
  | limit + 1, ts =>
    match ts with
    | .bracketClose :: ts => some ([], ts)
    | _ => do
      let (item, ts) ← flowItem limit ts
      match ts with
      | .comma :: ts => do
        let (items, ts) ← flowItems limit ts
        some (item :: items, ts)
      | .bracketClose :: ts => some ([item], ts)
      | _ => none

/-- An item in brackets. A single entry in it needs no braces. If its key is left out, the sign
after the key is passed over. -/
def flowItem : Nat → List Token → Option (Yaml × List Token)
  | 0, _ => none
  | limit + 1, ts =>
    match ts with
    | .key :: .value :: ts => flowPair limit absent ts
    | .key :: .comma :: ts => flowPair limit absent ts
    | .key :: .bracketClose :: ts => flowPair limit absent ts
    | .key :: ts => do
      let (key, ts) ← flowNode limit ts
      flowPair limit key ts
    | _ => flowNode limit ts

def flowPair : Nat → Yaml → List Token → Option (Yaml × List Token)
  | 0, _, _ => none
  | limit + 1, key, ts => do
    let (value, ts) ← flowValue limit .bracketClose ts
    some (.map [(key, value)], ts)

def flowEntries : Nat → List Token → Option (List (Yaml × Yaml) × List Token)
  | 0, _ => none
  | limit + 1, ts =>
    match ts with
    | .braceClose :: ts => some ([], ts)
    | _ => do
      let (entry, ts) ← flowEntry limit ts
      match ts with
      | .comma :: ts => do
        let (entries, ts) ← flowEntries limit ts
        some (entry :: entries, ts)
      | .braceClose :: ts => some ([entry], ts)
      | _ => none

/-- An entry in braces. A node without the sign of a key has no value. -/
def flowEntry : Nat → List Token → Option ((Yaml × Yaml) × List Token)
  | 0, _ => none
  | limit + 1, ts =>
    match ts with
    | .key :: ts => do
      let (key, ts) ← unlessAt [.value, .comma, .braceClose] (flowNode limit) ts
      let (value, ts) ← flowValue limit .braceClose ts
      some ((key, value), ts)
    | .value :: _ => do
      let (value, ts) ← flowValue limit .braceClose ts
      some ((absent, value), ts)
    | _ => do
      let (key, ts) ← flowNode limit ts
      some ((key, absent), ts)

def flowValue : Nat → Token → List Token → Option (Yaml × List Token)
  | 0, _, _ => none
  | limit + 1, close, ts =>
    match ts with
    | .value :: ts => unlessAt [.comma, close] (flowNode limit) ts
    | _ => some (absent, ts)

end

/-! ## Blocks -/

mutual

/-- A node. Where `dashes` holds, items may follow that are no block of their own, as their dashes
stand in the column of the entry that they belong to. -/
def blockNode (dashes : Bool) : Nat → List Token → Option (Yaml × List Token)
  | 0, _ => none
  | limit + 1, ts =>
    match ts with
    | .itemsStart :: ts => (blockItems limit ts).map fun (items, ts) => (.seq items, ts)
    | .entriesStart :: ts => (blockEntries limit ts).map fun (entries, ts) => (.map entries, ts)
    | .dash :: _ =>
      if dashes then (looseItems limit ts).map fun (items, ts) => (.seq items, ts) else none
    | _ => flowNode limit ts

def blockItems : Nat → List Token → Option (List Yaml × List Token)
  | 0, _ => none
  | limit + 1, ts =>
    match ts with
    | .blockEnd :: ts => some ([], ts)
    | .dash :: ts => do
      let (item, ts) ← unlessAt [.dash, .blockEnd] (blockNode false limit) ts
      let (items, ts) ← blockItems limit ts
      some (item :: items, ts)
    | _ => none

def looseItems : Nat → List Token → Option (List Yaml × List Token)
  | 0, _ => none
  | limit + 1, ts =>
    match ts with
    | .dash :: ts => do
      let (item, ts) ← unlessAt [.dash, .key, .value, .blockEnd] (blockNode false limit) ts
      let (items, ts) ← looseItems limit ts
      some (item :: items, ts)
    | _ => some ([], ts)

def blockEntries : Nat → List Token → Option (List (Yaml × Yaml) × List Token)
  | 0, _ => none
  | limit + 1, ts =>
    match ts with
    | .blockEnd :: ts => some ([], ts)
    | .key :: ts => do
      let (key, ts) ← unlessAt [.key, .value, .blockEnd] (blockNode true limit) ts
      let (value, ts) ← blockValue limit ts
      let (entries, ts) ← blockEntries limit ts
      some ((key, value) :: entries, ts)
    | .value :: _ => do
      let (value, ts) ← blockValue limit ts
      let (entries, ts) ← blockEntries limit ts
      some ((absent, value) :: entries, ts)
    | _ => none

def blockValue : Nat → List Token → Option (Yaml × List Token)
  | 0, _ => none
  | limit + 1, ts =>
    match ts with
    | .value :: ts => unlessAt [.key, .value, .blockEnd] (blockNode true limit) ts
    | _ => some (absent, ts)

end

/-! ## Documents -/

/-- The first document. It may start with a mark. -/
def firstDocument (limit : Nat) (ts : List Token) : Option (Yaml × List Token) :=
  match ts with
  | [] => none
  | .documentStart :: [] => some (absent, [])
  | .documentStart :: ts => unlessAt [.documentStart, .documentEnd] (blockNode false limit) ts
  | _ => blockNode false limit ts

/-- The one document of a text, after which nothing but marks of its end may follow. Of three steps
in a row at least one takes a token, which bounds the steps. -/
def ofText (text : String) : Option Yaml := do
  let ts ← Token.ofText text
  let (y, ts) ← firstDocument (3 * ts.length + 3) ts
  if ts.all (· = .documentEnd) then some y else none

end Conduct.Yaml
