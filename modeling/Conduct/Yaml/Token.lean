import Conduct.Yaml.Spelling

/-! Texts of YAML as tokens.

Blocks are told apart by the column in which they start, and their starts and ends become tokens of
their own. That a node is a key shows only at the colon after it. So wherever a key may stand, the
place before the node is kept as a candidate, and the colon puts the tokens of a key there. Tags,
anchors, block scalars and directives are not read.
-/

set_option autoImplicit false

namespace Conduct.Yaml

inductive Token
  /-- A block of items, each with a dash, starts. -/
  | itemsStart
  | entriesStart
  | blockEnd
  | dash
  | key
  | value
  | bracketOpen
  | bracketClose
  | braceOpen
  | braceClose
  | comma
  | documentStart
  | documentEnd
  | plain (text : String)
  | quoted (text : String)
  deriving DecidableEq

/-- A node that a colon may still turn into a key. -/
structure Candidate where
  /-- The number of tokens before it. -/
  before : Nat
  index : Nat
  line : Nat
  column : Nat
  /-- Whether it has to become a key: inside of brackets and braces, that is every node in the
  column of the block around them. -/
  required : Bool

namespace Candidate

/-- The greatest number of characters from the start of a key to its colon. -/
def reach : Nat := 1024

/-- Whether a colon at a place comes too late: on another line or too far away. -/
def isPast (c : Candidate) (p : Place) : Bool := c.line < p.line || c.index + reach < p.index

/-- What remains of a candidate at a place, unless it has to become a key and cannot any more. -/
def expire (p : Place) (candidate : Option Candidate) : Option (Option Candidate) :=
  match candidate with
  | none => some none
  | some c => if !c.isPast p then some (some c) else if c.required then none else some none

end Candidate

/-- A text that is read up to a place. -/
structure Lexer where
  place : Place
  /-- The tokens so far, the latest first. -/
  tokens : List Token := []
  /-- The columns of the open blocks, the innermost first. -/
  blocks : List Nat := []
  /-- The candidate inside of the innermost brackets or braces. -/
  candidate : Option Candidate := none
  /-- The candidates around each of the open brackets and braces, the innermost first. -/
  outer : List (Option Candidate) := []
  /-- Whether a key or an item may start here. -/
  keyAllowed : Bool := true
  /-- The index after the latest scalar in quotes. -/
  quotedEnd : Nat := 0

namespace Lexer

/-- Whether the place is inside of brackets or braces. -/
def inFlow (l : Lexer) : Bool := !l.outer.isEmpty

def maxFlowLevel : Nat := 255

def emit (l : Lexer) (t : Token) : Lexer := { l with tokens := t :: l.tokens }

/-- Adds a token that takes a number of characters. -/
def take (l : Lexer) (length : Nat) (t : Token) : Lexer :=
  { l.emit t with place := l.place.skip length }

def emitAfter (l : Lexer) (before : Nat) (t : Token) : Lexer :=
  let later := l.tokens.length - before
  { l with tokens := l.tokens.take later ++ t :: l.tokens.drop later }

/-! ## Candidates -/

def dropCandidate (l : Lexer) : Option Lexer :=
  if (l.candidate.map Candidate.required).getD false then none
  else some { l with candidate := none }

def keepCandidate (l : Lexer) : Option Lexer :=
  if !l.keyAllowed then some l
  else do
    let p := l.place
    let required := l.inFlow && l.blocks.head? = some p.column
    let l ← l.dropCandidate
    some { l with candidate := some ⟨l.tokens.length, p.index, p.line, p.column, required⟩ }

def expireCandidates (l : Lexer) : Option Lexer := do
  let candidate ← Candidate.expire l.place l.candidate
  let outer ← l.outer.mapM (Candidate.expire l.place)
  some { l with candidate, outer }

/-! ## Blocks -/

def isDeeper (l : Lexer) (column : Nat) : Bool := l.blocks.head?.all (· < column)

/-- Opens a block in a column, if it lies inside of the open ones; its start follows the first
tokens. -/
def openBlock (l : Lexer) (column before : Nat) (start : Token) : Lexer :=
  if !l.inFlow && l.isDeeper column then
    { l.emitAfter before start with blocks := column :: l.blocks }
  else l

def closeBlocks (l : Lexer) (stays : Nat → Bool) : Lexer :=
  if l.inFlow then l
  else
    let closed := l.blocks.takeWhile fun column => !stays column
    { l with
      tokens := List.replicate closed.length .blockEnd ++ l.tokens
      blocks := l.blocks.drop closed.length }

/-! ## Gaps between tokens -/

/-- Skips spaces, comments and line ends; tells whether a key may start after them. Outside of
brackets and braces a key may start on each new line. A tab is only skipped where no key may be in
its place. -/
def skipGaps (inFlow : Bool) (keyAllowed inComment : Bool) : List Char → Bool × List Char
  | [] => (keyAllowed, [])
  | c :: cs =>
    if isBreak c then skipGaps inFlow (keyAllowed || !inFlow) false cs
    else if inComment then skipGaps inFlow keyAllowed true cs
    else if c = '#' then skipGaps inFlow keyAllowed true cs
    else if c = ' ' || (c = '\t' && (inFlow || !keyAllowed)) then skipGaps inFlow keyAllowed false cs
    else (keyAllowed, c :: cs)

def toToken (l : Lexer) : Option Lexer := do
  let (keyAllowed, rest) := skipGaps l.inFlow l.keyAllowed false l.place.rest
  let l ← { l with place := l.place.upTo rest, keyAllowed }.expireCandidates
  some (l.closeBlocks (· ≤ l.place.column))

/-! ## Tokens -/

def mark (l : Lexer) (t : Token) : Option Lexer := do
  let l ← (l.closeBlocks fun _ => false).dropCandidate
  some ({ l with keyAllowed := false }.take 3 t)

def openBracket (l : Lexer) (t : Token) : Option Lexer := do
  let l ← l.keepCandidate
  if l.outer.length < maxFlowLevel then
    some ({ l with
      candidate := none
      outer := l.candidate :: l.outer
      keyAllowed := true }.take 1 t)
  else none

def closeBracket (l : Lexer) (t : Token) : Option Lexer := do
  let l ← l.dropCandidate
  some ({ l with
    candidate := l.outer.head?.getD none
    outer := l.outer.tail
    keyAllowed := false }.take 1 t)

def comma (l : Lexer) : Option Lexer := do
  let l ← l.dropCandidate
  some ({ l with keyAllowed := true }.take 1 .comma)

/-- Opens a block here for a sign that may only stand where a key may start. -/
def openHere (l : Lexer) (start : Token) : Option Lexer :=
  if l.keyAllowed then some (l.openBlock l.place.column l.tokens.length start) else none

def dash (l : Lexer) : Option Lexer :=
  if l.inFlow then none
  else do
    let l ← l.openHere .itemsStart
    let l ← l.dropCandidate
    some ({ l with keyAllowed := true }.take 1 .dash)

def questionMark (l : Lexer) : Option Lexer := do
  let l ← if l.inFlow then some l else l.openHere .entriesStart
  let l ← l.dropCandidate
  some ({ l with keyAllowed := !l.inFlow }.take 1 .key)

/-- Reads the colon before a value. It turns the candidate into a key; where there is none, the key
is left out or was read already. -/
def colon (l : Lexer) : Option Lexer :=
  match l.candidate with
  | some c =>
    let l := (l.emitAfter c.before .key).openBlock c.column c.before .entriesStart
    some ({ l with candidate := none, keyAllowed := false }.take 1 .value)
  | none => do
    let l ← if l.inFlow then some l else l.openHere .entriesStart
    some ({ l with keyAllowed := !l.inFlow }.take 1 .value)

def quoted (l : Lexer) (quote : Char) (rest : List Char) : Option Lexer := do
  let l ← l.keepCandidate
  let (text, rest) ← readQuoted quote (rest.length + 1) rest
  let place := l.place.upTo rest
  some ({ l with place, keyAllowed := false, quotedEnd := place.index }.emit
    (.quoted (String.ofList text)))

def plain (l : Lexer) : Option Lexer := do
  let l ← l.keepCandidate
  let indent := (l.blocks.head?.map (· + 1)).getD 0
  let p := l.place
  let read ← readPlain l.inFlow indent (p.rest.length + 1) {} p.column p.rest
  some ({ l with place := p.upTo read.rest, keyAllowed := read.endsLine }.emit
    (.plain (String.ofList read.text)))

/-- Whether the colon that this follows stands before a value. -/
def isValueSign (l : Lexer) (rest : List Char) : Bool :=
  gapFollows rest ||
    (l.inFlow && (flowSignFollows rest || l.place.index = l.quotedEnd))

def token (l : Lexer) (c : Char) (rest : List Char) : Option Lexer :=
  if l.place.column = 0 && tripleFollows '-' l.place.rest then l.mark .documentStart
  else if l.place.column = 0 && tripleFollows '.' l.place.rest then l.mark .documentEnd
  else if c = '[' then l.openBracket .bracketOpen
  else if c = '\x7b' then l.openBracket .braceOpen
  else if c = ']' then l.closeBracket .bracketClose
  else if c = '\x7d' then l.closeBracket .braceClose
  else if c = ',' then l.comma
  else if c = '-' && gapFollows rest then l.dash
  else if c = '?' && gapFollows rest then l.questionMark
  else if c = ':' && l.isValueSign rest then l.colon
  else if c = '"' || c = '\'' then l.quoted c rest
  else if ['*', '&', '!', '%', '@', '\x60'].contains c then none
  else if (c = '|' || c = '>') && !l.inFlow then none
  else l.plain

/-- All tokens of a text. Every step takes a character, so the number of characters bounds the
steps. -/
def run : Nat → Lexer → Option (List Token)
  | 0, _ => none
  | limit + 1, l => do
    let l ← l.toToken
    match l.place.rest with
    | [] => do
      let l ← (l.closeBlocks fun _ => false).dropCandidate
      some l.tokens.reverse
    | c :: rest => do
      let l ← l.token c rest
      run limit l

end Lexer

def Token.ofText (text : String) : Option (List Token) :=
  let p := Place.start text
  Lexer.run (p.rest.length + 1) { place := p }

end Conduct.Yaml
