/-! A place in a text of YAML, and what may follow it.

A line ends in a line feed, in a carriage return or in both. Only a line feed starts a new count of
columns; a carriage return takes a column of its own.
-/

set_option autoImplicit false

namespace Conduct.Yaml

/-! ## Characters -/

def isBreak (c : Char) : Bool := c = '\n' || c = '\r'

def isBlank (c : Char) : Bool := c = ' ' || c = '\t'

def isGap (c : Char) : Bool := isBlank c || isBreak c

def gapFollows (cs : List Char) : Bool := cs.head?.all isGap

/-- Whether the character has a meaning inside brackets and braces. -/
def isFlowSign (c : Char) : Bool := [',', '[', ']', '\x7b', '\x7d'].contains c

def flowSignFollows (cs : List Char) : Bool := cs.head?.any isFlowSign

/-- Whether three of a character follow and nothing else is in that word. -/
def tripleFollows (sign : Char) (cs : List Char) : Bool :=
  cs.take 3 = [sign, sign, sign] && gapFollows (cs.drop 3)

/-- Whether the mark that starts or ends a document follows. -/
def markFollows (cs : List Char) : Bool := tripleFollows '-' cs || tripleFollows '.' cs

/-! ## Places -/

/-- What follows a place in a text, and where the place is. -/
structure Place where
  rest : List Char
  /-- The number of characters before it. -/
  index : Nat
  line : Nat
  column : Nat

namespace Place

def start (text : String) : Place := ⟨text.toList.takeWhile (· ≠ '\x00'), 0, 0, 0⟩

def skip : Nat → Place → Place
  | 0, p => p
  | n + 1, p =>
    match p.rest with
    | [] => p
    | c :: rest =>
      if c = '\n' then skip n ⟨rest, p.index + 1, p.line + 1, 0⟩
      else skip n ⟨rest, p.index + 1, p.line, p.column + 1⟩

/-- The place from which on a part of the rest is left. -/
def upTo (p : Place) (rest : List Char) : Place := p.skip (p.rest.length - rest.length)

end Place

end Conduct.Yaml
