import Conduct.Yaml.Basic
import Conduct.Yaml.Place

/-! How scalars are spelled.

A scalar may go on in the lines below: a single line end in it counts as a space, and more of them
as one less. Blanks around line ends do not count.
-/

set_option autoImplicit false

namespace Conduct.Yaml

/-! ## Gaps -/

/-- Blanks and line ends between two parts of a scalar. -/
structure Gap where
  /-- The blanks before the first line end. -/
  blanks : List Char := []
  lineEnds : Nat := 0

namespace Gap

def text (g : Gap) : List Char :=
  if g.lineEnds = 0 then g.blanks
  else if g.lineEnds = 1 then [' ']
  else List.replicate (g.lineEnds - 1) '\n'

/-- What stands in a scalar for a gap whose first line end is escaped. -/
def textAfterEscape (g : Gap) : List Char := List.replicate (g.lineEnds - 1) '\n'

/-- Reads on in a gap from a column: gives the gap, the column after it and what follows. Below the
first line, a tab may not stand before the given column. -/
def read (indent : Nat) (g : Gap) (column : Nat) : List Char → Option (Gap × Nat × List Char)
  | [] => some (g, column, [])
  | '\r' :: '\n' :: cs => read indent { g with lineEnds := g.lineEnds + 1 } 0 cs
  | c :: cs =>
    if c = '\n' then read indent { g with lineEnds := g.lineEnds + 1 } 0 cs
    else if c = '\r' then read indent { g with lineEnds := g.lineEnds + 1 } (column + 1) cs
    else if !isBlank c then some (g, column, c :: cs)
    else if g.lineEnds = 0 then read indent { g with blanks := g.blanks ++ [c] } (column + 1) cs
    else if c = '\t' && column < indent then none
    else read indent g (column + 1) cs

end Gap

/-! ## Plain scalars -/

/-- Whether a plain scalar ends before a colon that this follows. -/
def colonEnds (inFlow : Bool) (cs : List Char) : Bool :=
  gapFollows cs || (inFlow && flowSignFollows cs)

/-- The part of a plain scalar up to a gap or to its end, and what follows. -/
def plainPart (inFlow : Bool) : List Char → List Char × List Char
  | [] => ([], [])
  | c :: cs =>
    if isGap c || (c = ':' && colonEnds inFlow cs) || (inFlow && isFlowSign c) then ([], c :: cs)
    else
      let (part, rest) := plainPart inFlow cs
      (c :: part, rest)

structure Plain where
  text : List Char
  /-- Whether line ends follow it, which were read too. -/
  endsLine : Bool
  rest : List Char

/-- Reads on in a plain scalar after a gap, from a column. Outside of brackets and braces it goes on
below as far as it is indented. Every step but the last takes a character, so the number of
characters bounds the steps. -/
def readPlain (inFlow : Bool) (indent : Nat) : Nat → Gap → Nat → List Char → Option Plain
  | 0, _, _, _ => none
  | limit + 1, gap, column, cs =>
    let afterGap : Plain := ⟨[], 0 < gap.lineEnds, cs⟩
    if (column = 0 && markFollows cs) || cs.head? = some '#' then some afterGap
    else
      let (part, rest) := plainPart inFlow cs
      let text := if part.isEmpty then [] else gap.text ++ part
      if rest.head?.any isGap then do
        let (gap, column, rest) ← Gap.read indent {} (column + part.length) rest
        if !inFlow && column < indent then some ⟨text, 0 < gap.lineEnds, rest⟩
        else
          let more ← readPlain inFlow indent limit gap column rest
          some { more with text := text ++ more.text }
      else if part.isEmpty then some afterGap
      else some ⟨text, false, rest⟩

/-! ## Scalars in quotes -/

/-- The character of an escape in double quotes that stands for itself or a fixed character. -/
def fixedEscape? (c : Char) : Option Char :=
  [('0', '\x00'), ('a', '\x07'), ('b', '\x08'), ('t', '\t'), ('\t', '\t'), ('n', '\n'), ('v', '\x0b'),
    ('f', '\x0c'), ('r', '\r'), ('e', '\x1b'), (' ', ' '), ('"', '"'), ('\'', '\''), ('\\', '\\'),
    ('N', '\u0085'), ('_', '\u00a0'), ('L', '\u2028'), ('P', '\u2029')].lookup c

def escapeLength? (c : Char) : Option Nat := [('x', 2), ('u', 4), ('U', 8)].lookup c

def codePoint? (cs : List Char) (length : Nat) : Option (Char × List Char) := do
  let code ← if (cs.take length).length = length then digits? 16 (cs.take length) else none
  if code.isValidChar then some (Char.ofNat code, cs.drop length) else none

def escape? (cs : List Char) : Option (Char × List Char) :=
  match cs with
  | [] => none
  | c :: rest =>
    match fixedEscape? c with
    | some d => some (d, rest)
    | none => (escapeLength? c).bind (codePoint? rest)

/-- The text up to the closing quote and what follows that. No mark of a document may stand at the
start of a line. Every step takes a character, so the number of characters bounds the steps. -/
def readQuoted (quote : Char) : Nat → List Char → Option (List Char × List Char)
  | 0, _ => none
  | limit + 1, cs =>
    match cs with
    | [] => none
    | c :: rest =>
      if isGap c then do
        let (gap, column, rest) ← Gap.read 0 {} 1 cs
        if column = 0 && markFollows rest then none
        else
          let (more, rest) ← readQuoted quote limit rest
          some (gap.text ++ more, rest)
      else if c = quote then
        if quote = '\'' && rest.head? = some quote then do
          let (more, rest) ← readQuoted quote limit rest.tail
          some (quote :: more, rest)
        else some ([], rest)
      else if c = '\\' && quote = '"' then
        if rest.head?.any isBreak then do
          let (gap, column, rest) ← Gap.read 0 {} 1 rest
          if column = 0 && markFollows rest then none
          else
            let (more, rest) ← readQuoted quote limit rest
            some (gap.textAfterEscape ++ more, rest)
        else do
          let (e, rest) ← escape? rest
          let (more, rest) ← readQuoted quote limit rest
          some (e :: more, rest)
      else do
        let (more, rest) ← readQuoted quote limit rest
        some (c :: more, rest)

end Conduct.Yaml
