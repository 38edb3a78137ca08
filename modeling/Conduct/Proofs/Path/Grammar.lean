import Mathlib.Data.List.Forall2
import Mathlib.Data.List.TakeWhile
import Conduct.PropertyPath

/-! The grammar of property paths.

Here a path is described by what it is made of and not by how it is read: a name, and then parts
`.name` and `[index]`. Every reader is tied to its part of the grammar from both sides: what it takes
is spelled as the grammar says, and it takes all of what is spelled so, as long as what follows cannot
belong to it. Main statements: `name?_append`, `index?_append` and `parts_append`, and for the other
side `name?_eq_some`, `index?_eq_some` and `parts_eq`.
-/

set_option autoImplicit false

namespace Conduct

namespace PropertyPath

/-! ## The grammar -/

/-- A letter or an underscore, and then letters, digits, underscores and hyphens, all of ASCII. -/
def IsName : List Char → Prop
  | [] => False
  | c :: cs => (c.isAlpha = true ∨ c = '_') ∧ ∀ d ∈ cs, d.isAlphanum = true ∨ d = '_' ∨ d = '-'

/-- Digits, at least one of them, that stand for a number of 64 bits. -/
structure IsIndex (digits : List Char) (n : Nat) : Prop where
  nonempty : digits ≠ []
  digit : ∀ d ∈ digits, d.isDigit = true
  value : Nat.ofDigitChars 10 digits 0 = n
  fits : n ≤ 0xffffffffffffffff

inductive SpellsPart : List Char → PathSegment → Prop
  | key {name : List Char} (h : IsName name) :
      SpellsPart ('.' :: name) (.key (String.ofList name))
  | index {digits : List Char} {n : Nat} (h : IsIndex digits n) :
      SpellsPart ('[' :: digits ++ [']']) (.index n)

/-- The text, without space around it, is a path of these segments. -/
inductive Spells : List Char → PropertyPath → Prop
  | mk {name : List Char} {texts : List (List Char)} {segments : List PathSegment}
      (hname : IsName name) (hparts : List.Forall₂ SpellsPart texts segments) :
      Spells (name ++ texts.flatten) (.key (String.ofList name) :: segments)

/-! ## Classes of characters -/

theorem startsName_iff {c : Char} : startsName c = true ↔ c.isAlpha = true ∨ c = '_' := by
  have halpha : c.isAlpha = (decide ('A' ≤ c ∧ c ≤ 'Z') || ('a' ≤ c && c ≤ 'z')) := rfl
  simp only [startsName, halpha, Bool.or_eq_true, Bool.and_eq_true, decide_eq_true_eq]
  grind

theorem isDigit_eq (c : Char) : isDigit c = c.isDigit := by
  simp [isDigit, Char.isDigit, Char.le_def]

theorem continuesName_iff {c : Char} :
    continuesName c = true ↔ c.isAlphanum = true ∨ c = '_' ∨ c = '-' := by
  simp only [continuesName, Bool.or_eq_true, startsName_iff, isDigit_eq, Char.isAlphanum,
    decide_eq_true_eq]
  grind

theorem isSpace_iff {c : Char} : isSpace c = true ↔ c ∈ [' ', '\t', '\r', '\n'] := by
  simp [isSpace, or_assoc]

/-- What stops a run of a class stands right behind the characters of the class. -/
theorem span_append {p : Char → Bool} {body rest : List Char} (hbody : ∀ c ∈ body, p c = true)
    (hrest : ∀ c ∈ rest.head?, p c = false) :
    (body ++ rest).takeWhile p = body ∧ (body ++ rest).dropWhile p = rest := by
  rw [List.takeWhile_append_of_pos hbody, List.dropWhile_append_of_pos hbody]
  cases rest with
  | nil => simp
  | cons c rest => simp [hrest c rfl]

/-! ## Names -/

variable {cs rest : List Char} {name : String} {digits : List Char} {n : Nat}

theorem isName_cons {c : Char} : IsName (c :: cs) ↔
    startsName c = true ∧ ∀ d ∈ cs, continuesName d = true := by
  simp only [IsName, startsName_iff, continuesName_iff]

theorem name?_append {body : List Char} (h : IsName body)
    (hrest : ∀ c ∈ rest.head?, continuesName c = false) :
    name? (body ++ rest) = some (String.ofList body, rest) := by
  cases body with
  | nil => exact h.elim
  | cons c cs =>
    obtain ⟨hc, hcs⟩ := isName_cons.1 h
    obtain ⟨htake, hdrop⟩ := span_append hcs hrest
    rw [List.cons_append, name?, if_pos hc, htake, hdrop]

theorem name?_eq_some (h : name? cs = some (name, rest)) :
    ∃ body, IsName body ∧ name = String.ofList body ∧ cs = body ++ rest := by
  cases cs with
  | nil => cases h
  | cons c cs =>
    rw [name?] at h
    split at h
    · next hc =>
      cases h
      refine ⟨c :: cs.takeWhile continuesName, isName_cons.2 ⟨hc, ?_⟩, rfl, ?_⟩
      · exact fun d hd => List.mem_takeWhile_imp hd
      · rw [List.cons_append, List.takeWhile_append_dropWhile]
    · cases h

/-! ## Indices -/

theorem ofDigits_eq (digits : List Char) : ofDigits digits = Nat.ofDigitChars 10 digits 0 := by
  rw [ofDigits, Nat.ofDigitChars_eq_foldl]
  congr
  funext n c
  rw [Nat.mul_comm]
  rfl

theorem isIndex_iff : IsIndex digits n ↔ digits ≠ [] ∧ (∀ d ∈ digits, isDigit d = true) ∧
    ofDigits digits = n ∧ n < indexBound := by
  have hbound : n < indexBound ↔ n ≤ 0xffffffffffffffff := Nat.lt_iff_le_pred (by decide)
  rw [hbound, ofDigits_eq]
  simp only [isDigit_eq]
  exact ⟨fun h => ⟨h.nonempty, h.digit, h.value, h.fits⟩, fun ⟨ha, hb, hc, hd⟩ => ⟨ha, hb, hc, hd⟩⟩

theorem index?_append (h : IsIndex digits n) : index? (digits ++ ']' :: rest) = some (n, rest) := by
  obtain ⟨hne, hdigit, hvalue, hfits⟩ := isIndex_iff.1 h
  have hstop : ∀ c ∈ (']' :: rest).head?, isDigit c = false := fun c hc => by
    cases hc
    decide
  obtain ⟨htake, hdrop⟩ := span_append hdigit hstop
  have hempty : digits.isEmpty = false := by simpa using hne
  simp only [index?, htake, hdrop, hempty, hvalue, Nat.not_le.2 hfits, Bool.false_or,
    decide_false, Bool.false_eq_true, if_false]

theorem index?_eq_some (h : index? cs = some (n, rest)) :
    ∃ digits, IsIndex digits n ∧ cs = digits ++ ']' :: rest := by
  unfold index? at h
  split at h
  · next hrest =>
    dsimp only at h
    split at h
    · cases h
    · next hgood =>
      cases h
      simp only [Bool.or_eq_true, decide_eq_true_eq, List.isEmpty_iff, not_or, Nat.not_le] at hgood
      refine ⟨cs.takeWhile isDigit, isIndex_iff.2 ⟨hgood.1, ?_, rfl, hgood.2⟩, ?_⟩
      · exact fun d hd => List.mem_takeWhile_imp hd
      · rw [← hrest, List.takeWhile_append_dropWhile]
  · cases h

/-! ## Parts -/

variable {text : List Char} {segment : PathSegment} {segments : List PathSegment}
  {texts : List (List Char)}

theorem part?_append (h : SpellsPart text segment)
    (hrest : ∀ c ∈ rest.head?, continuesName c = false) :
    part? (text ++ rest) = some (segment, rest) := by
  cases h with
  | key hname =>
    rw [List.cons_append, part?, name?_append hname hrest]
    rfl
  | index hindex =>
    rw [List.append_assoc, List.cons_append, List.singleton_append, part?, index?_append hindex]
    rfl

theorem part?_eq_some (h : part? cs = some (segment, rest)) :
    ∃ text, SpellsPart text segment ∧ cs = text ++ rest := by
  unfold part? at h
  split at h
  · obtain ⟨⟨name, rest'⟩, hname, he⟩ := Option.map_eq_some_iff.1 h
    cases he
    obtain ⟨body, hbody, rfl, rfl⟩ := name?_eq_some hname
    exact ⟨'.' :: body, .key hbody, rfl⟩
  · obtain ⟨⟨n, rest'⟩, hindex, he⟩ := Option.map_eq_some_iff.1 h
    cases he
    obtain ⟨digits, hdigits, rfl⟩ := index?_eq_some hindex
    exact ⟨'[' :: digits ++ [']'], .index hdigits, by simp⟩
  · cases h

/-- A part starts with what no name goes on with. -/
theorem SpellsPart.head (h : SpellsPart text segment) :
    ∃ c cs, text = c :: cs ∧ continuesName c = false := by
  cases h with
  | key hname => exact ⟨'.', _, rfl, by decide⟩
  | index hindex => exact ⟨'[', _, rfl, by decide⟩

/-- No name goes on where parts start, unless there are none and it goes on behind them. -/
theorem head_flatten (h : List.Forall₂ SpellsPart texts segments)
    (hrest : ∀ c ∈ rest.head?, continuesName c = false) :
    ∀ c ∈ (texts.flatten ++ rest).head?, continuesName c = false := by
  cases h with
  | nil => exact hrest
  | cons hpart _ =>
    obtain ⟨c, cs, rfl, hc⟩ := hpart.head
    intro d hd
    cases hd
    exact hc

theorem parts_append (h : List.Forall₂ SpellsPart texts segments) {limit : Nat}
    (hlimit : texts.length ≤ limit) (hrest : ∀ c ∈ rest.head?, continuesName c = false)
    (hstop : part? rest = none) : parts limit (texts.flatten ++ rest) = (segments, rest) := by
  induction h generalizing limit with
  | nil =>
    cases limit with
    | zero => rfl
    | succ limit => simp only [List.flatten_nil, List.nil_append, parts, hstop]
  | cons hpart hparts ih =>
    cases limit with
    | zero => cases hlimit
    | succ limit =>
      have hread := part?_append hpart (head_flatten hparts hrest)
      simp only [List.flatten_cons, List.append_assoc, parts, hread,
        ih (Nat.le_of_succ_le_succ hlimit)]

theorem parts_eq {limit : Nat} (h : parts limit cs = (segments, rest)) :
    ∃ texts, List.Forall₂ SpellsPart texts segments ∧ cs = texts.flatten ++ rest := by
  induction limit generalizing cs segments with
  | zero =>
    cases h
    exact ⟨[], .nil, rfl⟩
  | succ limit ih =>
    rw [parts] at h
    split at h
    · cases h
      exact ⟨[], .nil, rfl⟩
    · next segment rest' hpart =>
      cases h
      obtain ⟨text, htext, rfl⟩ := part?_eq_some hpart
      obtain ⟨texts, htexts, he⟩ := ih (Eq.refl (parts limit rest'))
      refine ⟨text :: texts, .cons htext htexts, ?_⟩
      rw [List.flatten_cons, List.append_assoc, ← he]

end PropertyPath

end Conduct
