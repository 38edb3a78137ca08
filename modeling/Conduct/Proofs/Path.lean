import Conduct.Proofs.Path.Grammar

/-! What is read as a property path.

The texts that are read are those of the grammar, with space, tabs and line ends around them, and each is
read as the path that it spells; the written form of a path is among them. Main statements:
`parse_eq_ok_iff`, `refusal_of_parse` and `parses_grammar`.
-/

set_option autoImplicit false

namespace Conduct

/-! ## Writing paths -/

/-- How a part of a path is written after its first name. -/
def PathSegment.written : PathSegment → List Char
  | .key name => '.' :: name.toList
  | .index n => '[' :: Nat.toDigits 10 n ++ [']']

/-- A segment that can be written: a name of the grammar, or an index of 64 bits. -/
def PathSegment.Writable : PathSegment → Prop
  | .key name => PropertyPath.IsName name.toList
  | .index n => n ≤ 0xffffffffffffffff

namespace PropertyPath

open Text (isBlank trimBlanks)

/-- The text of a path, of which the first name stands without a point. -/
def text : PropertyPath → String
  | .key name :: rest => String.ofList (name.toList ++ rest.flatMap PathSegment.written)
  | path => String.ofList (path.flatMap PathSegment.written)

theorem isIndex_toDigits {n : Nat} (h : n ≤ 0xffffffffffffffff) : IsIndex (Nat.toDigits 10 n) n where
  nonempty := Nat.toDigits_ne_nil
  digit _ hd := Nat.isDigit_of_mem_toDigits (by decide) (by decide) hd
  value := Nat.ofDigitChars_ten_toDigits
  fits := h

theorem spellsPart_written {s : PathSegment} (h : s.Writable) : SpellsPart s.written s := by
  cases s with
  | key name =>
    have hpart : SpellsPart ('.' :: name.toList) (.key (String.ofList name.toList)) := .key h
    rwa [String.ofList_toList] at hpart
  | index n => exact .index (isIndex_toDigits h)

theorem spells_text {name : String} {rest : List PathSegment}
    (h : ∀ s ∈ PathSegment.key name :: rest, s.Writable) :
    Spells (text (.key name :: rest)).toList (.key name :: rest) := by
  obtain ⟨hname, hrest⟩ := List.forall_mem_cons.1 h
  have hparts : List.Forall₂ SpellsPart (rest.map PathSegment.written) rest := by
    rw [List.forall₂_map_left_iff]
    exact List.forall₂_same.2 fun s hs => spellsPart_written (hrest s hs)
  have hspells := Spells.mk (show IsName name.toList from hname) hparts
  rw [String.ofList_toList] at hspells
  rwa [text, String.toList_ofList, List.flatMap]

/-! ## White space and paths -/

variable {before text after rest : List Char} {path : PropertyPath} {input : String}

theorem isBlank_of_isSpace {c : Char} (h : isSpace c = true) : isBlank c = true := by
  have hc := isSpace_iff.1 h
  simp only [List.mem_cons, List.not_mem_nil, or_false] at hc
  rcases hc with rfl | rfl | rfl | rfl <;> decide

theorem toNat_of_continuesName {c : Char} (h : continuesName c = true) :
    (48 ≤ c.toNat ∧ c.toNat ≤ 57) ∨ (65 ≤ c.toNat ∧ c.toNat ≤ 90) ∨
      (97 ≤ c.toNat ∧ c.toNat ≤ 122) ∨ c.toNat = 95 ∨ c.toNat = 45 := by
  simp only [continuesName, startsName, isDigit, Char.le_def, UInt32.le_iff_toNat_le,
    Bool.or_eq_true, Bool.and_eq_true, decide_eq_true_eq] at h
  change ((((97 ≤ c.toNat ∧ c.toNat ≤ 122) ∨ (65 ≤ c.toNat ∧ c.toNat ≤ 90)) ∨ c = '_') ∨
    (48 ≤ c.toNat ∧ c.toNat ≤ 57)) ∨ c = '-' at h
  rcases h with (((h | h) | rfl) | h) | rfl
  · omega
  · omega
  · decide
  · omega
  · decide

theorem not_isBlank_of_continuesName {c : Char} (h : continuesName c = true) :
    isBlank c = false := by
  have hc := toNat_of_continuesName h
  rw [Bool.eq_false_iff]
  intro hblank
  simp only [isBlank, Bool.or_eq_true, Bool.and_eq_true, decide_eq_true_eq, beq_iff_eq] at hblank
  omega

theorem solid_of_isName {name : List Char} (h : IsName name) : ∀ c ∈ name, isBlank c = false := by
  cases name with
  | nil => exact h.elim
  | cons c cs =>
    obtain ⟨hc, hcs⟩ := isName_cons.1 h
    refine List.forall_mem_cons.2 ⟨not_isBlank_of_continuesName ?_, ?_⟩
    · simp only [continuesName, hc, Bool.true_or]
    · exact fun d hd => not_isBlank_of_continuesName (hcs d hd)

theorem solid_of_spellsPart {s : PathSegment} (h : SpellsPart text s) :
    ∀ c ∈ text, isBlank c = false := by
  cases h with
  | key hname => exact List.forall_mem_cons.2 ⟨by decide, solid_of_isName hname⟩
  | @index digits n hindex =>
    have hdigits : ∀ c ∈ digits, isBlank c = false := fun c hc =>
      not_isBlank_of_continuesName
        (continuesName_iff.2 (.inl (by simp only [Char.isAlphanum, hindex.digit c hc, Bool.or_true])))
    refine List.forall_mem_append.2 ⟨List.forall_mem_cons.2 ⟨by decide, hdigits⟩, ?_⟩
    exact List.forall_mem_singleton.2 (by decide)

/-- There is no white space inside a path. -/
theorem Spells.solid (h : Spells text path) : ∀ c ∈ text, isBlank c = false := by
  obtain ⟨hname, hparts⟩ := h
  refine List.forall_mem_append.2 ⟨solid_of_isName hname, ?_⟩
  clear hname
  induction hparts with
  | nil => exact fun c hc => absurd hc List.not_mem_nil
  | cons hpart _ ih => exact List.forall_mem_append.2 ⟨solid_of_spellsPart hpart, ih⟩

theorem Spells.head (h : Spells text path) : ∃ c cs, text = c :: cs ∧ startsName c = true := by
  obtain @⟨name, texts, segments, hname, hparts⟩ := h
  cases name with
  | nil => exact hname.elim
  | cons c cs => exact ⟨c, cs ++ texts.flatten, rfl, (isName_cons.1 hname).1⟩

/-- White space around a path is all that is cut off. -/
theorem Spells.trimBlanks_append (h : Spells text path) (hbefore : ∀ c ∈ before, isBlank c = true)
    (hafter : ∀ c ∈ after, isBlank c = true) : trimBlanks (before ++ text ++ after) = text := by
  rw [Text.trimBlanks_append text hbefore hafter, Text.trimBlanks_of_solid h.solid]

/-! ## Reading paths -/

theorem not_continuesName_of_isSpace {c : Char} (h : isSpace c = true) :
    continuesName c = false := by
  rw [Bool.eq_false_iff]
  intro hc
  have hblank := not_isBlank_of_continuesName hc
  rw [isBlank_of_isSpace h] at hblank
  cases hblank

theorem part?_of_isSpace (h : ∀ c ∈ after, isSpace c = true) : part? after = none := by
  cases after with
  | nil => rfl
  | cons c cs =>
    have hc := h c List.mem_cons_self
    unfold part?
    split
    · next he =>
      cases he
      cases hc
    · next he =>
      cases he
      cases hc
    · rfl

theorem length_le_flatten {texts : List (List Char)} {segments : List PathSegment}
    (h : List.Forall₂ SpellsPart texts segments) : texts.length ≤ texts.flatten.length := by
  induction h with
  | nil => exact Nat.le_refl 0
  | cons hpart _ ih =>
    obtain ⟨c, cs, rfl, -⟩ := hpart.head
    rw [List.flatten_cons, List.length_append, List.length_cons, List.length_cons]
    omega

theorem segments?_append (h : Spells text path) (hbefore : ∀ c ∈ before, isSpace c = true)
    (hafter : ∀ c ∈ after, isSpace c = true) :
    segments? (before ++ text ++ after) = some (path, []) := by
  obtain ⟨c, cs, he, hc⟩ := h.head
  obtain @⟨name, texts, segments, hname, hparts⟩ := h
  have hstop : ∀ c ∈ after.head?, continuesName c = false := fun c hc =>
    not_continuesName_of_isSpace (hafter c (List.mem_of_mem_head? hc))
  have hlimit : texts.length ≤ (texts.flatten ++ after).length := by
    have := length_le_flatten hparts
    rw [List.length_append]
    omega
  have hfirst : ∀ d ∈ (name ++ texts.flatten ++ after).head?, isSpace d = false := by
    intro d hd
    rw [he] at hd
    cases hd
    rw [Bool.eq_false_iff]
    intro hspace
    have hstops := not_continuesName_of_isSpace hspace
    rw [continuesName, hc] at hstops
    cases hstops
  obtain ⟨-, hskip⟩ := span_append hbefore hfirst
  have hend : after.dropWhile isSpace = [] := List.dropWhile_eq_nil_iff.2 hafter
  rw [List.append_assoc before, segments?, hskip, List.append_assoc name,
    name?_append hname (head_flatten hparts hstop)]
  dsimp only [bind, Option.bind]
  rw [parts_append hparts hlimit hstop (part?_of_isSpace hafter), hend]

theorem segments?_eq_some {cs : List Char} (h : segments? cs = some (path, rest)) :
    ∃ before text after, cs = before ++ text ++ after ++ rest ∧
      (∀ c ∈ before ++ after, isSpace c = true) ∧ Spells text path := by
  have hspace : ∀ cs : List Char, ∀ c ∈ cs.takeWhile isSpace, isSpace c = true :=
    fun cs c hc => List.mem_takeWhile_imp hc
  obtain ⟨⟨name, more⟩, hname, h⟩ := Option.bind_eq_some_iff.1 h
  obtain ⟨body, hbody, rfl, hcs⟩ := name?_eq_some hname
  obtain ⟨texts, htexts, hmore⟩ := parts_eq (Eq.refl (parts more.length more))
  cases h
  refine ⟨cs.takeWhile isSpace, _, (parts more.length more).2.takeWhile isSpace, ?_,
    List.forall_mem_append.2 ⟨hspace _, hspace _⟩, .mk hbody htexts⟩
  calc cs = cs.takeWhile isSpace ++ (body ++ more) := by
        rw [← hcs, List.takeWhile_append_dropWhile]
    _ = cs.takeWhile isSpace ++ (body ++ (texts.flatten ++ (parts more.length more).2)) := by
        rw [← hmore]
    _ = cs.takeWhile isSpace ++ (body ++ texts.flatten) ++
          (parts more.length more).2.takeWhile isSpace ++
          (parts more.length more).2.dropWhile isSpace := by
        simp only [List.append_assoc, List.takeWhile_append_dropWhile]

/-! ## What a text is read as -/

theorem parse_eq_ok_iff : parse input = .ok path ↔ ∃ before text after,
    input.toList = before ++ text ++ after ∧ (∀ c ∈ before ++ after, isSpace c = true) ∧
      Spells text path := by
  constructor
  · intro h
    unfold parse at h
    split at h
    · cases h
    · cases h
    · split at h
      · next hread =>
        cases h
        obtain ⟨before, text, after, he, hspace, hspells⟩ := segments?_eq_some hread
        rw [List.append_nil] at he
        exact ⟨before, text, after, he, hspace, hspells⟩
      · cases h
      · cases h
  · rintro ⟨before, text, after, he, hspace, hspells⟩
    obtain ⟨hbefore, hafter⟩ := List.forall_mem_append.1 hspace
    have htrim := hspells.trimBlanks_append (fun c hc => isBlank_of_isSpace (hbefore c hc))
      (fun c hc => isBlank_of_isSpace (hafter c hc))
    obtain ⟨c, cs, rfl, hc⟩ := hspells.head
    unfold parse
    rw [he, htrim, segments?_append hspells hbefore hafter]
    split
    · next h => cases h
    · next h =>
      cases h
      cases hc
    · rfl

theorem eq_key_of_parse (h : parse input = .ok path) : ∃ name rest, path = .key name :: rest := by
  obtain ⟨before, text, after, -, -, hspells⟩ := parse_eq_ok_iff.1 h
  cases hspells
  exact ⟨_, _, rfl⟩

/-- Why a text is not read as a path. -/
inductive Refusal (input : String) : PathError → Prop
  | empty (h : trimBlanks input.toList = []) : Refusal input .empty
  | leadingIndex {cs : List Char} (h : trimBlanks input.toList = '[' :: cs) :
      Refusal input (.leadingIndex input)
  | unexpected {rest : String} (hrest : rest ≠ "") (hne : trimBlanks input.toList ≠ [])
      (hopen : ∀ cs, trimBlanks input.toList ≠ '[' :: cs) :
      Refusal input (.unexpected input rest)

theorem ofList_ne_empty {cs : List Char} (h : cs ≠ []) : String.ofList cs ≠ "" := by
  intro he
  exact h (by simpa using congrArg String.toList he)

theorem refusal_of_parse {e : PathError} (h : parse input = .error e) : Refusal input e := by
  unfold parse at h
  split at h
  · next htrim =>
    cases h
    exact .empty htrim
  · next cs htrim =>
    cases h
    exact .leadingIndex htrim
  · next hne hopen =>
    have hopen : ∀ cs, trimBlanks input.toList ≠ '[' :: cs := fun cs he => hopen cs he
    split at h
    · cases h
    · next hrest _ =>
      cases h
      exact .unexpected (ofList_ne_empty hrest) hne hopen
    · cases h
      exact .unexpected (ofList_ne_empty hne) hne hopen

/-- A text is read as a path if and only if it is one by the grammar, with nothing but spaces, tabs,
carriage returns and line feeds around it. In particular every path that can be written is read from its
text, and all that is read starts with a name. Any other text is refused for being empty, for starting
with an index, or for a rest, which is not empty. -/
theorem parses_grammar (input : String) (path : PropertyPath) :
    (parse input = .ok path ↔ ∃ before text after, input.toList = before ++ text ++ after ∧
      (∀ c ∈ before ++ after, c ∈ [' ', '\t', '\r', '\n']) ∧ Spells text path) ∧
    ((∃ name rest, path = .key name :: rest) → (∀ s ∈ path, s.Writable) →
      parse path.text = .ok path) ∧
    (parse input = .ok path → ∃ name rest, path = .key name :: rest) ∧
    ((∀ path, parse input ≠ .ok path) → parse input = .error .empty ∨
      parse input = .error (.leadingIndex input) ∨
      ∃ rest, rest ≠ "" ∧ parse input = .error (.unexpected input rest)) := by
  simp only [← isSpace_iff]
  refine ⟨parse_eq_ok_iff, ?_, eq_key_of_parse, ?_⟩
  · rintro ⟨name, rest, rfl⟩ hwritable
    exact parse_eq_ok_iff.2 ⟨[], _, [], by simp, nofun, spells_text hwritable⟩
  · intro hnot
    cases h : parse input with
    | ok path => exact absurd h (hnot path)
    | error e =>
      cases refusal_of_parse h with
      | empty => exact .inl rfl
      | leadingIndex => exact .inr (.inl rfl)
      | unexpected hrest => exact .inr (.inr ⟨_, hrest, rfl⟩)

/-- Zeros in front of an index and a hyphen in a name are read, and in the written form of the path the
zeros are gone. -/
theorem parses_grammar_nested :
    parse "\tgrid[007].max-hp\n" = .ok [.key "grid", .index 7, .key "max-hp"] ∧
      parse "grid[7].max-hp" = .ok [.key "grid", .index 7, .key "max-hp"] := by
  obtain ⟨hread, hwritten, -⟩ :=
    parses_grammar "\tgrid[007].max-hp\n" [.key "grid", .index 7, .key "max-hp"]
  have hgrid : IsName "grid".toList := isName_cons.2 ⟨by decide, List.all_eq_true.1 (by decide)⟩
  have hmax : IsName "max-hp".toList := isName_cons.2 ⟨by decide, List.all_eq_true.1 (by decide)⟩
  have hindex : IsIndex ['0', '0', '7'] 7 :=
    ⟨nofun, List.all_eq_true.1 (by decide), by decide, by decide⟩
  refine ⟨hread.2 ⟨['\t'], "grid[007].max-hp".toList, ['\n'], by decide, by simp, ?_⟩,
    hwritten ⟨_, _, rfl⟩ ?_⟩
  · exact .mk hgrid (.cons (.index hindex) (.cons (.key hmax) .nil))
  · intro s hs
    simp only [List.mem_cons, List.not_mem_nil, or_false] at hs
    rcases hs with rfl | rfl | rfl
    · exact hgrid
    · show 7 ≤ 0xffffffffffffffff
      decide
    · exact hmax

end PropertyPath

end Conduct
