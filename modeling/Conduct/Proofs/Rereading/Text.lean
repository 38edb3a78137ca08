import Conduct.Json.Outline
import Conduct.Proofs.Rereading.Floats

/-! The parts of a text that are read back as they are written.

Blanks are passed over wherever a value, an item or a member starts, escapes are undone, and a number
is read up to what follows it. Main statements: `stringChars_escaped`, `readValue_list`,
`readValue_fields` and `readValue_number`.
-/

set_option autoImplicit false

namespace Conduct.Json

variable {cs rest blanks : List Char}

/-! ## Blanks -/

def Blank (cs : List Char) : Prop := ∀ c ∈ cs, isSpace c = true

/-- A layout that puts nothing but blanks between the parts of a text. -/
structure Spacing.Blank (spacing : Spacing) : Prop where
  line : ∀ level, Json.Blank (spacing.line level)
  afterColon : Json.Blank spacing.afterColon

theorem Spacing.blank_lines : Spacing.lines.Blank where
  line level c hc := by
    rcases List.mem_cons.1 hc with rfl | hc
    · rfl
    · rw [List.eq_of_mem_replicate hc]
      rfl
  afterColon c hc := by
    rw [List.mem_singleton.1 hc]
    rfl

theorem skipSpace_append (h : Blank blanks) (cs : List Char) :
    skipSpace (blanks ++ cs) = skipSpace cs :=
  List.dropWhile_append_of_pos h

theorem skipSpace_cons {c : Char} (hc : isSpace c = false) (cs : List Char) :
    skipSpace (c :: cs) = c :: cs :=
  List.dropWhile_cons_of_neg (by simp [hc])

theorem endsLiteral_nil : EndsLiteral [] := nofun

theorem endsLiteral_cons {c : Char} (h : isDigit c = false ∧ c ≠ '.' ∧ c ≠ 'e' ∧ c ≠ 'E')
    (cs : List Char) : EndsLiteral (c :: cs) := fun _ hd => Option.some.inj hd ▸ h

theorem not_literal_of_isSpace {c : Char} (hc : isSpace c = true) :
    isDigit c = false ∧ c ≠ '.' ∧ c ≠ 'e' ∧ c ≠ 'E' := by
  simp only [isSpace, Bool.or_eq_true, decide_eq_true_eq] at hc
  rcases hc with ((rfl | rfl) | rfl) | rfl <;> decide

theorem EndsLiteral.append (hrest : EndsLiteral rest) (h : Blank blanks) :
    EndsLiteral (blanks ++ rest) := by
  cases blanks with
  | nil => exact hrest
  | cons c blanks => exact endsLiteral_cons (not_literal_of_isSpace (h c List.mem_cons_self)) _

/-! ## Strings -/

theorem hexValue?_digitChar : ∀ d < 16, hexValue? (Nat.digitChar d) = some d := by decide

theorem hexQuad_digits {n : Nat} (hn : n < 256) (rest : List Char) :
    hexQuad ('0' :: '0' :: Nat.digitChar (n / 16) :: Nat.digitChar (n % 16) :: rest) =
      .ok (n, rest) := by
  have hbytes : ¬byteCount ['0', '0', Nat.digitChar (n / 16), Nat.digitChar (n % 16)] < 4 := by
    have hhigh := (Nat.digitChar (n / 16)).utf8Size_pos
    have hlow := (Nat.digitChar (n % 16)).utf8Size_pos
    have hzero : ('0' : Char).utf8Size = 1 := rfl
    simp only [byteCount, List.foldr_cons, List.foldr_nil, hzero]
    omega
  rw [hexQuad, List.take_succ_cons, List.take_succ_cons, List.take_succ_cons, List.take_succ_cons,
    List.take_zero, if_neg hbytes]
  have hzero : hexValue? '0' = some 0 := rfl
  simp only [hzero, hexValue?_digitChar _ (show n / 16 < 16 by omega),
    hexValue?_digitChar _ (show n % 16 < 16 by omega)]
  refine congrArg (fun n => Except.ok (n, rest)) ?_
  omega

/-- A control character is read back from its code unit. -/
theorem codeUnits_digits {c : Char} (hc : c.toNat < 0x20) (rest : List Char) :
    codeUnits false ('0' :: '0' :: Nat.digitChar (c.toNat / 16) :: Nat.digitChar (c.toNat % 16) ::
      rest) = .ok (c, rest) := by
  have hlow : isLowHalf c.toNat = false := by
    simp only [isLowHalf, Bool.and_eq_false_iff, decide_eq_false_iff_not]
    omega
  have hhigh : isHighHalf c.toNat = false := by
    simp only [isHighHalf, Bool.and_eq_false_iff, decide_eq_false_iff_not]
    omega
  rw [codeUnits, hexQuad_digits (by omega)]
  simp only [bind, Except.bind, Bool.false_eq_true, if_false, hlow, hhigh, Char.ofNat_toNat]

theorem nextChar_escaped (c : Char) (rest : List Char) :
    nextChar false (escaped c ++ rest) = .ok (some c, rest) := by
  unfold escaped
  split
  · next h => rw [h]; rfl
  split
  · next h => rw [h]; rfl
  split
  · next h => rw [h]; rfl
  split
  · next h => rw [h]; rfl
  split
  · next h => rw [h]; rfl
  split
  · next h => rw [h]; rfl
  split
  · next h => rw [h]; rfl
  split
  · next hcontrol =>
    show (codeUnits false ('0' :: '0' :: _ :: _ :: rest)).map _ = _
    rw [codeUnits_digits hcontrol]
    rfl
  · next hquote hslash _ _ _ _ _ hprint =>
    show nextChar false (c :: rest) = _
    unfold nextChar
    split
    · next heq => cases heq
    · next heq => exact absurd (List.cons.inj heq).1 hquote
    · next heq => exact absurd (List.cons.inj heq).1 hslash
    · next heq =>
      cases heq
      rw [if_neg hprint]

theorem stringChars_escaped (cs rest : List Char) {limit : Nat} (hlimit : cs.length < limit) :
    stringChars false limit (cs.flatMap escaped ++ '"' :: rest) = .ok (cs, rest) := by
  induction cs generalizing limit with
  | nil =>
    obtain ⟨limit, rfl⟩ := Nat.exists_eq_add_one_of_ne_zero (Nat.ne_of_gt hlimit)
    rfl
  | cons c cs ih =>
    obtain ⟨limit, rfl⟩ := Nat.exists_eq_add_one_of_ne_zero (Nat.ne_zero_of_lt hlimit)
    rw [List.flatMap_cons, List.append_assoc, stringChars, nextChar_escaped]
    simp only [bind, Except.bind, ih (Nat.lt_of_succ_lt_succ hlimit)]

theorem length_le_length_escaped (cs : List Char) : cs.length ≤ (cs.flatMap escaped).length := by
  induction cs with
  | nil => exact Nat.le_refl 0
  | cons c cs ih =>
    have hpos : 0 < (escaped c).length := by
      unfold escaped
      split_ifs <;> exact Nat.succ_pos _
    rw [List.flatMap_cons, List.length_append, List.length_cons]
    omega

theorem stringText_eq (s : String) : stringText s = '"' :: (s.toList.flatMap escaped ++ ['"']) := rfl

/-- A string is read from its text after the opening quote. -/
theorem readString_escaped (s : String) (rest : List Char) (limit : Nat)
    (hlimit : (stringText s).length ≤ limit + 1) :
    readString limit (s.toList.flatMap escaped ++ '"' :: rest) = .ok (some s, rest) := by
  have hlength : s.toList.length < limit := by
    have := length_le_length_escaped s.toList
    rw [stringText_eq, List.length_cons, List.length_append, List.length_singleton] at hlimit
    omega
  rw [readString, stringChars_escaped _ _ hlength]
  simp only [String.ofList_toList]


/-! ## Reading on -/

variable {limit : Nat}

theorem readValue_append (h : Blank blanks) (limit : Nat) (cs : List Char) :
    readValue limit (blanks ++ cs) = readValue limit cs := by
  cases limit with
  | zero => rfl
  | succ limit => rw [readValue, readValue, skipSpace_append h]

theorem readItems_append (h : Blank blanks) (limit : Nat) (cs : List Char) :
    readItems limit (blanks ++ cs) = readItems limit cs := by
  cases limit with
  | zero => rfl
  | succ limit => rw [readItems, readItems, readValue_append h]

theorem readMembers_append (h : Blank blanks) (limit : Nat) (cs : List Char) :
    readMembers limit (blanks ++ cs) = readMembers limit cs := by
  cases limit with
  | zero => rfl
  | succ limit => rw [readMembers, readMembers, skipSpace_append h]

theorem readValue_scalar {c : Char} (hspace : isSpace c = false) (hlist : c ≠ '[')
    (hfields : c ≠ '\x7b') (limit : Nat) (cs : List Char) :
    readValue (limit + 1) (c :: cs) = readScalar limit (c :: cs) := by
  rw [readValue, skipSpace_cons hspace]
  split
  · next heq => exact absurd (List.cons.inj heq).1 hlist
  · next heq => exact absurd (List.cons.inj heq).1 hfields
  · rfl

/-- A list that does not end at once is read item by item. -/
theorem readValue_list {c : Char} (hspace : isSpace c = false) (hclose : c ≠ ']')
    (h : Blank blanks) (limit : Nat) (cs : List Char) :
    readValue (limit + 1) ('[' :: (blanks ++ c :: cs)) =
      (.list (readItems limit (c :: cs)).1 (readItems limit (c :: cs)).2.1,
        (readItems limit (c :: cs)).2.2) := by
  rw [readValue, skipSpace_cons rfl]
  simp only [skipSpace_append h, skipSpace_cons hspace]
  split
  · next heq => exact absurd (List.cons.inj heq).1 hclose
  · next heq => cases heq
  · rfl

/-- An object that does not end at once is read member by member. -/
theorem readValue_fields {c : Char} (hspace : isSpace c = false) (hclose : c ≠ '\x7d')
    (h : Blank blanks) (limit : Nat) (cs : List Char) :
    readValue (limit + 1) ('\x7b' :: (blanks ++ c :: cs)) =
      (.fields (readMembers limit (c :: cs)).1 (readMembers limit (c :: cs)).2.1,
        (readMembers limit (c :: cs)).2.2) := by
  rw [readValue, skipSpace_cons rfl]
  simp only [skipSpace_append h, skipSpace_cons hspace]
  split
  · next heq => exact absurd (List.cons.inj heq).1 hclose
  · rfl

/-! ## Numbers -/

theorem head_text (n : Number) :
    ∃ c cs, n.text.toList = c :: cs ∧ (c = '-' ∨ isDigit c = true) := by
  have hread := n.readNumber_text
  unfold readNumber at hread
  cases hl : readLiteral n.text.toList with
  | error f =>
    rw [hl] at hread
    cases hread
  | ok found => exact head_of_readLiteral hl

/-- What starts a number starts nothing else. -/
theorem startsNumber {c : Char} (hc : c = '-' ∨ isDigit c = true) :
    isSpace c = false ∧ c ∉ ['[', '\x7b', ']', '\x7d', '"', 'n', 't', 'f'] := by
  rcases hc with rfl | hc
  · decide
  · have hne : ∀ d, isDigit d = false → c ≠ d := by
      rintro d hd rfl
      rw [hc] at hd
      cases hd
    refine ⟨?_, ?_⟩
    · simp only [isSpace, Bool.or_eq_false_iff, decide_eq_false_iff_not]
      exact ⟨⟨⟨hne _ rfl, hne _ rfl⟩, hne _ rfl⟩, hne _ rfl⟩
    · simp only [List.mem_cons, List.not_mem_nil, or_false, not_or]
      exact ⟨hne _ rfl, hne _ rfl, hne _ rfl, hne _ rfl, hne _ rfl, hne _ rfl, hne _ rfl, hne _ rfl⟩

theorem readScalar_number {c : Char} (hc : c = '-' ∨ isDigit c = true) (limit : Nat)
    (cs : List Char) : readScalar limit (c :: cs) = readNumber (c :: cs) := by
  have hother := (startsNumber hc).2
  simp only [List.mem_cons, List.not_mem_nil, or_false, not_or] at hother
  obtain ⟨-, -, -, -, hquote, hn, ht, hf⟩ := hother
  unfold readScalar
  split
  · next heq => cases heq
  · next heq => exact absurd (List.cons.inj heq).1 hquote
  · next heq =>
    cases heq
    rw [if_neg hn, if_neg ht, if_neg hf, if_pos hc]

/-- A number is read to the end of its text, whatever it is read as. -/
theorem readValue_number (n : Number) (hrest : EndsLiteral rest) (hlimit : 0 < limit) :
    readValue limit (n.text.toList ++ rest) = (.num n.reread?, rest) := by
  obtain ⟨limit, rfl⟩ := Nat.exists_eq_add_one_of_ne_zero (Nat.ne_of_gt hlimit)
  obtain ⟨c, cs, hcs, hc⟩ := head_text n
  have hread := readNumber_append n.readNumber_text hrest
  obtain ⟨hspace, hother⟩ := startsNumber hc
  rw [hcs, List.cons_append] at hread ⊢
  rw [readValue_scalar hspace (by rintro rfl; simp at hother) (by rintro rfl; simp at hother),
    readScalar_number hc, hread, List.nil_append]

end Conduct.Json
