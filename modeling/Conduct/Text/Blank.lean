/-! White space of Unicode, and cutting it off both ends of a text.

Main statements: `isBlank_of_isWhitespace` (the white space of ASCII is white space here),
`trim_eq_empty_iff` (nothing is left exactly of a text that is all white space) and
`exists_eq_append_trimBlanks` (nothing but white space is cut off).
-/

set_option autoImplicit false

namespace Conduct.Text

/-- Whether a character has the Unicode property White_Space. -/
def isBlank (c : Char) : Bool :=
  let n := c.toNat
  (9 ≤ n && n ≤ 13) || n == 32 || n == 0x85 || n == 0xa0 || n == 0x1680 ||
    (0x2000 ≤ n && n ≤ 0x200a) || n == 0x2028 || n == 0x2029 || n == 0x202f || n == 0x205f ||
    n == 0x3000

/-- The characters without the white space at their end. -/
def dropBlankEnd (cs : List Char) : List Char := (cs.reverse.dropWhile isBlank).reverse

/-- The characters without the white space at both ends. -/
def trimBlanks (cs : List Char) : List Char := dropBlankEnd (cs.dropWhile isBlank)

/-- The text without the white space at both ends. -/
def trim (s : String) : String := String.ofList (trimBlanks s.toList)

/-- Whether the text is empty or all white space. -/
def isAllBlank (s : String) : Bool := s.toList.all isBlank

theorem isBlank_of_isWhitespace {c : Char} (h : c.isWhitespace = true) : isBlank c = true := by
  have hc : c = ' ' ∨ c = '\t' ∨ c = '\r' ∨ c = '\n' := by
    simpa [Char.isWhitespace, or_assoc] using h
  rcases hc with rfl | rfl | rfl | rfl <;> decide

theorem trimBlanks_eq_nil_iff (cs : List Char) : trimBlanks cs = [] ↔ cs.all isBlank = true := by
  induction cs with
  | nil => simp [trimBlanks, dropBlankEnd]
  | cons c cs ih =>
    by_cases h : isBlank c = true
    · simpa [trimBlanks, h] using ih
    · simp [trimBlanks, dropBlankEnd, h, List.dropWhile_append]
      split <;> simp

theorem trim_eq_empty_iff (s : String) : trim s = "" ↔ isAllBlank s = true := by
  rw [isAllBlank, ← trimBlanks_eq_nil_iff, trim]
  constructor
  · intro h
    simpa using congrArg String.toList h
  · intro h
    rw [h]

/-! ## What is cut off -/

variable {before core after : List Char}

theorem dropBlankEnd_append (cs : List Char) (hafter : ∀ c ∈ after, isBlank c = true) :
    dropBlankEnd (cs ++ after) = dropBlankEnd cs := by
  have hreverse : ∀ c ∈ after.reverse, isBlank c = true :=
    fun c hc => hafter c (List.mem_reverse.1 hc)
  rw [dropBlankEnd, List.reverse_append, List.dropWhile_append_of_pos hreverse, dropBlankEnd]

/-- White space around a text is cut off with the one that the text has itself. -/
theorem trimBlanks_append (core : List Char) (hbefore : ∀ c ∈ before, isBlank c = true)
    (hafter : ∀ c ∈ after, isBlank c = true) :
    trimBlanks (before ++ core ++ after) = trimBlanks core := by
  rw [trimBlanks, List.append_assoc, List.dropWhile_append_of_pos hbefore, trimBlanks,
    List.dropWhile_append]
  split
  · next hnil =>
    have hdrop : (after ++ []).dropWhile isBlank = [] := List.dropWhile_append_of_pos hafter
    rw [List.append_nil] at hdrop
    rw [List.isEmpty_iff.1 hnil, hdrop]
  · exact dropBlankEnd_append _ hafter

theorem trimBlanks_of_solid (h : ∀ c ∈ core, isBlank c = false) : trimBlanks core = core := by
  have hdrop : ∀ cs : List Char, (∀ c ∈ cs, isBlank c = false) → cs.dropWhile isBlank = cs := by
    intro cs hcs
    cases cs with
    | nil => rfl
    | cons c cs => rw [List.dropWhile_cons_of_neg (by simp [hcs c List.mem_cons_self])]
  rw [trimBlanks, hdrop core h, dropBlankEnd, hdrop core.reverse, List.reverse_reverse]
  exact fun c hc => h c (List.mem_reverse.1 hc)

theorem exists_eq_append_trimBlanks (cs : List Char) : ∃ before after,
    cs = before ++ trimBlanks cs ++ after ∧ ∀ c ∈ before ++ after, isBlank c = true := by
  have htaken : ∀ (cs : List Char), ∀ c ∈ cs.takeWhile isBlank, isBlank c = true :=
    fun cs => List.all_eq_true.1 List.all_takeWhile
  refine ⟨cs.takeWhile isBlank, ((cs.dropWhile isBlank).reverse.takeWhile isBlank).reverse, ?_, ?_⟩
  · rw [trimBlanks, dropBlankEnd, List.append_assoc, ← List.reverse_append,
      List.takeWhile_append_dropWhile, List.reverse_reverse, List.takeWhile_append_dropWhile]
  · intro c hc
    rcases List.mem_append.1 hc with hc | hc
    · exact htaken _ c hc
    · exact htaken _ c (List.mem_reverse.1 hc)

theorem trimBlanks_trimBlanks (cs : List Char) : trimBlanks (trimBlanks cs) = trimBlanks cs := by
  obtain ⟨before, after, he, hblank⟩ := exists_eq_append_trimBlanks cs
  obtain ⟨hbefore, hafter⟩ := List.forall_mem_append.1 hblank
  have htrim := trimBlanks_append (trimBlanks cs) hbefore hafter
  rw [← he] at htrim
  exact htrim.symm

end Conduct.Text
