import Conduct.Json.Draft
import Conduct.Proofs.Failing
import Conduct.Proofs.Path.Grammar

/-! Numbers that are read back from their texts.

A literal ends where nothing follows that a literal goes on with, so a number that is read to the end of
its text is read in front of any such rest. Main statements: `readNumber_append` and
`Number.rereads_int`.
-/

set_option autoImplicit false

namespace Conduct.Json

variable {cs rest more : List Char} {digits : List Nat} {l : Literal}

/-! ## What follows a literal -/

/-- No literal goes on with this. -/
def EndsLiteral (rest : List Char) : Prop :=
  ∀ c ∈ rest.head?, isDigit c = false ∧ c ≠ '.' ∧ c ≠ 'e' ∧ c ≠ 'E'

theorem readDigits_append (cs : List Char) (h : EndsLiteral rest) :
    readDigits (cs ++ rest) = ((readDigits cs).1, (readDigits cs).2 ++ rest) := by
  induction cs with
  | nil =>
    have hnone : ∀ c ∈ ([] : List Char), isDigit c = true := nofun
    have hspan := PropertyPath.span_append hnone fun c hc => (h c hc).1
    rw [List.nil_append] at hspan ⊢
    rw [readDigits, hspan.1, hspan.2]
    rfl
  | cons c cs ih =>
    unfold readDigits at ih ⊢
    rw [Prod.mk.injEq] at ih
    cases hc : isDigit c with
    | true => simp [hc, ih]
    | false => simp [hc]

theorem readSomeDigits_append (hread : readSomeDigits cs = .ok (digits, more))
    (h : EndsLiteral rest) : readSomeDigits (cs ++ rest) = .ok (digits, more ++ rest) := by
  unfold readSomeDigits at hread ⊢
  rw [readDigits_append cs h]
  generalize readDigits cs = found at hread
  obtain ⟨ds, r⟩ := found
  cases ds with
  | nil => cases r <;> cases hread
  | cons d ds =>
    cases hread
    rfl

theorem readWhole_append (hread : readWhole cs = .ok (digits, more)) (h : EndsLiteral rest) :
    readWhole (cs ++ rest) = .ok (digits, more ++ rest) := by
  obtain ⟨⟨found, r⟩, hfound, hread⟩ := bind_eq_ok hread
  rw [readWhole, readSomeDigits_append hfound h]
  simp only [bind, Except.bind]
  split at hread
  · cases hread
  · next hlead =>
    cases hread
    split
    · next heq =>
      cases heq
      exact absurd rfl (hlead _ _ _)
    · rfl

theorem readFraction_of_ends (h : EndsLiteral rest) : readFraction rest = .ok (none, rest) := by
  unfold readFraction
  split
  · exact absurd rfl (h '.' rfl).2.1
  · rfl

theorem readFraction_append {fraction : Option (List Nat)}
    (hread : readFraction cs = .ok (fraction, more)) (h : EndsLiteral rest) :
    readFraction (cs ++ rest) = .ok (fraction, more ++ rest) := by
  cases cs with
  | nil =>
    cases hread
    exact readFraction_of_ends h
  | cons c cs =>
    by_cases hc : c = '.'
    · subst hc
      obtain ⟨⟨found, r⟩, hfound, heq⟩ := map_eq_ok hread
      cases heq
      rw [List.cons_append, readFraction, readSomeDigits_append hfound h]
      rfl
    · have hnone : ∀ cs, readFraction (c :: cs) = .ok (none, c :: cs) := by
        intro cs
        unfold readFraction
        split
        · next heq => exact absurd (List.cons.inj heq).1 hc
        · rfl
      rw [hnone] at hread
      cases hread
      exact hnone (cs ++ rest)

theorem readExponent_of_ends (h : EndsLiteral rest) : readExponent rest = .ok (none, rest) := by
  cases rest with
  | nil => rfl
  | cons c rest =>
    obtain ⟨-, -, he, hE⟩ := h c rfl
    rw [readExponent, if_neg (not_or.2 ⟨he, hE⟩)]

/-- The sign of an exponent whose digits can be read stands before what follows. -/
theorem readSign_append (hdigits : readSomeDigits (readSign cs).2 = .ok (digits, more)) :
    readSign (cs ++ rest) = ((readSign cs).1, (readSign cs).2 ++ rest) := by
  cases cs with
  | nil => cases hdigits
  | cons c cs =>
    unfold readSign
    split
    · next heq =>
      cases heq
      rfl
    · next heq =>
      cases heq
      rfl
    · next hminus hplus =>
      split
      · next heq =>
        cases heq
        exact (hminus _ rfl).elim
      · next heq =>
        cases heq
        exact (hplus _ rfl).elim
      · rfl

theorem readExponent_append {exponent : Option (Bool × List Nat)}
    (hread : readExponent cs = .ok (exponent, more)) (h : EndsLiteral rest) :
    readExponent (cs ++ rest) = .ok (exponent, more ++ rest) := by
  cases cs with
  | nil =>
    cases hread
    exact readExponent_of_ends h
  | cons c cs =>
    rw [List.cons_append, readExponent]
    rw [readExponent] at hread
    by_cases hc : c = 'e' ∨ c = 'E'
    · rw [if_pos hc] at hread ⊢
      generalize hsign : readSign cs = sign at hread
      obtain ⟨negative, unsigned⟩ := sign
      obtain ⟨⟨found, r⟩, hfound, heq⟩ := map_eq_ok hread
      cases heq
      have hdigits : readSomeDigits (readSign cs).2 = .ok (found, more) := by rwa [hsign]
      rw [readSign_append hdigits, hsign]
      dsimp only
      rw [readSomeDigits_append hfound h]
      rfl
    · rw [if_neg hc] at hread ⊢
      cases hread
      rfl

/-! ## Whole literals -/

/-- The rest of a literal after its sign. -/
def readUnsigned (negative : Bool) (cs : List Char) : Except Fault (Literal × List Char) := do
  let (whole, cs) ← readWhole cs
  let (fraction, cs) ← readFraction cs
  let (exponent, cs) ← readExponent cs
  .ok (⟨negative, whole, fraction, exponent⟩, cs)

theorem readLiteral_minus (cs : List Char) : readLiteral ('-' :: cs) = readUnsigned true cs := rfl

theorem readLiteral_of_ne {c : Char} (hc : c ≠ '-') (cs : List Char) :
    readLiteral (c :: cs) = readUnsigned false (c :: cs) := by
  unfold readLiteral
  split
  · next heq =>
    split at heq
    · next hminus => exact absurd (List.cons.inj hminus).1 hc
    · cases heq
      rfl

theorem readUnsigned_append (negative : Bool) (hread : readUnsigned negative cs = .ok (l, more))
    (h : EndsLiteral rest) : readUnsigned negative (cs ++ rest) = .ok (l, more ++ rest) := by
  obtain ⟨⟨whole, r⟩, hwhole, hread⟩ := bind_eq_ok hread
  obtain ⟨⟨fraction, r'⟩, hfraction, hread⟩ := bind_eq_ok hread
  obtain ⟨⟨exponent, r''⟩, hexponent, hread⟩ := bind_eq_ok hread
  cases hread
  simp only [readUnsigned, bind, Except.bind, readWhole_append hwhole h,
    readFraction_append hfraction h, readExponent_append hexponent h]

/-- A literal that is read is read the same in front of what does not go on with it. -/
theorem readLiteral_append (hread : readLiteral cs = .ok (l, more)) (h : EndsLiteral rest) :
    readLiteral (cs ++ rest) = .ok (l, more ++ rest) := by
  cases cs with
  | nil => cases hread
  | cons c cs =>
    by_cases hc : c = '-'
    · subst hc
      exact readUnsigned_append true hread h
    · rw [List.cons_append, readLiteral_of_ne hc]
      rw [readLiteral_of_ne hc] at hread
      exact readUnsigned_append false hread h

theorem head_of_readUnsigned {negative : Bool} (hread : readUnsigned negative cs = .ok (l, more)) :
    ∃ c cs', cs = c :: cs' ∧ isDigit c = true := by
  obtain ⟨⟨whole, r⟩, hwhole, -⟩ := bind_eq_ok hread
  obtain ⟨found, hfound, -⟩ := bind_eq_ok hwhole
  cases cs with
  | nil => cases hfound
  | cons c cs =>
    refine ⟨c, cs, rfl, Bool.eq_false_or_eq_true _ |>.resolve_right fun hdigit => ?_⟩
    rw [readSomeDigits, readDigits, List.takeWhile_cons_of_neg (by simp [hdigit]),
      List.dropWhile_cons_of_neg (by simp [hdigit])] at hfound
    cases hfound

/-- What is read without a sign is a literal. -/
theorem readLiteral_of_readUnsigned (hread : readUnsigned false cs = .ok (l, more)) :
    readLiteral cs = .ok (l, more) := by
  obtain ⟨c, cs, rfl, hc⟩ := head_of_readUnsigned hread
  rw [readLiteral_of_ne (by rintro rfl; cases hc), hread]

/-- A literal starts with a sign or a digit. -/
theorem head_of_readLiteral (hread : readLiteral cs = .ok (l, more)) :
    ∃ c cs', cs = c :: cs' ∧ (c = '-' ∨ isDigit c = true) := by
  cases cs with
  | nil => cases hread
  | cons c cs =>
    by_cases hc : c = '-'
    · exact ⟨c, cs, rfl, .inl hc⟩
    · rw [readLiteral_of_ne hc] at hread
      obtain ⟨c', cs', heq, hdigit⟩ := head_of_readUnsigned hread
      exact ⟨c', cs', heq, .inr hdigit⟩

theorem readNumber_append {n : Option Number} (hread : readNumber cs = (.num n, more))
    (h : EndsLiteral rest) : readNumber (cs ++ rest) = (.num n, more ++ rest) := by
  unfold readNumber at hread ⊢
  cases hl : readLiteral cs with
  | error f =>
    rw [hl] at hread
    cases hread
  | ok found =>
    obtain ⟨l, r⟩ := found
    rw [hl] at hread
    cases hread
    rw [readLiteral_append hl h]

/-! ## Digits -/

theorem isDigit_eq (c : Char) : isDigit c = c.isDigit := by
  simp [isDigit, Char.isDigit, Char.le_def]

def digitValues (cs : List Char) : List Nat := cs.map fun c => c.toNat - 48

/-- At least one digit and nothing else. -/
structure Digits (cs : List Char) : Prop where
  nonempty : cs ≠ []
  digit : ∀ c ∈ cs, isDigit c = true

theorem Digits.append (h : Digits cs) (hmore : ∀ c ∈ more, isDigit c = true) :
    Digits (cs ++ more) where
  nonempty := List.append_ne_nil_of_left_ne_nil h.nonempty more
  digit c hc := (List.mem_append.1 hc).elim (h.digit c) (hmore c)

theorem digits_toDigits (n : Nat) : Digits (Nat.toDigits 10 n) where
  nonempty := Nat.toDigits_ne_nil
  digit c hc := (isDigit_eq c).trans (Nat.isDigit_of_mem_toDigits (by decide) (by decide) hc)

theorem Digits.readSomeDigits (h : Digits cs) (hrest : ∀ c ∈ rest.head?, isDigit c = false) :
    readSomeDigits (cs ++ rest) = .ok (digitValues cs, rest) := by
  obtain ⟨htake, hdrop⟩ := PropertyPath.span_append h.digit hrest
  obtain ⟨c, cs, rfl⟩ := List.exists_cons_of_ne_nil h.nonempty
  rw [Json.readSomeDigits, readDigits, htake, hdrop]
  rfl

theorem eq_zero_of_toNat {c : Char} (hc : isDigit c = true) (hzero : c.toNat - 48 = 0) :
    c = '0' := by
  simp only [isDigit, Bool.and_eq_true, decide_eq_true_eq, Char.le_def,
    UInt32.le_iff_toNat_le] at hc
  refine Char.ext (UInt32.toNat_inj.1 ?_)
  have hlow : 48 ≤ c.val.toNat := hc.1
  have hvalue : c.val.toNat - 48 = 0 := hzero
  show c.val.toNat = 48
  omega

/-- Digits that do not start with a zero, or are just that, are the whole part of a literal. -/
theorem Digits.readWhole (h : Digits cs) (hlead : ∀ tail, cs = '0' :: tail → tail = [])
    (hrest : ∀ c ∈ rest.head?, isDigit c = false) :
    readWhole (cs ++ rest) = .ok (digitValues cs, rest) := by
  rw [Json.readWhole, h.readSomeDigits hrest]
  simp only [bind, Except.bind]
  split
  · next heq =>
    -- a leading zero in front of other digits
    obtain ⟨c, cs, rfl⟩ := List.exists_cons_of_ne_nil h.nonempty
    rw [digitValues, List.map_cons, Prod.mk.injEq, List.cons.injEq] at heq
    obtain ⟨⟨hzero, hmore⟩, -⟩ := heq
    have hc := eq_zero_of_toNat (h.digit c List.mem_cons_self) hzero
    rw [hlead cs (by rw [hc])] at hmore
    cases hmore
  · rfl

theorem Digits.readFraction (h : Digits cs) (hrest : ∀ c ∈ rest.head?, isDigit c = false) :
    readFraction ('.' :: (cs ++ rest)) = .ok (some (digitValues cs), rest) := by
  rw [Json.readFraction, h.readSomeDigits hrest]
  rfl

/-! ## Whole numbers -/

/-- The digits of a number do not start with a zero, unless it is zero. -/
theorem head?_toDigits {n : Nat} (hn : 0 < n) : (Nat.toDigits 10 n).head? ≠ some '0' := by
  induction n using Nat.strongRecOn with
  | ind n ih =>
    by_cases hlt : n < 10
    · have hchar : ∀ d, d < 10 → 0 < d → Nat.digitChar d ≠ '0' := by decide
      rw [Nat.toDigits_of_lt_base hlt]
      exact fun h => hchar n hlt hn (Option.some.inj h)
    · rw [Nat.toDigits_of_base_le (by decide) (Nat.not_lt.1 hlt),
        List.head?_append_of_ne_nil _ Nat.toDigits_ne_nil]
      exact ih (n / 10) (by omega) (by omega)

theorem eq_nil_of_head? (h : cs.head? ≠ some '0') (tail : List Char) (heq : cs = '0' :: tail) :
    tail = [] := by
  rw [heq] at h
  exact absurd rfl h

theorem eq_nil_of_toDigits (n : Nat) (tail : List Char) (h : Nat.toDigits 10 n = '0' :: tail) :
    tail = [] := by
  rcases Nat.eq_zero_or_pos n with rfl | hn
  · rw [Nat.toDigits_zero] at h
    exact (List.cons.inj h).2.symm
  · exact eq_nil_of_head? (head?_toDigits hn) tail h

theorem ofDigits_digitValues (n : Nat) :
    Literal.ofDigits (digitValues (Nat.toDigits 10 n)) = n := by
  have hvalue : Nat.ofDigitChars 10 (Nat.toDigits 10 n) 0 = n := Nat.ofDigitChars_ten_toDigits
  rw [Nat.ofDigitChars_eq_foldl] at hvalue
  rw [Literal.ofDigits, digitValues, List.foldl_map]
  simp only [Nat.mul_comm _ 10]
  exact hvalue

theorem readUnsigned_toDigits (negative : Bool) (n : Nat) :
    readUnsigned negative (Nat.toDigits 10 n) =
      .ok (⟨negative, digitValues (Nat.toDigits 10 n), none, none⟩, []) := by
  have hwhole : readWhole (Nat.toDigits 10 n ++ []) = .ok (digitValues (Nat.toDigits 10 n), []) :=
    (digits_toDigits n).readWhole (eq_nil_of_toDigits n) nofun
  rw [List.append_nil] at hwhole
  rw [readUnsigned, hwhole]
  rfl

end Conduct.Json

namespace Conduct.Number

open Json (readNumber)

deriving instance DecidableEq for Number

def isWhole : Number → Bool
  | .int _ _ => true
  | .float _ _ => false

/-- The number that the text of a number is read as, if it is read as one and no further. -/
def reread? (n : Number) : Option Number :=
  match readNumber n.text.toList with
  | (.num found, []) => found
  | _ => none

/-- The number is read back from its text. -/
def Rereads (n : Number) : Prop := n.reread? = some n

instance (n : Number) : Decidable n.Rereads := inferInstanceAs (Decidable (_ = _))

theorem rereads_iff {n : Number} : n.Rereads ↔ readNumber n.text.toList = (.num (some n), []) := by
  unfold Rereads reread?
  constructor
  · intro h
    split at h
    · next hread => rw [hread, h]
    · cases h
  · intro h
    rw [h]

theorem ofInt?_of_fits {n : Int} (fits : Fits n) : ofInt? n = some (.int n fits) := dif_pos fits

/-- Whole numbers are read back, whatever their sign and size. -/
theorem rereads_int (n : Int) (fits : Fits n) : Rereads (.int n fits) := by
  rw [rereads_iff, readNumber]
  cases n with
  | ofNat m =>
    have htext : (Number.int (Int.ofNat m) fits).text.toList = Nat.toDigits 10 m := by
      show (toString (Int.ofNat m)).toList = _
      rw [Int.toString_eq_repr, Int.repr, Nat.repr_eq_ofList_toDigits, String.toList_ofList]
    have hfits : m < UInt64.size := Int.ofNat_lt.1 fits.2
    rw [htext, Json.readLiteral_of_readUnsigned (Json.readUnsigned_toDigits false m)]
    simp only [Literal.number?, Json.ofDigits_digitValues, Bool.false_eq_true, if_false, hfits,
      if_true]
    show (Json.Draft.num (ofInt? (Int.ofNat m)), ([] : List Char)) = _
    rw [ofInt?_of_fits fits]
  | negSucc m =>
    have htext : (Number.int (Int.negSucc m) fits).text.toList =
        '-' :: Nat.toDigits 10 (m + 1) := by
      show (toString (Int.negSucc m)).toList = _
      rw [Int.toString_eq_repr, Int.repr, Nat.repr_eq_ofList_toDigits, String.toList_append,
        String.toList_ofList (l := Nat.toDigits 10 (m + 1))]
      rfl
    have hneg : -((m + 1 : Nat) : Int) = Int.negSucc m := rfl
    have hfits : m + 1 ≤ 0x8000000000000000 := by
      have := fits.1
      omega
    rw [htext, Json.readLiteral_minus, Json.readUnsigned_toDigits]
    simp only [Literal.number?, Json.ofDigits_digitValues, if_true, Nat.add_one_ne_zero, if_false,
      hfits, hneg]
    rw [ofInt?_of_fits fits]

-- of the seventeen digits of a float the last can get lost, as it is read in float arithmetic
example : ¬(Number.float 1234.5678901234567 (by decide +kernel)).Rereads := by decide +kernel

end Conduct.Number
