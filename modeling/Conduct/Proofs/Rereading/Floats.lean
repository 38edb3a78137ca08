import Conduct.Proofs.Rereading.Literal
import Conduct.Proofs.Rounding

/-! Numbers that are read from their texts as numbers.

However the digits of a finite float are laid out, all of its text is one literal, since the first
digit is no zero unless it stands alone before the point. What the literal stands for is another
matter: it may be a neighbour of the float. Main statement: `Number.readNumber_text`.
-/

set_option autoImplicit false

namespace Conduct.Json

open Decimal (positional pointed exponentText layout)

variable {cs whole fraction rest : List Char}

/-! ## Layouts -/

/-- Digits around a point are a literal. -/
theorem readUnsigned_point (negative : Bool) (hwhole : Digits whole)
    (hlead : ∀ tail, whole = '0' :: tail → tail = []) (hfraction : Digits fraction) :
    readUnsigned negative (whole ++ '.' :: fraction) =
      .ok (⟨negative, digitValues whole, some (digitValues fraction), none⟩, []) := by
  have hread : readFraction ('.' :: (fraction ++ [])) = .ok (some (digitValues fraction), []) :=
    hfraction.readFraction nofun
  rw [List.append_nil] at hread
  rw [readUnsigned, hwhole.readWhole hlead (by rintro c ⟨⟩; rfl)]
  simp only [bind, Except.bind, hread]
  rfl

theorem exists_positional (negative : Bool) {n : Nat} (hn : 0 < n) (point : Int) :
    ∃ l, readUnsigned negative (positional (Nat.toDigits 10 n) point) = .ok (l, []) := by
  have hdigits := digits_toDigits n
  have hhead := head?_toDigits hn
  generalize Nat.toDigits 10 n = digits at hdigits hhead ⊢
  have hzeros : ∀ count, ∀ c ∈ List.replicate count '0', isDigit c = true := by
    intro count c hc
    rw [List.eq_of_mem_replicate hc]
    rfl
  unfold positional
  split
  · -- zeros between the point and the digits
    have hfraction : Digits (List.replicate (-point).toNat '0' ++ digits) :=
      ⟨List.append_ne_nil_of_right_ne_nil _ hdigits.nonempty,
        fun c hc => (List.mem_append.1 hc).elim (hzeros _ c) (hdigits.digit c)⟩
    have hzero : Digits ['0'] := ⟨List.cons_ne_nil _ _, hzeros 1⟩
    exact ⟨_, readUnsigned_point negative hzero (by rintro tail ⟨⟩; rfl) hfraction⟩
  · next hpoint =>
    split
    · -- zeros between the digits and the point
      have hwhole := hdigits.append (hzeros (point.toNat - digits.length))
      refine ⟨_, readUnsigned_point negative hwhole (eq_nil_of_head? ?_)
        ⟨List.cons_ne_nil _ _, hzeros 1⟩⟩
      rwa [List.head?_append_of_ne_nil _ hdigits.nonempty]
    · next hlength =>
      -- the point among the digits
      have hwhole : Digits (digits.take point.toNat) :=
        ⟨by simp [hdigits.nonempty]; omega, fun c hc => hdigits.digit c (List.mem_of_mem_take hc)⟩
      have hfraction : Digits (digits.drop point.toNat) :=
        ⟨by simp; omega, fun c hc => hdigits.digit c (List.mem_of_mem_drop hc)⟩
      refine ⟨_, readUnsigned_point negative hwhole (eq_nil_of_head? ?_) hfraction⟩
      rwa [List.head?_take, if_neg (by omega)]

/-- The sign and the digits of an exponent are read to the end. -/
theorem readExponent_exponentText (e : Int) :
    readExponent ('e' :: exponentText true e) =
      .ok (some (decide (e < 0), digitValues (Nat.toDigits 10 e.natAbs)), []) := by
  have hdigits : readSomeDigits (Nat.toDigits 10 e.natAbs ++ []) =
      .ok (digitValues (Nat.toDigits 10 e.natAbs), []) :=
    (digits_toDigits _).readSomeDigits nofun
  rw [List.append_nil] at hdigits
  rw [readExponent, if_pos (.inl rfl), exponentText]
  by_cases he : e < 0
  · rw [if_pos he]
    simp only [readSign, hdigits, he]
    rfl
  · rw [if_neg he, if_pos rfl]
    simp only [readSign, hdigits, he]
    rfl

theorem exists_pointed (negative : Bool) (n : Nat) (e : Int) :
    ∃ l, readUnsigned negative (pointed (Nat.toDigits 10 n) ++ 'e' :: exponentText true e) =
      .ok (l, []) := by
  have hdigits := digits_toDigits n
  have hexponent := readExponent_exponentText e
  have hends : ∀ c ∈ ('e' :: exponentText true e).head?, isDigit c = false := by
    rintro c ⟨⟩
    rfl
  generalize Nat.toDigits 10 n = digits at hdigits ⊢
  obtain ⟨c, cs, rfl⟩ := List.exists_cons_of_ne_nil hdigits.nonempty
  have hfirst : Digits [c] :=
    ⟨List.cons_ne_nil _ _, List.forall_mem_singleton.2 (hdigits.digit c List.mem_cons_self)⟩
  have hlead : ∀ tail, [c] = '0' :: tail → tail = [] := fun tail heq => (List.cons.inj heq).2.symm
  cases cs with
  | nil =>
    rw [pointed, readUnsigned, hfirst.readWhole hlead hends]
    have hfraction : readFraction ('e' :: exponentText true e) =
        .ok (none, 'e' :: exponentText true e) := rfl
    simp only [bind, Except.bind, hfraction, hexponent]
    exact ⟨_, rfl⟩
  | cons d ds =>
    have hfraction : Digits (d :: ds) :=
      ⟨List.cons_ne_nil _ _, fun c hc => hdigits.digit c (List.mem_cons_of_mem _ hc)⟩
    have htext : pointed (c :: d :: ds) ++ 'e' :: exponentText true e =
        [c] ++ '.' :: (d :: ds ++ 'e' :: exponentText true e) := rfl
    rw [htext, readUnsigned, hfirst.readWhole hlead (by rintro c ⟨⟩; rfl)]
    simp only [bind, Except.bind, hfraction.readFraction hends, hexponent]
    exact ⟨_, rfl⟩

theorem exists_layout (negative : Bool) {d : Decimal} (hd : 0 < d.digits) :
    ∃ l, readUnsigned negative (d.layout Number.style) = .ok (l, []) := by
  unfold layout
  dsimp only
  split
  · exact exists_positional negative hd _
  · exact exists_pointed negative _ _

end Conduct.Json

namespace Conduct.Number

open Json (readNumber)

variable {f : Float}

/-! ## Texts of numbers -/

theorem isNaN_or_isInf (h : f.isFinite = false) : f.isNaN = true ∨ f.isInf = true := by
  unfold Float.isFinite Float.Model.isFinite at h
  unfold Float.isNaN Float.isInf Float.Model.isNaN Float.Model.isInf
  cases hu : f.toModel.unpack with
  | notANumber => exact .inl rfl
  | infinity sign => exact .inr rfl
  | zero sign => rw [hu] at h; cases h
  | finite sign mantissa exponent pos => rw [hu] at h; cases h

theorem isNaN_eq_false (h : f.isFinite = true) : f.isNaN = false := by
  unfold Float.isFinite Float.Model.isFinite at h
  unfold Float.isNaN Float.Model.isNaN
  cases hu : f.toModel.unpack with
  | notANumber => rw [hu] at h; cases h
  | _ => rfl

theorem isInf_eq_false (h : f.isFinite = true) : f.isInf = false := by
  unfold Float.isFinite Float.Model.isFinite at h
  unfold Float.isInf Float.Model.isInf
  cases hu : f.toModel.unpack with
  | infinity sign => rw [hu] at h; cases h
  | _ => rfl

/-- The text of a finite float is a literal, with its sign in front. -/
theorem exists_readLiteral (h : f.isFinite = true) :
    ∃ l, Json.readLiteral (style.write f).toList = .ok (l, []) := by
  have hsize : ∀ negative, ∃ l, Json.readUnsigned negative
      (if f == 0 then ['0', '.', '0'] else (Decimal.Binary.ofFloat f).shortest.layout style) =
        .ok (l, []) := by
    intro negative
    cases hzero : f == 0 with
    | true => exact ⟨_, rfl⟩
    | false =>
      have hshortest := Decimal.Binary.shortest_ofFloat h hzero
      exact Json.exists_layout negative
        (hshortest.digits_pos (Decimal.Binary.inRange_ofFloat h hzero).pos)
  unfold Decimal.Style.write
  rw [isNaN_eq_false h, isInf_eq_false h]
  simp only [Bool.false_eq_true, if_false, String.toList_ofList]
  generalize (if f == 0 then ['0', '.', '0'] else (Decimal.Binary.ofFloat f).shortest.layout style) =
    size at hsize ⊢
  cases Decimal.isNegative f with
  | true => exact hsize true
  | false =>
    obtain ⟨l, hl⟩ := hsize false
    exact ⟨l, Json.readLiteral_of_readUnsigned hl⟩

/-- The text of a number is read as a number, and to its end. -/
theorem readNumber_text (n : Number) : readNumber n.text.toList = (.num n.reread?, []) := by
  have hread : ∃ m, readNumber n.text.toList = (.num m, []) := by
    cases n with
    | int n fits => exact ⟨_, rereads_iff.1 (rereads_int n fits)⟩
    | float f h =>
      obtain ⟨l, hl⟩ := exists_readLiteral h
      refine ⟨l.number?, ?_⟩
      rw [readNumber, text, hl]
  obtain ⟨m, hm⟩ := hread
  rw [reread?, hm]

end Conduct.Number
