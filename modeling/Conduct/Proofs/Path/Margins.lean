import Conduct.Proofs.Path

/-! White space around a property path.

All white space of Unicode is cut off before a text is looked at for being empty or for starting with an
index, but a path is read with spaces, tabs and line ends around it only. So a text means what it means
without the white space around it, unless that makes a path of it and more than those four characters
is cut off. Main statements: `parse_eq_ok_iff_trim` and `alike_trim`.
-/

set_option autoImplicit false

namespace Conduct

/-- The errors are of one kind, whatever texts they hold. -/
inductive PathError.SameKind : PathError → PathError → Prop
  | empty : SameKind .empty .empty
  | leadingIndex {a b : String} : SameKind (.leadingIndex a) (.leadingIndex b)
  | unexpected {a b rest more : String} : SameKind (.unexpected a rest) (.unexpected b more)

namespace PropertyPath

open Text (isBlank trim trimBlanks)

/-- Both texts are read as the same path, or both are refused with an error of the same kind. -/
inductive Alike : Except PathError PropertyPath → Except PathError PropertyPath → Prop
  | ok (path : PropertyPath) : Alike (.ok path) (.ok path)
  | error {e f : PathError} (h : e.SameKind f) : Alike (.error e) (.error f)

variable {input : String} {before after text : List Char} {path : PropertyPath}

theorem toList_trim (input : String) : (trim input).toList = trimBlanks input.toList := by
  rw [trim, String.toList_ofList]

theorem sameKind_of_refusal {other : String} {e f : PathError}
    (htrim : trimBlanks input.toList = trimBlanks other.toList) (he : Refusal input e)
    (hf : Refusal other f) : e.SameKind f := by
  cases he with
  | empty h =>
    rw [htrim] at h
    cases hf with
    | empty => exact .empty
    | leadingIndex h' => cases h.symm.trans h'
    | unexpected _ hne _ => exact absurd h hne
  | leadingIndex h =>
    rw [htrim] at h
    cases hf with
    | empty h' => cases h.symm.trans h'
    | leadingIndex => exact .leadingIndex
    | unexpected _ _ hopen => exact absurd h (hopen _)
  | unexpected _ hne hopen =>
    rw [htrim] at hne hopen
    cases hf with
    | empty h' => exact absurd h' hne
    | leadingIndex h' => exact absurd h' (hopen _)
    | unexpected => exact .unexpected

/-- A path is cut off from the white space around it in one way only. -/
theorem Spells.margins_unique (h : Spells text path) {before' after' : List Char}
    (hbefore : ∀ c ∈ before, isBlank c = true) (hbefore' : ∀ c ∈ before', isBlank c = true)
    (he : before ++ text ++ after = before' ++ text ++ after') : before = before' ∧ after = after' := by
  obtain ⟨c, cs, rfl, -⟩ := h.head
  have hstop : ∀ (rest : List Char), ∀ d ∈ (c :: cs ++ rest).head?, isBlank d = false := by
    intro rest d hd
    cases hd
    exact h.solid c List.mem_cons_self
  rw [List.append_assoc, List.append_assoc] at he
  have hfirst : before = before' := by
    rw [← (span_append hbefore (hstop after)).1, he, (span_append hbefore' (hstop after')).1]
  subst hfirst
  exact ⟨rfl, List.append_cancel_left (List.append_cancel_left he)⟩

theorem parse_trim_eq_ok_iff :
    parse (trim input) = .ok path ↔ Spells (trimBlanks input.toList) path := by
  rw [parse_eq_ok_iff, toList_trim]
  constructor
  · rintro ⟨before, text, after, he, hspace, hspells⟩
    obtain ⟨hbefore, hafter⟩ := List.forall_mem_append.1 hspace
    have htrim := hspells.trimBlanks_append (fun c hc => isBlank_of_isSpace (hbefore c hc))
      (fun c hc => isBlank_of_isSpace (hafter c hc))
    rw [← he, Text.trimBlanks_trimBlanks] at htrim
    rwa [htrim]
  · intro h
    exact ⟨[], _, [], by simp, nofun, h⟩

/-- With white space around it a path is read if there are only spaces, tabs and line ends in that. -/
theorem parse_eq_ok_iff_trim (he : input.toList = before ++ trimBlanks input.toList ++ after)
    (hblank : ∀ c ∈ before ++ after, isBlank c = true) : parse input = .ok path ↔
      parse (trim input) = .ok path ∧ ∀ c ∈ before ++ after, isSpace c = true := by
  rw [parse_trim_eq_ok_iff]
  constructor
  · intro h
    obtain ⟨before', text, after', he', hspace, hspells⟩ := parse_eq_ok_iff.1 h
    obtain ⟨hbefore', hafter'⟩ := List.forall_mem_append.1 hspace
    have hbefore'' : ∀ c ∈ before', isBlank c = true := fun c hc => isBlank_of_isSpace (hbefore' c hc)
    have htrim : trimBlanks input.toList = text := by
      rw [he', hspells.trimBlanks_append hbefore'' fun c hc => isBlank_of_isSpace (hafter' c hc)]
    rw [htrim] at he
    obtain ⟨rfl, rfl⟩ := hspells.margins_unique (List.forall_mem_append.1 hblank).1 hbefore''
      (he.symm.trans he')
    rw [htrim]
    exact ⟨hspells, hspace⟩
  · rintro ⟨hspells, hspace⟩
    exact parse_eq_ok_iff.2 ⟨before, _, after, he, hspace, hspells⟩

theorem parse_trim_of_parse (h : parse input = .ok path) : parse (trim input) = .ok path := by
  obtain ⟨before, after, he, hblank⟩ := Text.exists_eq_append_trimBlanks input.toList
  exact ((parse_eq_ok_iff_trim he hblank).1 h).1

/-- What is no path without the white space around it is none with it, for the same kind of reason. -/
theorem alike_of_trim_error {e : PathError} (hcut : parse (trim input) = .error e) :
    Alike (parse input) (.error e) := by
  have htrim : trimBlanks input.toList = trimBlanks (trim input).toList := by
    rw [toList_trim, Text.trimBlanks_trimBlanks]
  cases h : parse input with
  | ok path =>
    rw [parse_trim_of_parse h] at hcut
    cases hcut
  | error f => exact .error (sameKind_of_refusal htrim (refusal_of_parse h) (refusal_of_parse hcut))

/-- What is a path only without the white space around it is refused with it for a rest. -/
theorem unexpected_of_trim {f : PathError} (hcut : parse (trim input) = .ok path)
    (h : parse input = .error f) : ∃ rest, rest ≠ "" ∧ f = .unexpected input rest := by
  obtain ⟨c, cs, hhead, hc⟩ := (parse_trim_eq_ok_iff.1 hcut).head
  cases refusal_of_parse h with
  | empty hnil => cases hhead.symm.trans hnil
  | leadingIndex hopen =>
    cases hhead.symm.trans hopen
    cases hc
  | unexpected hrest => exact ⟨_, hrest, rfl⟩

/-- A text comes to the same with and without the white space around it if and only if that holds only
spaces, tabs, carriage returns and line feeds, or what is left without it is no path. Otherwise it is
refused for a rest, which is not empty. -/
theorem alike_trim (input : String) : ∃ before after,
    input.toList = before ++ (trim input).toList ++ after ∧
    (∀ c ∈ before ++ after, isBlank c = true) ∧
    (Alike (parse input) (parse (trim input)) ↔
      (∀ c ∈ before ++ after, c ∈ [' ', '\t', '\r', '\n']) ∨
        ∃ e, parse (trim input) = .error e) ∧
    (¬Alike (parse input) (parse (trim input)) →
      ∃ rest, rest ≠ "" ∧ parse input = .error (.unexpected input rest)) := by
  simp only [← isSpace_iff, toList_trim]
  obtain ⟨before, after, he, hblank⟩ := Text.exists_eq_append_trimBlanks input.toList
  refine ⟨before, after, he, hblank, ?_⟩
  cases hcut : parse (trim input) with
  | error e =>
    have halike := alike_of_trim_error hcut
    exact ⟨iff_of_true halike (.inr ⟨e, rfl⟩), fun hnot => absurd halike hnot⟩
  | ok path =>
    cases h : parse input with
    | ok path' =>
      obtain ⟨hcut', hspace⟩ := (parse_eq_ok_iff_trim he hblank).1 h
      rw [hcut] at hcut'
      cases hcut'
      exact ⟨iff_of_true (.ok path) (.inl hspace), fun hnot => absurd (.ok path) hnot⟩
    | error f =>
      obtain ⟨rest, hrest, rfl⟩ := unexpected_of_trim hcut h
      refine ⟨iff_of_false nofun ?_, fun _ => ⟨rest, hrest, rfl⟩⟩
      rintro (hspace | ⟨e, he⟩)
      · rw [(parse_eq_ok_iff_trim he hblank).2 ⟨hcut, hspace⟩] at h
        cases h
      · cases he

/-- A space that allows no break in front of a name keeps the name from being read. -/
theorem no_break_space_kept : parse (trim "\u00a0ammo") = .ok [.key "ammo"] ∧
    parse "\u00a0ammo" = .error (.unexpected "\u00a0ammo" "ammo") ∧
    ¬Alike (parse "\u00a0ammo") (parse (trim "\u00a0ammo")) := by
  have hcut : parse (trim "\u00a0ammo") = .ok [.key "ammo"] := by decide +kernel
  have hkept : parse "\u00a0ammo" = .error (.unexpected "\u00a0ammo" "ammo") := by decide +kernel
  refine ⟨hcut, hkept, ?_⟩
  rw [hcut, hkept]
  exact nofun

end PropertyPath

end Conduct
