import Conduct.Proofs.Rereading.Text

/-! Texts of JSON that are read back from their layout.

The draft of an outline is what its text says: every value in its place, save that a number is what
its own text is read as and a float that is not finite is null. Reading the text, in any layout by
blanks, comes to just this draft. Main statements: `Outline.readsBack` and `Draft.ofText_write`.
-/

set_option autoImplicit false

namespace Conduct.Json

namespace Outline

variable {spacing : Spacing} {rest tail : List Char}

/-! ## Drafts of outlines -/

mutual

/-- What the text of an outline says. -/
def draft : Outline → Draft
  | .null => .null
  | .bool b => .bool b
  | .num n => .num n.reread?
  | .float f => if h : f.isFinite = true then .num (Number.float f h).reread? else .null
  | .str s => .str (some s)
  | .list items => .list (drafts items) none
  | .fields members => .fields (draftsByName members) none
termination_by structural o => o

def drafts : List Outline → List Draft
  | [] => []
  | item :: items => item.draft :: drafts items
termination_by structural items => items

def draftsByName : List (String × Outline) → List (Option String × Draft)
  | [] => []
  | (name, value) :: members => (some name, value.draft) :: draftsByName members
termination_by structural members => members

end

mutual

/-- The numbers in the text of an outline. -/
def numbers : Outline → List Number
  | .num n => [n]
  | .float f => (Number.ofFloat? f).toList
  | .list items => numbersOfItems items
  | .fields members => numbersOfMembers members
  | _ => []
termination_by structural o => o

def numbersOfItems : List Outline → List Number
  | [] => []
  | item :: items => item.numbers ++ numbersOfItems items
termination_by structural items => items

def numbersOfMembers : List (String × Outline) → List Number
  | [] => []
  | (_, value) :: members => value.numbers ++ numbersOfMembers members
termination_by structural members => members

end

theorem mem_numbersOfItems {items : List Outline} {n : Number} :
    n ∈ numbersOfItems items ↔ ∃ item ∈ items, n ∈ item.numbers := by
  induction items with
  | nil => simp [numbersOfItems]
  | cons item items ih => simp [numbersOfItems, ih]

theorem mem_numbersOfMembers {members : List (String × Outline)} {n : Number} :
    n ∈ numbersOfMembers members ↔ ∃ member ∈ members, n ∈ member.2.numbers := by
  induction members with
  | nil => simp [numbersOfMembers]
  | cons member members ih => simp [numbersOfMembers, ih]

/-- However an outline is laid out by blanks, its text is read as its draft and no further. -/
def ReadsBack (o : Outline) : Prop :=
  ∀ (spacing : Spacing) (level limit : Nat) (rest : List Char), spacing.Blank → EndsLiteral rest →
    2 * (o.write spacing level).length ≤ limit →
      readValue limit (o.write spacing level ++ rest) = (o.draft, rest)

/-! ## Scalars -/

theorem readsBack_null : null.ReadsBack := by
  intro spacing level limit rest _ _ hlimit
  obtain ⟨limit, rfl⟩ := Nat.exists_eq_add_one_of_ne_zero (Nat.ne_zero_of_lt hlimit)
  exact readValue_scalar rfl (by decide) (by decide) limit _

theorem readsBack_bool (b : Bool) : (bool b).ReadsBack := by
  intro spacing level limit rest _ _ hlimit
  cases b with
  | true =>
    obtain ⟨limit, rfl⟩ := Nat.exists_eq_add_one_of_ne_zero (Nat.ne_zero_of_lt hlimit)
    exact readValue_scalar rfl (by decide) (by decide) limit _
  | false =>
    obtain ⟨limit, rfl⟩ := Nat.exists_eq_add_one_of_ne_zero (Nat.ne_zero_of_lt hlimit)
    exact readValue_scalar rfl (by decide) (by decide) limit _

theorem readsBack_str (s : String) : (str s).ReadsBack := by
  intro spacing level limit rest _ _ hlimit
  have hpos : 0 < (stringText s).length := Nat.succ_pos _
  rw [write] at hlimit ⊢
  obtain ⟨limit, rfl⟩ := Nat.exists_eq_add_one_of_ne_zero (n := limit) (by omega)
  rw [stringText_eq, List.cons_append, List.append_assoc, List.singleton_append,
    readValue_scalar rfl (by decide) (by decide), readScalar,
    readString_escaped s rest limit (by omega)]
  rfl

theorem readsBack_num (n : Number) : (num n).ReadsBack := by
  intro spacing level limit rest _ hrest hlimit
  obtain ⟨c, cs, hcs, -⟩ := head_text n
  rw [write] at hlimit ⊢
  refine readValue_number n hrest ?_
  rw [hcs, List.length_cons] at hlimit
  omega

theorem mem_numbers_float {f g : Float} {h : f.isFinite = true} :
    Number.float f h ∈ (float g).numbers ↔ f = g := by
  rw [numbers, Number.ofFloat?]
  split
  · rw [Option.toList_some, List.mem_singleton, Number.float.injEq]
  · next hg =>
    refine iff_of_false List.not_mem_nil ?_
    rintro rfl
    exact hg h

theorem draft_float {f : Float} (h : f.isFinite = true) :
    (float f).draft = .num (Number.float f h).reread? := dif_pos h

theorem draft_float_of_not_finite {f : Float} (h : f.isFinite = false) : (float f).draft = .null :=
  dif_neg (by simp [h])

theorem write_float_of_not_finite {f : Float} (h : f.isFinite = false) (spacing : Spacing)
    (level : Nat) : (float f).write spacing level = null.write spacing level := by
  have htext : Number.style.write f = "null" := by
    unfold Decimal.Style.write
    rcases Number.isNaN_or_isInf h with hnan | hinf
    · rw [if_pos hnan]
      rfl
    · rw [hinf]
      simp [Number.style]
  rw [write, write, htext]
  rfl

theorem readsBack_float (f : Float) : (float f).ReadsBack := by
  intro spacing level limit rest hspacing hrest hlimit
  cases hf : f.isFinite with
  | true =>
    rw [draft_float hf]
    exact readsBack_num (.float f hf) spacing level limit rest hspacing hrest hlimit
  | false =>
    rw [write_float_of_not_finite hf] at hlimit ⊢
    rw [draft_float_of_not_finite hf]
    exact readsBack_null spacing level limit rest hspacing hrest hlimit

/-! ## Lists and objects -/

/-- The text of an item is neither blank nor the end of a list. -/
theorem head_write (o : Outline) (spacing : Spacing) (level : Nat) :
    ∃ c cs, o.write spacing level = c :: cs ∧ isSpace c = false ∧ c ≠ ']' := by
  have hnumber : ∀ n : Number,
      ∃ c cs, n.text.toList = c :: cs ∧ isSpace c = false ∧ c ≠ ']' := by
    intro n
    obtain ⟨c, cs, hcs, hc⟩ := head_text n
    obtain ⟨hspace, hother⟩ := startsNumber hc
    exact ⟨c, cs, hcs, hspace, by rintro rfl; simp at hother⟩
  cases o with
  | null => exact ⟨'n', _, rfl, rfl, by decide⟩
  | bool b =>
    cases b with
    | true => exact ⟨'t', _, rfl, rfl, by decide⟩
    | false => exact ⟨'f', _, rfl, rfl, by decide⟩
  | num n => exact hnumber n
  | float f =>
    cases hf : f.isFinite with
    | true => exact hnumber (.float f hf)
    | false =>
      rw [write_float_of_not_finite hf]
      exact ⟨'n', _, rfl, rfl, by decide⟩
  | str s => exact ⟨'"', _, rfl, rfl, by decide⟩
  | list items =>
    cases items with
    | nil => exact ⟨'[', _, rfl, rfl, by decide⟩
    | cons item items => exact ⟨'[', _, rfl, rfl, by decide⟩
  | fields members =>
    cases members with
    | nil => exact ⟨'\x7b', _, rfl, rfl, by decide⟩
    | cons member members => exact ⟨'\x7b', _, rfl, rfl, by decide⟩

theorem endsLiteral_items (items : List Outline) (h : EndsLiteral rest) (spacing : Spacing)
    (level : Nat) : EndsLiteral (writeItems spacing level items ++ rest) := by
  cases items with
  | nil => exact h
  | cons item items => exact endsLiteral_cons (by decide) _

theorem endsLiteral_members (members : List (String × Outline)) (h : EndsLiteral rest)
    (spacing : Spacing) (level : Nat) : EndsLiteral (writeMembers spacing level members ++ rest) := by
  cases members with
  | nil => exact h
  | cons member members => exact endsLiteral_cons (by decide) _

/-- Items that are read back one by one are read back in a row. -/
theorem readItems_write (hspacing : spacing.Blank) (htail : Blank tail) (rest : List Char)
    (level : Nat) (items : List Outline) :
    ∀ (item : Outline) (limit : Nat), (∀ o ∈ item :: items, o.ReadsBack) →
      2 * ((item.write spacing level).length + (writeItems spacing level items).length) < limit →
        readItems limit (item.write spacing level ++ (writeItems spacing level items ++
          (tail ++ ']' :: rest))) = (drafts (item :: items), none, rest) := by
  have hends : EndsLiteral (tail ++ ']' :: rest) :=
    EndsLiteral.append (endsLiteral_cons (by decide) rest) htail
  induction items with
  | nil =>
    intro item limit h hlimit
    obtain ⟨limit, rfl⟩ := Nat.exists_eq_add_one_of_ne_zero (Nat.ne_zero_of_lt hlimit)
    rw [readItems, h item List.mem_cons_self spacing level limit _ hspacing
      (endsLiteral_items [] hends spacing level) (by omega)]
    simp only [writeItems, List.nil_append, skipSpace_append htail]
    rw [skipSpace_cons rfl]
    rfl
  | cons next items ih =>
    intro item limit h hlimit
    obtain ⟨limit, rfl⟩ := Nat.exists_eq_add_one_of_ne_zero (Nat.ne_zero_of_lt hlimit)
    rw [readItems, h item List.mem_cons_self spacing level limit _ hspacing
      (endsLiteral_items (next :: items) hends spacing level) (by omega)]
    simp only [writeItems, List.cons_append, List.append_assoc, List.length_cons,
      List.length_append] at hlimit ⊢
    rw [skipSpace_cons rfl]
    simp only [readItems_append (hspacing.line level)]
    -- the step to the next item is paid for by the comma
    rw [ih next limit (fun o ho => h o (List.mem_cons_of_mem _ ho)) (by omega)]
    rfl

/-- A member is read up to what follows its value. -/
theorem readMembers_member (hspacing : spacing.Blank) {value : Outline} (hvalue : value.ReadsBack)
    (name : String) {level limit : Nat} (hrest : EndsLiteral rest)
    (hlimit : 2 * ((stringText name).length + (value.write spacing level).length) ≤ limit) :
    readMembers (limit + 1) (stringText name ++ ':' :: (spacing.afterColon ++
      (value.write spacing level ++ rest))) =
      match skipSpace rest with
      | '\x7d' :: rest => ([(some name, value.draft)], none, rest)
      | ',' :: rest =>
        ((some name, value.draft) :: (readMembers limit rest).1, (readMembers limit rest).2.1,
          (readMembers limit rest).2.2)
      | [] => ([(some name, value.draft)], some (.both .unfinished), [])
      | _ => ([(some name, value.draft)], some (.both .malformed), []) := by
  rw [stringText_eq, List.cons_append, List.append_assoc, List.singleton_append, readMembers,
    skipSpace_cons rfl]
  simp only [readString_escaped name _ limit (by omega)]
  rw [skipSpace_cons rfl]
  simp only [readValue_append hspacing.afterColon]
  have hread := hvalue spacing level limit rest hspacing hrest (by omega)
  generalize readValue limit (value.write spacing level ++ rest) = found at hread ⊢
  subst hread
  rfl

/-- Members whose values are read back one by one are read back in a row. -/
theorem readMembers_write (hspacing : spacing.Blank) (htail : Blank tail) (rest : List Char)
    (level : Nat) (members : List (String × Outline)) : ∀ (name : String) (value : Outline)
      (limit : Nat), value.ReadsBack → (∀ member ∈ members, member.2.ReadsBack) →
      2 * ((stringText name).length + (value.write spacing level).length +
        (writeMembers spacing level members).length) < limit →
        readMembers limit (stringText name ++ ':' :: (spacing.afterColon ++
          (value.write spacing level ++ (writeMembers spacing level members ++
            (tail ++ '\x7d' :: rest))))) =
          (draftsByName ((name, value) :: members), none, rest) := by
  have hends : EndsLiteral (tail ++ '\x7d' :: rest) :=
    EndsLiteral.append (endsLiteral_cons (by decide) rest) htail
  induction members with
  | nil =>
    intro name value limit hvalue _ hlimit
    obtain ⟨limit, rfl⟩ := Nat.exists_eq_add_one_of_ne_zero (Nat.ne_zero_of_lt hlimit)
    rw [readMembers_member hspacing hvalue name (endsLiteral_members [] hends spacing level)
      (by omega), writeMembers, List.nil_append, skipSpace_append htail, skipSpace_cons rfl]
    rfl
  | cons member members ih =>
    intro name value limit hvalue hmembers hlimit
    obtain ⟨next, nextValue⟩ := member
    obtain ⟨limit, rfl⟩ := Nat.exists_eq_add_one_of_ne_zero (Nat.ne_zero_of_lt hlimit)
    rw [readMembers_member hspacing hvalue name
      (endsLiteral_members ((next, nextValue) :: members) hends spacing level) (by omega)]
    simp only [writeMembers, List.cons_append, List.append_assoc, List.length_cons,
      List.length_append] at hlimit ⊢
    rw [skipSpace_cons rfl]
    simp only [readMembers_append (hspacing.line level)]
    rw [ih next nextValue limit (hmembers (next, nextValue) List.mem_cons_self)
      (fun member hmem => hmembers member (List.mem_cons_of_mem _ hmem)) (by omega)]
    rfl

/-! ## Whole texts -/

theorem readsBack_list {items : List Outline} (hitems : ∀ item ∈ items, item.ReadsBack) :
    (list items).ReadsBack := by
  intro spacing level limit rest hspacing _ hlimit
  cases items with
  | nil =>
    obtain ⟨limit, rfl⟩ := Nat.exists_eq_add_one_of_ne_zero (Nat.ne_zero_of_lt hlimit)
    rfl
  | cons item items =>
    simp only [write, List.cons_append, List.append_assoc, List.length_cons, List.length_append,
      List.nil_append] at hlimit ⊢
    obtain ⟨limit, rfl⟩ := Nat.exists_eq_add_one_of_ne_zero (Nat.ne_zero_of_lt hlimit)
    obtain ⟨c, cs, hcs, hspace, hclose⟩ := head_write item spacing (level + 1)
    have hread := readItems_write hspacing (hspacing.line level) rest (level + 1) items item limit
      hitems (by omega)
    rw [hcs, List.cons_append] at hread ⊢
    rw [readValue_list hspace hclose (hspacing.line (level + 1)), hread]
    rfl

theorem readsBack_fields {members : List (String × Outline)}
    (hmembers : ∀ member ∈ members, member.2.ReadsBack) : (fields members).ReadsBack := by
  intro spacing level limit rest hspacing _ hlimit
  cases members with
  | nil =>
    obtain ⟨limit, rfl⟩ := Nat.exists_eq_add_one_of_ne_zero (Nat.ne_zero_of_lt hlimit)
    rfl
  | cons member members =>
    obtain ⟨name, value⟩ := member
    simp only [write, List.cons_append, List.append_assoc, List.length_cons, List.length_append,
      List.nil_append] at hlimit ⊢
    obtain ⟨limit, rfl⟩ := Nat.exists_eq_add_one_of_ne_zero (Nat.ne_zero_of_lt hlimit)
    have hread := readMembers_write hspacing (hspacing.line level) rest (level + 1) members name
      value limit (hmembers (name, value) List.mem_cons_self)
      (fun member hmem => hmembers member (List.mem_cons_of_mem _ hmem)) (by omega)
    rw [stringText_eq, List.cons_append] at hread ⊢
    rw [readValue_fields rfl (by decide) (hspacing.line (level + 1)), hread]
    rfl

theorem readsBack : (o : Outline) → o.ReadsBack
  | .null => readsBack_null
  | .bool b => readsBack_bool b
  | .num n => readsBack_num n
  | .float f => readsBack_float f
  | .str s => readsBack_str s
  | .list items => readsBack_list fun item _ => readsBack item
  | .fields members => readsBack_fields fun member _ => readsBack member.2
termination_by o => sizeOf o
decreasing_by
  · have := List.sizeOf_lt_of_mem ‹item ∈ items›
    simp only [list.sizeOf_spec]
    omega
  · have := List.sizeOf_lt_of_mem ‹member ∈ members›
    obtain ⟨name, value⟩ := member
    simp only [fields.sizeOf_spec, Prod.mk.sizeOf_spec] at this ⊢
    omega

end Outline

namespace Draft

variable {o : Outline}

/-- The text of an outline says its draft and nothing else, in any layout by blanks. -/
theorem ofText_write {spacing : Spacing} (hspacing : spacing.Blank) :
    ofText (String.ofList (o.write spacing 0)) = (o.draft, true) := by
  have hread := o.readsBack spacing 0 (2 * (o.write spacing 0).length + 2) [] hspacing
    endsLiteral_nil (Nat.le_add_right _ 2)
  rw [List.append_nil] at hread
  rw [ofText, String.toList_ofList]
  simp only [hread]
  rfl

theorem ofText_pretty : ofText o.pretty = (o.draft, true) := ofText_write Spacing.blank_lines

end Draft

end Conduct.Json
