import Conduct.Proofs.Failing
import Conduct.Record.Reading
import Mathlib.Data.List.Forall2

/-! Which objects are records.

A record is read from an object just where every field tells what the record holds there: the value
that the object has for the field reads as that, or else that is the default of the field. Main
statements: `Json.Draft.value_ofJson`, `Record.content?_readMembers`, `Record.exists_readMembers` and
`Record.ofJson_obj_eq_ok_iff`.
-/

set_option autoImplicit false

namespace Conduct

/-! ## The draft of a value -/

namespace Json.Draft

mutual

theorem skip_ofJson : (j : Json) → (ofJson j).skip = .ok ()
  | .null => rfl
  | .bool _ => rfl
  | .num _ => rfl
  | .str _ => rfl
  | .arr items => by
    rw [ofJson, skip, skipItems_ofItems items]
    rfl
  | .obj members => by
    rw [ofJson, skip, skipMembers_ofMembers members]
    rfl

theorem skipItems_ofItems : (items : List Json) → skipItems (ofItems items) = .ok ()
  | [] => rfl
  | item :: items => by
    rw [ofItems, skipItems, skip_ofJson item]
    exact skipItems_ofItems items

theorem skipMembers_ofMembers {lo : Option String} :
    (members : Dict.From Json lo) → skipMembers (ofMembers members) = .ok ()
  | .nil => rfl
  | .cons _ _ value rest => by
    rw [ofMembers, skipMembers, skip_ofJson value]
    exact skipMembers_ofMembers rest

end

mutual

/-- A value is read from its own draft. -/
theorem value_ofJson : (j : Json) → (ofJson j).value .unlimited = .ok j
  | .null => rfl
  | .bool _ => rfl
  | .num _ => rfl
  | .str _ => rfl
  | .arr items => by
    rw [ofJson, value, Depth.enter]
    simp only [bind, Except.bind, values_ofItems items, stopped]
  | .obj members => by
    rw [ofJson, value, Depth.enter]
    simp only [bind, Except.bind, valuesByName_ofMembers .nil members, stopped]
    exact congrArg (fun members => Except.ok (Json.obj members)) (Dict.ofList_toList members)

theorem values_ofItems : (items : List Json) → values .unlimited (ofItems items) = .ok items
  | [] => rfl
  | item :: items => by
    rw [ofItems, values, value_ofJson item, values_ofItems items]
    rfl

theorem valuesByName_ofMembers (found : Dict Json) {lo : Option String} :
    (members : Dict.From Json lo) → valuesByName .unlimited found (ofMembers members) =
      .ok (members.toList.foldl (fun d e => d.insert e.1 e.2) found)
  | .nil => rfl
  | .cons name _ value rest => by
    rw [ofMembers, valuesByName, value_ofJson value]
    exact valuesByName_ofMembers (found.insert name value) rest

end

end Json.Draft

namespace Record

open Json (Draft ReadError)

/-! ## What fields hold -/

/-- What a record holds in one of its fields. -/
inductive Content
  | text (s : String)
  | number (f : Float)
  | bag (properties : Properties)
  | below (rs : List Record)

def content : Record → Field → Content
  | .node e _, .id => .text e.id
  | .node e _, .tag => .text e.tag
  | .node e _, .name => .text e.name
  | .node e _, .x => .number e.layout.x
  | .node e _, .y => .number e.layout.y
  | .node e _, .width => .number e.layout.width
  | .node e _, .height => .number e.layout.height
  | .node e _, .properties => .bag e.properties
  | .node _ rs, .children => .below rs

def Partial.content? (p : Partial) : Field → Option Content
  | .id => p.id.map .text
  | .tag => p.tag.map .text
  | .name => p.name.map .text
  | .x => p.x.map .number
  | .y => p.y.map .number
  | .width => p.width.map .number
  | .height => p.height.map .number
  | .properties => p.properties.map .bag
  | .children => p.children.map .below

/-- What a field holds where it is missing, if it may be missing. -/
def Field.start? : Field → Option Content
  | .id => some (.text "")
  | .tag => none
  | .name => none
  | .x => none
  | .y => none
  | .width => some (.number ({} : Layout).width)
  | .height => some (.number ({} : Layout).height)
  | .properties => some (.bag .nil)
  | .children => some (.below [])

/-- The value reads as what a field holds. -/
inductive Reads : Json → Content → Prop
  | text (s : String) : Reads (.str s) (.text s)
  | number (n : Number) : Reads (.num n) (.number n.toFloat)
  | bag (members : Dict Json) : Reads (.obj members) (.bag members)
  | below {items : List Json} {rs : List Record}
      (h : List.Forall₂ (fun j r => ofJson j = .ok r) items rs) : Reads (.arr items) (.below rs)

theorem reads_text_iff {j : Json} {s : String} : Reads j (.text s) ↔ j = .str s := by
  constructor
  · rintro ⟨⟩
    rfl
  · rintro rfl
    exact .text s

theorem reads_number_iff {j : Json} {f : Float} :
    Reads j (.number f) ↔ ∃ n, j = .num n ∧ n.toFloat = f := by
  constructor
  · rintro ⟨⟩
    exact ⟨_, rfl, rfl⟩
  · rintro ⟨n, rfl, rfl⟩
    exact .number n

theorem reads_bag_iff {j : Json} {properties : Properties} :
    Reads j (.bag properties) ↔ j = .obj properties := by
  constructor
  · rintro ⟨⟩
    rfl
  · rintro rfl
    exact .bag properties

theorem reads_below_iff {j : Json} {rs : List Record} : Reads j (.below rs) ↔
    ∃ items, j = .arr items ∧ List.Forall₂ (fun j r => ofJson j = .ok r) items rs := by
  constructor
  · rintro ⟨⟩
    exact ⟨_, rfl, ‹_›⟩
  · rintro ⟨items, rfl, h⟩
    exact .below h

theorem right_unique_ofJson : Relator.RightUnique fun j r => ofJson j = .ok r :=
  fun _ _ _ ha hb => Except.ok.inj (ha.symm.trans hb)

theorem Reads.unique {j : Json} {a b : Content} (ha : Reads j a) (hb : Reads j b) : a = b := by
  cases ha with
  | text s =>
    cases hb
    rfl
  | number n =>
    cases hb
    rfl
  | bag members =>
    cases hb
    rfl
  | below ha =>
    cases hb with
    | below hb =>
      exact congrArg Content.below (List.right_unique_forall₂' right_unique_ofJson ha hb)

theorem isSome_content? (p : Partial) (f : Field) : (p.content? f).isSome = p.has f := by
  cases f <;> exact Option.isSome_map

theorem text_of_lookup_byName {name : String} {f : Field} (h : Field.byName.lookup name = some f) :
    f.text = name := by
  obtain ⟨before, after, hlist, -⟩ := List.lookup_eq_some_iff.1 h
  have hmem : (name, f) ∈ Field.byName := by
    rw [hlist]
    exact List.mem_append_right _ List.mem_cons_self
  exact (show ∀ e ∈ Field.byName, e.2.text = e.1 by decide) _ hmem

theorem lookup_byName_text (f : Field) : Field.byName.lookup f.text = some f := by
  cases f <;> rfl

/-! ## Single fields -/

theorem readString_ofJson {j : Json} {s : String} :
    readString (Draft.ofJson j) = .ok s ↔ Reads j (.text s) := by
  constructor
  · intro h
    cases j <;> cases h
    exact .text s
  · rintro ⟨⟩
    rfl

theorem readFloat_ofJson {j : Json} {x : Float} :
    readFloat (Draft.ofJson j) = .ok x ↔ Reads j (.number x) := by
  constructor
  · intro h
    cases j <;> cases h
    exact .number _
  · rintro ⟨⟩
    rfl

theorem readProperties_ofJson {j : Json} {properties : Properties} :
    readProperties .unlimited (Draft.ofJson j) = .ok properties ↔ Reads j (.bag properties) := by
  have hobj : ∀ members : Dict Json,
      readProperties .unlimited (Draft.ofJson (.obj members)) = .ok members := by
    intro members
    rw [Draft.ofJson, readProperties, Json.Depth.enter]
    simp only [ReadError.ofFault, Except.mapError, bind, Except.bind,
      Draft.valuesByName_ofMembers .nil members, Draft.stopped]
    exact congrArg Except.ok (Dict.ofList_toList members)
  constructor
  · intro h
    cases j with
    | obj members =>
      rw [hobj] at h
      cases h
      exact .bag properties
    | _ => cases h
  · rintro ⟨⟩
    exact hobj properties

theorem readAll_ofItems {items : List Json} {rs : List Record} :
    readAll .unlimited (Draft.ofItems items) = .ok rs ↔
      List.Forall₂ (fun j r => ofJson j = .ok r) items rs := by
  induction items generalizing rs with
  | nil =>
    rw [Draft.ofItems, readAll, Except.ok.injEq, List.forall₂_nil_left_iff, eq_comm]
  | cons item items ih =>
    rw [Draft.ofItems, readAll, List.forall₂_cons_left_iff]
    constructor
    · intro h
      obtain ⟨r, hr, h⟩ := bind_eq_ok h
      obtain ⟨rs', hrs, h⟩ := bind_eq_ok h
      cases h
      exact ⟨r, rs', hr, ih.1 hrs, rfl⟩
    · rintro ⟨r, rs', hr, hrs, rfl⟩
      unfold ofJson at hr
      rw [hr, ih.2 hrs]
      rfl

theorem readChildren_ofJson {j : Json} {rs : List Record} :
    readChildren .unlimited (Draft.ofJson j) = .ok rs ↔ Reads j (.below rs) := by
  have harr : ∀ items, readChildren .unlimited (Draft.ofJson (.arr items)) =
      readAll .unlimited (Draft.ofItems items) := by
    intro items
    rw [Draft.ofJson, readChildren, Json.Depth.enter]
    cases h : readAll .unlimited (Draft.ofItems items) with
    | ok rs =>
      simp only [ReadError.ofFault, Except.mapError, bind, Except.bind, h, Draft.stopped]
    | error err =>
      simp only [ReadError.ofFault, Except.mapError, bind, Except.bind, h]
  constructor
  · intro h
    cases j with
    | arr items =>
      rw [harr, readAll_ofItems] at h
      exact .below h
    | _ => cases h
  · rintro ⟨⟩
    next h => rwa [harr, readAll_ofItems]

/-- The fields that were read with one more of them, which may be the one of the children. -/
def Partial.take (p : Partial) (f : Field) (d : Draft) : Except ReadError Partial :=
  if f = .children then
    (readChildren .unlimited d).map fun rs => { p with children := some rs }
  else p.read .unlimited f d

/-- A field that is taken holds what its value reads as, and no other field changes. -/
theorem Partial.take_eq_ok {p q : Partial} {f : Field} {j : Json}
    (h : p.take f (Draft.ofJson j) = .ok q) :
    (∃ c, Reads j c ∧ q.content? f = some c) ∧ ∀ g, g ≠ f → q.content? g = p.content? g := by
  cases f
  case id | tag | name =>
    obtain ⟨s, hs, rfl⟩ := map_eq_ok h
    refine ⟨⟨_, readString_ofJson.1 hs, rfl⟩, fun g hg => ?_⟩
    cases g <;> first | rfl | exact absurd rfl hg
  case x | y | width | height =>
    obtain ⟨n, hn, rfl⟩ := map_eq_ok h
    refine ⟨⟨_, readFloat_ofJson.1 hn, rfl⟩, fun g hg => ?_⟩
    cases g <;> first | rfl | exact absurd rfl hg
  case properties =>
    obtain ⟨properties, hproperties, rfl⟩ := map_eq_ok h
    refine ⟨⟨_, readProperties_ofJson.1 hproperties, rfl⟩, fun g hg => ?_⟩
    cases g <;> first | rfl | exact absurd rfl hg
  case children =>
    obtain ⟨rs, hrs, rfl⟩ := map_eq_ok h
    refine ⟨⟨_, readChildren_ofJson.1 hrs, rfl⟩, fun g hg => ?_⟩
    cases g <;> first | rfl | exact absurd rfl hg

theorem Partial.exists_take (p : Partial) {f : Field} {j : Json} {r : Record}
    (h : Reads j (r.content f)) : ∃ q, p.take f (Draft.ofJson j) = .ok q := by
  obtain ⟨e, rs⟩ := r
  cases f
  case id | tag | name => exact ⟨_, congrArg (Except.map _) (readString_ofJson.2 h)⟩
  case x | y | width | height => exact ⟨_, congrArg (Except.map _) (readFloat_ofJson.2 h)⟩
  case properties => exact ⟨_, congrArg (Except.map _) (readProperties_ofJson.2 h)⟩
  case children => exact ⟨_, congrArg (Except.map _) (readChildren_ofJson.2 h)⟩

/-! ## Whole records -/

theorem readMembers_unknown {p : Partial} {name : String} {j : Json}
    {members : List (Option String × Draft)} (h : Field.byName.lookup name = none) :
    readMembers .unlimited p ((some name, Draft.ofJson j) :: members) =
      readMembers .unlimited p members := by
  rw [readMembers, Draft.held]
  simp only [ReadError.ofFault, Except.mapError, bind, Except.bind, h, Draft.skip_ofJson]

/-- A field that was not read yet is read from its value. -/
theorem readMembers_text {depth : Json.Depth} {p : Partial} {f : Field} {d : Draft}
    {members : List (Option String × Draft)} (h : p.has f = false) :
    readMembers depth p ((some f.text, d) :: members) =
      (if f = .children then
        (readChildren depth d).map fun rs => { p with children := some rs }
      else p.read depth f d) >>= fun q => readMembers depth q members := by
  rw [readMembers, Draft.held]
  simp only [ReadError.ofFault, Except.mapError, bind, Except.bind, lookup_byName_text, h,
    Bool.false_eq_true, if_false]
  split
  · cases readChildren depth d <;> rfl
  · rfl

theorem readMembers_field {p : Partial} {f : Field} {d : Draft}
    {members : List (Option String × Draft)} (h : p.has f = false) :
    readMembers .unlimited p ((some f.text, d) :: members) =
      p.take f d >>= fun q => readMembers .unlimited q members :=
  readMembers_text h

/-- What a field holds after what an object has for it was read, given what it held before. -/
def Told (found : Option Json) (before after : Option Content) : Prop :=
  match found with
  | some j => ∃ c, Reads j c ∧ after = some c
  | none => after = before

theorem told_some {j : Json} {before : Option Content} {c : Content} :
    Told (some j) before (some c) ↔ Reads j c := by
  constructor
  · rintro ⟨d, hd, hc⟩
    cases hc
    exact hd
  · exact fun h => ⟨c, h, rfl⟩

/-- A field with a default is told something just if what the object has for it can be read. -/
theorem exists_told_iff {α : Type} {g : α → Content} {found : Option Json} {start : α} :
    (∃ a, Told found (some (g start)) (some (g a))) ↔
      ∀ j, found = some j → ∃ a, Reads j (g a) := by
  cases found with
  | none => exact iff_of_true ⟨start, rfl⟩ nofun
  | some j => simp only [told_some, Option.some.injEq, forall_eq']

section Optional

variable {found : Option Json}

theorem exists_told_text_iff {start : String} :
    (∃ s, Told found (some (.text start)) (some (.text s))) ↔
      ∀ j, found = some j → ∃ s, j = .str s := by
  simp only [exists_told_iff, reads_text_iff]

theorem exists_told_number_iff {start : Float} :
    (∃ f, Told found (some (.number start)) (some (.number f))) ↔
      ∀ j, found = some j → ∃ n, j = .num n := by
  rw [exists_told_iff]
  refine forall₂_congr fun j _ => ?_
  simp only [reads_number_iff]
  exact exists_comm.trans (exists_congr fun n => by simp)

theorem exists_told_bag_iff {start : Properties} :
    (∃ properties, Told found (some (.bag start)) (some (.bag properties))) ↔
      ∀ j, found = some j → ∃ members, j = .obj members := by
  simp only [exists_told_iff, reads_bag_iff]

end Optional

/-- An object has no member for a field that was already read. -/
def Fresh {lo : Option String} (p : Partial) (members : Dict.From Json lo) : Prop :=
  ∀ f, p.has f = true → members.get? f.text = none

section Members

variable {lo : Option String} {p q : Partial} {key : String} {above : Dict.Above lo key}
  {value : Json} {rest : Dict.From Json (some key)} {members : Dict.From Json lo}

theorem get?_cons_of_unknown (hkey : Field.byName.lookup key = none) (f : Field) :
    (Dict.From.cons key above value rest).get? f.text = rest.get? f.text := by
  rw [Dict.From.get?_cons, if_neg]
  rintro rfl
  rw [lookup_byName_text] at hkey
  cases hkey

theorem get?_cons_of_field {f g : Field} {above : Dict.Above lo f.text}
    {rest : Dict.From Json (some f.text)} (hg : g ≠ f) :
    (Dict.From.cons f.text above value rest).get? g.text = rest.get? g.text := by
  rw [Dict.From.get?_cons, if_neg]
  intro htext
  have hlookup := lookup_byName_text g
  rw [← htext, lookup_byName_text] at hlookup
  exact hg (Option.some.inj hlookup).symm

theorem get?_rest_self (rest : Dict.From Json (some key)) : rest.get? key = none :=
  Dict.From.get?_eq_none_of_le (String.lt_irrefl key) rest

theorem Fresh.has_eq_false {f : Field} {above : Dict.Above lo f.text}
    {rest : Dict.From Json (some f.text)} (h : Fresh p (.cons f.text above value rest)) :
    p.has f = false := by
  refine Bool.eq_false_iff.2 fun hf => ?_
  have hget := h f hf
  rw [Dict.From.get?_cons, if_pos rfl] at hget
  cases hget

theorem Fresh.unknown (h : Fresh p (.cons key above value rest))
    (hkey : Field.byName.lookup key = none) : Fresh p rest := by
  intro f hf
  have hget := h f hf
  rwa [get?_cons_of_unknown hkey] at hget

theorem Fresh.take {f : Field} {above : Dict.Above lo f.text}
    {rest : Dict.From Json (some f.text)} (h : Fresh p (.cons f.text above value rest))
    (hq : ∀ g, g ≠ f → q.content? g = p.content? g) : Fresh q rest := by
  intro g hg
  by_cases hgf : g = f
  · rw [hgf]
    exact get?_rest_self rest
  · rw [← isSome_content?, hq g hgf, isSome_content?] at hg
    have hget := h g hg
    rwa [get?_cons_of_field hgf] at hget

/-- Once all members of an object are read, each field holds what it is told. -/
theorem told_of_readMembers (hp : Fresh p members)
    (h : readMembers .unlimited p (Draft.ofMembers members) = .ok q) (f : Field) :
    Told (members.get? f.text) (p.content? f) (q.content? f) := by
  induction members generalizing p with
  | nil =>
    cases h
    rfl
  | cons key above value rest ih =>
    rw [Draft.ofMembers] at h
    cases hkey : Field.byName.lookup key with
    | none =>
      rw [readMembers_unknown hkey] at h
      rw [get?_cons_of_unknown hkey]
      exact ih (hp.unknown hkey) h
    | some g =>
      obtain rfl := text_of_lookup_byName hkey
      rw [readMembers_field hp.has_eq_false] at h
      obtain ⟨p', hp', h⟩ := bind_eq_ok h
      obtain ⟨⟨c, hc, htaken⟩, hframe⟩ := Partial.take_eq_ok hp'
      have hrest := ih (hp.take hframe) h
      by_cases hf : f = g
      · subst hf
        rw [get?_rest_self] at hrest
        rw [Dict.From.get?_cons, if_pos rfl]
        exact ⟨c, hc, hrest.trans htaken⟩
      · rwa [get?_cons_of_field hf, ← hframe f hf]

/-- The members of an object can all be read if each reads as some record holds it. -/
theorem exists_readMembers {r : Record} (hp : Fresh p members)
    (h : ∀ f j, members.get? f.text = some j → Reads j (r.content f)) :
    ∃ q, readMembers .unlimited p (Draft.ofMembers members) = .ok q := by
  induction members generalizing p with
  | nil => exact ⟨p, rfl⟩
  | cons key above value rest ih =>
    rw [Draft.ofMembers]
    cases hkey : Field.byName.lookup key with
    | none =>
      rw [readMembers_unknown hkey]
      exact ih (hp.unknown hkey) fun f j hj => h f j ((get?_cons_of_unknown hkey f).trans hj)
    | some g =>
      obtain rfl := text_of_lookup_byName hkey
      have hvalue := h g value (by rw [Dict.From.get?_cons, if_pos rfl])
      obtain ⟨p', hp'⟩ := p.exists_take hvalue
      rw [readMembers_field hp.has_eq_false, hp']
      refine ih (hp.take (Partial.take_eq_ok hp').2) fun f j hj => ?_
      by_cases hf : f = g
      · subst hf
        rw [get?_rest_self] at hj
        cases hj
      · exact h f j ((get?_cons_of_field hf).trans hj)

end Members

theorem required_eq_ok_iff {α : Type} {f : Field} {found : Option α} {a : α} :
    required f found = .ok a ↔ found = some a := by
  cases found <;> simp [required]

theorem map_or_none_eq_some_iff {α : Type} {g : α → Content} (hg : Function.Injective g)
    {found : Option α} {a : α} : (found.map g).or none = some (g a) ↔ found = some a := by
  cases found <;> simp [hg.eq_iff]

theorem map_or_some_eq_some_iff {α : Type} {g : α → Content} (hg : Function.Injective g)
    {found : Option α} {start a : α} :
    (found.map g).or (some (g start)) = some (g a) ↔ found.getD start = a := by
  cases found <;> simp [hg.eq_iff]

/-- What was read is a record if each field that is missing has a default. -/
theorem Partial.finish_eq_ok_iff {p : Partial} {r : Record} :
    p.finish = .ok r ↔ ∀ f, (p.content? f).or f.start? = some (r.content f) := by
  obtain ⟨⟨id, tag, name, ⟨x, y, width, height⟩, properties⟩, rs⟩ := r
  have htext : Function.Injective Content.text := fun _ _ => Content.text.inj
  have hnumber : Function.Injective Content.number := fun _ _ => Content.number.inj
  have hbag : Function.Injective Content.bag := fun _ _ => Content.bag.inj
  have hbelow : Function.Injective Content.below := fun _ _ => Content.below.inj
  constructor
  · intro h
    obtain ⟨t, ht, h⟩ := bind_eq_ok h
    obtain ⟨n, hn, h⟩ := bind_eq_ok h
    obtain ⟨u, hu, h⟩ := bind_eq_ok h
    obtain ⟨v, hv, h⟩ := bind_eq_ok h
    cases h
    rintro (_ | _)
    · exact (map_or_some_eq_some_iff htext).2 rfl
    · exact (map_or_none_eq_some_iff htext).2 (required_eq_ok_iff.1 ht)
    · exact (map_or_none_eq_some_iff htext).2 (required_eq_ok_iff.1 hn)
    · exact (map_or_none_eq_some_iff hnumber).2 (required_eq_ok_iff.1 hu)
    · exact (map_or_none_eq_some_iff hnumber).2 (required_eq_ok_iff.1 hv)
    · exact (map_or_some_eq_some_iff hnumber).2 rfl
    · exact (map_or_some_eq_some_iff hnumber).2 rfl
    · exact (map_or_some_eq_some_iff hbag).2 rfl
    · exact (map_or_some_eq_some_iff hbelow).2 rfl
  · intro h
    have hid : p.id.getD "" = id := (map_or_some_eq_some_iff htext).1 (h .id)
    have htag : p.tag = some tag := (map_or_none_eq_some_iff htext).1 (h .tag)
    have hname : p.name = some name := (map_or_none_eq_some_iff htext).1 (h .name)
    have hx : p.x = some x := (map_or_none_eq_some_iff hnumber).1 (h .x)
    have hy : p.y = some y := (map_or_none_eq_some_iff hnumber).1 (h .y)
    have hwidth : p.width.getD ({} : Layout).width = width :=
      (map_or_some_eq_some_iff hnumber).1 (h .width)
    have hheight : p.height.getD ({} : Layout).height = height :=
      (map_or_some_eq_some_iff hnumber).1 (h .height)
    have hproperties : p.properties.getD .nil = properties :=
      (map_or_some_eq_some_iff hbag).1 (h .properties)
    have hchildren : p.children.getD [] = rs := (map_or_some_eq_some_iff hbelow).1 (h .children)
    simp only [finish, required, bind, Except.bind, hid, htag, hname, hx, hy, hwidth, hheight,
      hproperties, hchildren]

/-- An object is read as a record if and only if it tells each field of the record. -/
theorem ofJson_obj_eq_ok_iff {members : Dict Json} {r : Record} : ofJson (.obj members) = .ok r ↔
    ∀ f : Field, Told (members.get? f.text) f.start? (some (r.content f)) := by
  have hfresh : Fresh {} members := fun f hf => by cases f <;> cases hf
  have hstart : ∀ f, ({} : Partial).content? f = none := fun f => by cases f <;> rfl
  have hread : ofJson (.obj members) =
      readMembers .unlimited {} (Draft.ofMembers members) >>= Partial.finish := by
    unfold ofJson
    rw [Draft.ofJson, ofDraft, Json.Depth.enter]
    cases h : readMembers .unlimited {} (Draft.ofMembers members) with
    | ok p => simp only [ReadError.ofFault, Except.mapError, bind, Except.bind, h, Draft.stopped]
    | error err => simp only [ReadError.ofFault, Except.mapError, bind, Except.bind, h]
  rw [hread]
  constructor
  · intro h f
    obtain ⟨p, hp, h⟩ := bind_eq_ok h
    have htold := told_of_readMembers hfresh hp f
    have hf := Partial.finish_eq_ok_iff.1 h f
    cases hget : members.get? f.text with
    | some j =>
      rw [hget] at htold
      obtain ⟨c, hc, htold⟩ := htold
      rw [htold, Option.some_or] at hf
      exact ⟨c, hc, hf.symm⟩
    | none =>
      rw [hget, hstart] at htold
      rw [show p.content? f = none from htold, Option.none_or] at hf
      exact hf.symm
  · intro h
    obtain ⟨p, hp⟩ := exists_readMembers (r := r) hfresh fun f j hj => told_some.1 (hj ▸ h f)
    rw [hp]
    refine Partial.finish_eq_ok_iff.2 fun f => ?_
    have htold := told_of_readMembers hfresh hp f
    have hf := h f
    cases hget : members.get? f.text with
    | some j =>
      rw [hget] at htold hf
      obtain ⟨c, hc, htold⟩ := htold
      rw [htold, Option.some_or, hc.unique (told_some.1 hf)]
    | none =>
      rw [hget] at htold hf
      rw [show p.content? f = none from htold.trans (hstart f), Option.none_or]
      exact hf.symm

end Record

end Conduct
