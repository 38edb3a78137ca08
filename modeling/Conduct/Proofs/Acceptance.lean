import Conduct.Proofs.Faults
import Conduct.Proofs.Reading

/-! Data in which nothing is found, as a record and as a tree.

What is looked for in data is what a tree needs: names, tags, positions and children. Members that a
node may do without are not looked at, so data in which nothing is found is a record just where these
are of the right sort, and a load of that record does not fail for its shape. Main statements:
`flaws_eq_nil`, `exists_ofJson_iff`, `shapely` and `decodes`.
-/

set_option autoImplicit false

namespace Conduct

namespace Candidate

variable {p : Position} {seen : List String} {j : Json} {members : Dict Json}

/-- The data of the node at a position below. -/
def at? : Position → Json → Option Json
  | [], j => some j
  | index :: below, j => (children j)[index]? >>= at? below

/-- The members that a node may do without are of the right sort where it has them. -/
structure Fitting (j : Json) : Prop where
  id : ∀ value, j.get? "id" = some value → ∃ s, value = .str s
  width : ∀ value, j.get? "width" = some value → ∃ n, value = .num n
  height : ∀ value, j.get? "height" = some value → ∃ n, value = .num n
  properties : ∀ value, j.get? "properties" = some value → ∃ members, value = .obj members

/-- What is there to build a node from. -/
structure Sound (members : Dict Json) : Prop where
  name : ∃ s, members.get? "name" = some (.str s)
  x : ∃ n, members.get? "x" = some (.num n)
  y : ∃ n, members.get? "y" = some (.num n)
  children : ∀ value, members.get? "children" = some value → ∃ items, value = .arr items
  kind : ∃ kind : Kind, members.get? "type" = some (.str kind.tag) ∧
    (kind.isLeaf = true → Candidate.children (.obj members) = [])

/-! ## Data without findings -/

theorem exists_num_of_axisFlaws {axis : String} (h : axisFlaws members axis = []) :
    ∃ n, members.get? axis = some (.num n) := by
  unfold axisFlaws at h
  split at h
  · next value hget =>
    cases value with
    | num n => exact ⟨n, hget⟩
    | _ => cases h
  · cases h

theorem exists_str_of_name (h : Text.isAllBlank (name members) = false) :
    ∃ s, members.get? "name" = some (.str s) := by
  unfold name at h
  cases hget : members.get? "name" with
  | none =>
    rw [hget] at h
    cases h
  | some value =>
    rw [hget] at h
    cases value with
    | str s => exact ⟨s, rfl⟩
    | _ => cases h

theorem arr_of_childrenFlaws (h : childrenFlaws members = []) (value : Json)
    (hvalue : members.get? "children" = some value) : ∃ items, value = .arr items := by
  unfold childrenFlaws at h
  rw [hvalue] at h
  cases value with
  | arr items => exact ⟨items, rfl⟩
  | _ => cases h

theorem exists_kind_of_kindFlaws {count : Nat} (h : kindFlaws members count = []) :
    ∃ kind : Kind, members.get? "type" = some (.str kind.tag) ∧
      countFlaws kind (name members) count = [] := by
  unfold kindFlaws at h
  split at h
  · cases h
  · next tag htag =>
    split at h
    · cases h
    · next kind hkind =>
      obtain ⟨value, hvalue, hstr⟩ := Option.bind_eq_some_iff.1 htag
      refine ⟨kind, ?_, h⟩
      rw [Kind.ofTag?_eq_some_iff.1 hkind]
      cases value with
      | str s =>
        cases hstr
        exact hvalue
      | _ => cases hstr

theorem count_eq_zero_of_countFlaws {kind : Kind} {text : String} {count : Nat}
    (hleaf : kind.isLeaf = true) (h : countFlaws kind text count = []) : count = 0 := by
  have hcategory : kind.category = .leaf := of_decide_eq_true hleaf
  unfold countFlaws at h
  simp only [hcategory] at h
  split at h
  · cases h
  · next hcount => exact Nat.eq_zero_of_not_pos hcount

theorem flaws_eq_nil (h : flaws (.obj members) = []) : Sound members := by
  unfold flaws at h
  simp only [List.append_eq_nil_iff] at h
  obtain ⟨⟨⟨⟨hname, hx⟩, hy⟩, hchildren⟩, hkind⟩ := h
  have hnamed : Text.isAllBlank (name members) = false := by
    cases hblank : Text.isAllBlank (name members) with
    | false => rfl
    | true =>
      rw [hblank] at hname
      cases hname
  refine ⟨exists_str_of_name hnamed, exists_num_of_axisFlaws hx, exists_num_of_axisFlaws hy,
    arr_of_childrenFlaws hchildren, ?_⟩
  obtain ⟨kind, htag, hcount⟩ := exists_kind_of_kindFlaws hkind
  refine ⟨kind, htag, fun hleaf => ?_⟩
  exact List.length_eq_zero_iff.1 (count_eq_zero_of_countFlaws hleaf hcount)

theorem findingsAt_eq_nil (h : (findingsAt p seen j).1 = []) :
    ∃ members, j = .obj members ∧ Sound members ∧ (idFlaws seen j).1 = [] ∧
      (findingsOfItems p 0 (idFlaws seen j).2 (children j)).1 = [] ∧
      (findingsAt p seen j).2 = (findingsOfItems p 0 (idFlaws seen j).2 (children j)).2 := by
  cases j with
  | obj members =>
    rw [findingsAt_obj] at h ⊢
    obtain ⟨hown, hbelow⟩ := List.append_eq_nil_iff.1 h
    obtain ⟨hid, hflaws⟩ := List.append_eq_nil_iff.1 (List.map_eq_nil_iff.1 hown)
    exact ⟨members, rfl, flaws_eq_nil hflaws, hid, hbelow, rfl⟩
  | _ => cases h

theorem findingsOfItems_eq_nil {index : Nat} {items : List Json}
    (h : (findingsOfItems p index seen items).1 = []) :
    ∀ item ∈ items, ∃ p seen, (findingsAt p seen item).1 = [] := by
  induction items generalizing index seen with
  | nil => exact fun item hitem => absurd hitem List.not_mem_nil
  | cons item items ih =>
    rw [Paced.findingsOfItems_cons] at h
    obtain ⟨hitem, hitems⟩ := List.append_eq_nil_iff.1 h
    exact List.forall_mem_cons.2 ⟨⟨_, _, hitem⟩, ih hitems⟩

/-! ## Which of it are records -/

theorem sizeOf_lt_of_get? {lo : Option String} {members : Dict.From Json lo} {name : String}
    (h : members.get? name = some j) : sizeOf j < sizeOf members := by
  induction members with
  | nil => cases h
  | cons key above value rest ih =>
    rw [Dict.From.get?_cons] at h
    split at h
    · cases h
      simp only [Dict.From.cons.sizeOf_spec]
      omega
    · have := ih h
      simp only [Dict.From.cons.sizeOf_spec]
      omega

theorem sizeOf_lt_of_mem_children {c : Json} (h : c ∈ children j) : sizeOf c < sizeOf j := by
  unfold children at h
  split at h
  · next items hget =>
    cases j with
    | obj members =>
      have hlist := sizeOf_lt_of_get? (show members.get? "children" = some (.arr items) from hget)
      have hitem := List.sizeOf_lt_of_mem h
      simp only [Json.arr.sizeOf_spec, Json.obj.sizeOf_spec] at hlist ⊢
      omega
    | _ => cases hget
  · cases h

/-- What passes from the children of data to the data holds of all data. -/
theorem ofChildren {P : Json → Prop} (h : ∀ j, (∀ c ∈ children j, P c) → P j) (j : Json) : P j := by
  induction hn : sizeOf j using Nat.strongRecOn generalizing j with
  | ind n ih =>
    subst hn
    exact h j fun c hc => ih _ (sizeOf_lt_of_mem_children hc) c rfl

theorem forall_at?_iff {P : Json → Prop} : (∀ q c, at? q j = some c → P c) ↔
    P j ∧ ∀ d ∈ children j, ∀ q c, at? q d = some c → P c := by
  constructor
  · intro h
    refine ⟨h [] j rfl, fun d hd q c hc => ?_⟩
    obtain ⟨i, hi⟩ := List.mem_iff_getElem?.1 hd
    refine h (i :: q) c ?_
    rw [at?, hi]
    exact hc
  · rintro ⟨hj, hbelow⟩ q c hc
    cases q with
    | nil =>
      cases hc
      exact hj
    | cons i q =>
      obtain ⟨d, hd, hc⟩ := Option.bind_eq_some_iff.1 hc
      exact hbelow d (List.mem_of_getElem? hd) q c hc

open Record (Told Reads)

theorem told_get {name : String} {before : Option Record.Content} {c : Record.Content}
    (hj : members.get? name = some j) (hc : Reads j c) :
    Told (members.get? name) before (some c) := by
  rw [hj]
  exact Record.told_some.2 hc

/-- What an object is told to have for its children is what they are read as. -/
theorem told_below_iff (h : Sound members) {rs : List Record} :
    Told (members.get? "children") (some (.below [])) (some (.below rs)) ↔
      List.Forall₂ (fun j r => Record.ofJson j = .ok r) (children (.obj members)) rs := by
  unfold children Json.get?
  dsimp only
  cases hget : members.get? "children" with
  | none => simp [Told, eq_comm]
  | some value =>
    obtain ⟨items, rfl⟩ := h.children value hget
    simp [Record.told_some, Record.reads_below_iff]

/-- Sound data is a record if its members are of the right sort and its children are records. -/
theorem exists_ofJson_iff_of_sound (h : Sound members) :
    (∃ r, Record.ofJson (.obj members) = .ok r) ↔
      Fitting (.obj members) ∧ ∀ c ∈ children (.obj members), ∃ r, Record.ofJson c = .ok r := by
  constructor
  · rintro ⟨⟨e, rs⟩, hr⟩
    have htold := Record.ofJson_obj_eq_ok_iff.1 hr
    have hrs := (told_below_iff h).1 (htold .children)
    refine ⟨?_, exists_forall₂_iff.1 ⟨rs, hrs⟩⟩
    exact {
      id := Record.exists_told_text_iff.1 ⟨_, htold .id⟩
      width := Record.exists_told_number_iff.1 ⟨_, htold .width⟩
      height := Record.exists_told_number_iff.1 ⟨_, htold .height⟩
      properties := Record.exists_told_bag_iff.1 ⟨_, htold .properties⟩ }
  · rintro ⟨hfit, hchildren⟩
    obtain ⟨id, hid⟩ := Record.exists_told_text_iff.2 hfit.id
    obtain ⟨width, hwidth⟩ := Record.exists_told_number_iff.2 hfit.width
    obtain ⟨height, hheight⟩ := Record.exists_told_number_iff.2 hfit.height
    obtain ⟨properties, hproperties⟩ := Record.exists_told_bag_iff.2 hfit.properties
    obtain ⟨rs, hrs⟩ := exists_forall₂_iff.2 hchildren
    obtain ⟨name, hname⟩ := h.name
    obtain ⟨x, hx⟩ := h.x
    obtain ⟨y, hy⟩ := h.y
    obtain ⟨kind, htag, -⟩ := h.kind
    refine ⟨.node ⟨id, kind.tag, name, ⟨x.toFloat, y.toFloat, width, height⟩, properties⟩ rs,
      Record.ofJson_obj_eq_ok_iff.2 ?_⟩
    rintro (_ | _)
    · exact hid
    · exact told_get htag (.text _)
    · exact told_get hname (.text _)
    · exact told_get hx (.number _)
    · exact told_get hy (.number _)
    · exact hwidth
    · exact hheight
    · exact hproperties
    · exact (told_below_iff h).2 hrs

theorem exists_ofJson_iff (h : (findingsAt p seen j).1 = []) :
    (∃ r, Record.ofJson j = .ok r) ↔ ∀ q c, at? q j = some c → Fitting c := by
  induction j using ofChildren generalizing p seen with
  | h j ih =>
    obtain ⟨members, rfl, hsound, -, hbelow, -⟩ := findingsAt_eq_nil h
    rw [exists_ofJson_iff_of_sound hsound, forall_at?_iff]
    refine and_congr Iff.rfl (forall₂_congr fun c hc => ?_)
    obtain ⟨p, seen, hc'⟩ := findingsOfItems_eq_nil hbelow c hc
    exact ih c hc hc'

/-! ## Its ids -/

theorem id?_obj {id : String} (h : Told (members.get? "id") (some (.text "")) (some (.text id))) :
    id? (.obj members) = if id.isEmpty then none else some id := by
  unfold id? Json.get?
  dsimp only
  cases hget : members.get? "id" with
  | none =>
    rw [hget] at h
    cases h
    rfl
  | some value =>
    rw [hget, Record.told_some, Record.reads_text_iff] at h
    rw [h]
    rfl

/-- Without findings, a given id is a new one and is seen from then on. -/
theorem seen_idFlaws {id : String}
    (h : Told (members.get? "id") (some (.text "")) (some (.text id)))
    (hnil : (idFlaws seen (.obj members)).1 = []) :
    (id ≠ "" → id ∉ seen) ∧
      ∀ other, other ∈ seen ∨ (other = id ∧ id ≠ "") → other ∈ (idFlaws seen (.obj members)).2 := by
  rw [idFlaws_eq (id?_obj h)] at hnil ⊢
  cases hempty : id.isEmpty with
  | true =>
    have hid := String.isEmpty_iff.1 hempty
    refine ⟨fun hne => absurd hid hne, ?_⟩
    rintro other (hother | ⟨-, hne⟩)
    · exact hother
    · exact absurd hid hne
  | false =>
    rw [hempty, if_neg Bool.false_ne_true] at hnil
    rw [if_neg Bool.false_ne_true]
    split at hnil
    · cases hnil
    · next hunseen =>
      rw [if_neg hunseen]
      refine ⟨fun _ hseen => hunseen (List.contains_iff_mem.2 hseen), ?_⟩
      rintro other (hother | ⟨rfl, -⟩)
      · exact List.mem_cons_of_mem _ hother
      · exact List.mem_cons_self

end Candidate

/-! ## What its load fails with -/

/-- The error is about what a tree is made up of, not about what a behavior is built from. -/
def LoadError.OfShape : LoadError → Prop
  | .build _ (.unknownKind _) => True
  | .duplicateId _ _ => True
  | .refused _ _ _ _ => True
  | _ => False

namespace Record

open Candidate (findingsAt findingsOfItems)

variable {H : Host} {catalog : Catalog H} {p q : Position} {seen ids : List String} {e : Entry}
  {rs : List Record}

/-- Where nothing is found in the data of a record, all its ids are seen, and none of its faults is of
its shape. -/
def Shapely (catalog : Catalog H) (r : Record) : Prop :=
  ∀ {j : Json} {p q : Position} {seen ids : List String}, ofJson j = .ok r →
    (findingsAt p seen j).1 = [] → (∀ id ∈ ids, id ≠ "" → id ∈ seen) →
    (∀ id ∈ ids ++ r.entryIds, id ≠ "" → id ∈ (findingsAt p seen j).2) ∧
      ∀ err ∈ r.faultsAt catalog q ids, ¬err.OfShape

theorem shapely_entry (hc : catalog.builders = []) {kind : Kind}
    (hkind : Kind.ofTag? e.tag = some kind) (hid : e.id ≠ "" → e.id ∉ ids) :
    ∀ err ∈ e.faults catalog q ids, ¬err.OfShape := by
  intro err herr
  cases fault_iff.2 (.inl herr : err ∈ e.faults catalog q ids ∨ ([] : List Record) ≠ [] ∧ _) with
  | unknownTag hnone =>
    rw [hkind] at hnone
    cases hnone
  | @rejected _ b _ hb =>
    have hne := Catalog.ne_unknownKind_of_build hc hb
    intro hshape
    cases b with
    | unknownKind tag => exact hne tag rfl
    | _ => exact hshape
  | duplicateId hne hmem => exact absurd hmem (hid hne)
  | refused _ _ hrs => exact absurd rfl hrs

theorem shapely_below (hrs : ∀ r ∈ rs, Shapely catalog r) {items : List Json}
    (hread : List.Forall₂ (fun j r => ofJson j = .ok r) items rs) {index place : Nat}
    (h : (findingsOfItems p index seen items).1 = []) (hids : ∀ id ∈ ids, id ≠ "" → id ∈ seen) :
    (∀ id ∈ ids ++ rs.flatMap entryIds, id ≠ "" → id ∈ (findingsOfItems p index seen items).2) ∧
      ∀ err ∈ faultsBelow catalog q place [] ids rs, ¬err.OfShape := by
  induction hread generalizing index place seen ids with
  | nil =>
    rw [List.flatMap_nil, List.append_nil]
    exact ⟨hids, fun err herr => absurd herr List.not_mem_nil⟩
  | @cons item r items rs hr _ ih =>
    obtain ⟨hfirst, hrest⟩ := List.forall_mem_cons.1 hrs
    rw [Paced.findingsOfItems_cons] at h ⊢
    obtain ⟨hitem, hitems⟩ := List.append_eq_nil_iff.1 h
    obtain ⟨hseen, hfaults⟩ := hfirst hr hitem hids
    obtain ⟨hseen', hbelow⟩ := ih hrest hitems hseen
    rw [List.flatMap_cons, ← List.append_assoc, faultsBelow, List.nil_append]
    exact ⟨hseen', List.forall_mem_append.2 ⟨hfaults, hbelow⟩⟩

/-- A leaf without children refuses none. -/
theorem faultsBelow_refusal {kind : Kind} (hkind : Kind.ofTag? e.tag = some kind)
    (hleaf : kind.isLeaf = true → rs = []) :
    faultsBelow catalog q 0 (e.refusal q) ids rs = faultsBelow catalog q 0 [] ids rs := by
  unfold Entry.refusal
  rw [hkind]
  dsimp only
  split
  · next hkindleaf =>
    rw [hleaf hkindleaf]
    rfl
  · rfl

theorem shapely (hc : catalog.builders = []) (r : Record) : Shapely catalog r := by
  induction r using Rose.ofChildren with
  | h e rs ih =>
    intro j p q seen ids hr h hids
    obtain ⟨members, rfl, hsound, hid, hbelow, hseen⟩ := Candidate.findingsAt_eq_nil h
    have htold := ofJson_obj_eq_ok_iff.1 hr
    have hread := (Candidate.told_below_iff hsound).1 (htold .children)
    obtain ⟨kind, htag, hleaf⟩ := hsound.kind
    obtain ⟨hnew, hkept⟩ := Candidate.seen_idFlaws (htold .id) hid
    have hkind : Kind.ofTag? e.tag = some kind := by
      have htype := htold .tag
      rw [show members.get? Field.tag.text = some (.str kind.tag) from htag, told_some,
        content, reads_text_iff] at htype
      rw [← Json.str.inj htype]
      exact Kind.ofTag?_tag kind
    have hchildless : kind.isLeaf = true → rs = [] := by
      intro hkindleaf
      rwa [hleaf hkindleaf, List.forall₂_nil_left_iff] at hread
    have hgiven : ∀ id ∈ ids ++ [e.id], id ≠ "" →
        id ∈ (Candidate.idFlaws seen (.obj members)).2 := by
      intro id hmem hne
      rcases List.mem_append.1 hmem with hmem | hmem
      · exact hkept id (.inl (hids id hmem hne))
      · obtain rfl := List.mem_singleton.1 hmem
        exact hkept _ (.inr ⟨rfl, hne⟩)
    obtain ⟨hseen', hfaults⟩ := shapely_below ih hread hbelow hgiven
    rw [hseen, entryIds_node, List.append_cons, faultsAt,
      faultsBelow_refusal hkind hchildless]
    refine ⟨hseen', List.forall_mem_append.2 ⟨shapely_entry hc hkind fun hne hmem => ?_, hfaults⟩⟩
    exact hnew hne (hids _ hmem hne)

/-- A load of a record without findings fails only for what is at its top, or with a fault in what some
behavior is to be built from. -/
theorem load_eq_error (hc : catalog.builders = []) {next : Nat} {r : Record} {j : Json}
    {err : LoadError} (hread : ofJson j = .ok r) (hnil : Candidate.findings j = [])
    (hfresh : r.Unlike next) (h : RootedTree.load catalog next r = .error err) :
    (err = .missingRoot r.value.tag ∧ Kind.ofTag? r.value.tag ≠ some .root) ∨
      ∃ q e rs kind b, err = .build (some q) b ∧ r.at? q = some (.node e rs) ∧
        Kind.ofTag? e.tag = some kind ∧ catalog.build kind e.properties = .error b := by
  refine (RootedTree.load_eq_error h).imp_right fun hload => ?_
  have hmem := List.mem_of_head? ((load_eq_error_iff hc hfresh).1 hload)
  have hshape := (shapely hc r hread hnil fun id hid => absurd hid List.not_mem_nil).2 err hmem
  obtain ⟨q, e, rs, hq, hfault⟩ := mem_faults_iff.1 hmem
  cases hfault with
  | unknownTag _ => exact absurd trivial hshape
  | rejected hkind hb => exact ⟨q, e, rs, _, _, rfl, hq, hkind, hb⟩
  | duplicateId _ _ => exact absurd trivial hshape
  | refused _ _ _ => exact absurd trivial hshape

end Record

namespace Candidate

/-- Data in which nothing is found is a record just where, at every node, the id is a string, the width
and the height are numbers and the properties are an object, as far as they are there. Where the host
puts no behaviors of its own in the place of the usual ones, a load of that record fails only if its
top is no root, or some node of it is of a reserved kind or has properties, a script or a path that it
cannot be built from. -/
theorem decodes {j : Json} (h : findings j = []) :
    ((∃ r, Record.ofJson j = .ok r) ↔ ∀ p node, at? p j = some node → Fitting node) ∧
    ∀ r, Record.ofJson j = .ok r → ∀ {H : Host} (catalog : Catalog H) (next : Nat),
      catalog.builders = [] → (∀ e ∈ r.preorder, ∀ k, next ≤ k → e.id ≠ freshId k) →
      ∀ err, RootedTree.load catalog next r = .error err →
        (err = .missingRoot r.value.tag ∧ r.value.tag ≠ Kind.root.tag) ∨
        ∃ p e rs kind b, err = .build (some p) b ∧ r.at? p = some (.node e rs) ∧
          kind.tag = e.tag ∧ catalog.build kind e.properties = .error b ∧
          ((kind.isReserved = true ∧ b = .reserved e.tag) ∨ (∃ m, b = .badProperties e.tag m) ∨
            (∃ name, b = .unknownScript name) ∨ ∃ m, b = .badPath m) := by
  refine ⟨exists_ofJson_iff h, fun r hr H catalog next hc hfresh err herr => ?_⟩
  rcases Record.load_eq_error hc hr h hfresh herr with
    ⟨rfl, htop⟩ | ⟨p, e, rs, kind, b, rfl, hp, hkind, hb⟩
  · refine .inl ⟨rfl, fun htag => htop ?_⟩
    rw [htag]
    exact Kind.ofTag?_tag .root
  · have htag := Kind.ofTag?_eq_some_iff.1 hkind
    refine .inr ⟨p, e, rs, kind, b, rfl, hp, htag, hb, ?_⟩
    rw [← htag]
    exact Catalog.build_eq_error hc hb

section Numbered

/-- A root with a number for its id. -/
def numbered : Json :=
  .ofMembers [("id", .ofInt 5), ("type", .str "Root"), ("name", .str "Top"), ("x", .ofInt 0),
    ("y", .ofInt 0)]

/-- Nothing is found in it, for a number is no id that could be there twice, but it is not a record. -/
theorem numbered_refused : findings numbered = [] ∧
    Record.ofJson numbered = .error (.mismatch (.wrongType (.ofJson (.ofInt 5)) "a string")) :=
  ⟨by decide, rfl⟩

end Numbered

section Retrying

/-- A root over a retry, which have no ids, sizes or properties. -/
def retrying : Json :=
  .ofMembers [("type", .str "Root"), ("name", .str "Top"), ("x", .ofInt 0), ("y", .ofInt 0),
    ("children", .arr [.ofMembers
      [("type", .str "Retry"), ("name", .str "Again"), ("x", .ofInt 0), ("y", .ofInt 0)]])]

def retryingRecord : Record :=
  .node ⟨"", "Root", "Top", ⟨.ofInt 0, .ofInt 0, 150, 60⟩, .nil⟩
    [.node ⟨"", "Retry", "Again", ⟨.ofInt 0, .ofInt 0, 150, 60⟩, .nil⟩ []]

/-- It is a record, which is not loaded as its second node is of a reserved kind. -/
theorem decodes_retrying :
    findings retrying = [] ∧ Record.ofJson retrying = .ok retryingRecord ∧
      (∀ p node, at? p retrying = some node → Fitting node) ∧
      RootedTree.load (H := Rehearsal.host) {} 3 retryingRecord =
        .error (.build (some [0]) (.reserved "Retry")) ∧
      ∃ kind : Kind, kind.tag = "Retry" ∧ kind.isReserved = true := by
  have hnil : findings retrying = [] := by decide
  have hread : Record.ofJson retrying = .ok retryingRecord := rfl
  have hload : RootedTree.load (H := Rehearsal.host) {} 3 retryingRecord =
      .error (.build (some [0]) (.reserved "Retry")) := rfl
  have hfresh : ∀ e ∈ retryingRecord.preorder, ∀ k, 3 ≤ k → e.id ≠ freshId k := by
    intro e he k _
    apply ne_freshId_of_length_lt
    have hids : e.id ∈ ["", ""] := List.mem_map_of_mem he
    simp only [List.mem_cons, List.not_mem_nil, or_self, or_false] at hids
    rw [hids]
    decide
  obtain ⟨hfits, hfails⟩ := decodes hnil
  refine ⟨hnil, hread, hfits.1 ⟨_, hread⟩, hload, ?_⟩
  rcases hfails _ hread {} 3 rfl hfresh _ hload with ⟨h, -⟩ | ⟨p, e, rs, kind, b, h, hp, htag, -, hb⟩
  · cases h
  · cases h
    cases hp
    rcases hb with ⟨hreserved, -⟩ | ⟨m, h⟩ | ⟨name, h⟩ | ⟨m, h⟩
    · exact ⟨kind, htag, hreserved⟩
    · cases h
    · cases h
    · cases h

end Retrying

end Candidate

end Conduct
