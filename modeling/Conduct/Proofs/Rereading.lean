import Conduct.Proofs.Everywhere
import Conduct.Proofs.Reading
import Conduct.Proofs.Rereading.Outline

/-! Records that are read back from their JSON texts.

The text of a record is read just if its layouts are finite, it does not open more lists and objects
at once than the reader allows and no number in it is too large for the reader; otherwise it is
refused. What is read is the record but for the floats: their digits are read in float arithmetic,
which loses the last one at times, so that they are read back is asked of a record that is to come
back itself. Main statements: `Draft.value_atMost`, `ofDraft_outline` and `jsonText_rereads`.
-/

set_option autoImplicit false

namespace Conduct

namespace Json

/-! ## Nesting -/

namespace Outline

mutual

/-- The largest number of lists and objects that are open at once in the text. -/
def nesting : Outline → Nat
  | .list items => nestingOfItems items + 1
  | .fields members => nestingOfMembers members + 1
  | _ => 0
termination_by structural o => o

def nestingOfItems : List Outline → Nat
  | [] => 0
  | item :: items => max item.nesting (nestingOfItems items)
termination_by structural items => items

def nestingOfMembers : List (String × Outline) → Nat
  | [] => 0
  | (_, value) :: members => max value.nesting (nestingOfMembers members)
termination_by structural members => members

end

end Outline

end Json

/-! ## What comes of numbers -/

namespace Number

/-- What comes of a number by its text; one whose text is too large to be read stays. -/
def reread (n : Number) : Number := n.reread?.getD n

/-- The text of the number is not too large to be read. -/
def Legible (n : Number) : Prop := n.reread?.isSome = true

theorem Rereads.reread_eq {n : Number} (h : n.Rereads) : n.reread = n := by
  rw [reread, show n.reread? = some n from h]
  rfl

theorem Rereads.legible {n : Number} (h : n.Rereads) : n.Legible := by
  rw [Legible, show n.reread? = some n from h]
  rfl

theorem yields_held (n : Number) : Yields (Json.Draft.held n.reread?) n.Legible n.reread := by
  unfold Legible reread
  cases n.reread? with
  | some m => exact (Yields.ok m).congr (by simp)
  | none => exact (Yields.error _ n).congr (by simp)

end Number

namespace Json

mutual

/-- The value with all its numbers as they come of their texts. -/
def reread : Json → Json
  | .null => .null
  | .bool b => .bool b
  | .num n => .num n.reread
  | .str s => .str s
  | .arr items => .arr (rereadItems items)
  | .obj members => .obj (rereadMembers members)
termination_by structural j => j

def rereadItems : List Json → List Json
  | [] => []
  | item :: items => item.reread :: rereadItems items
termination_by structural items => items

def rereadMembers : {lo : Option String} → Dict.From Json lo → Dict.From Json lo
  | _, .nil => .nil
  | _, .cons name above value rest => .cons name above value.reread (rereadMembers rest)
termination_by structural _ members => members

end

mutual

theorem reread_eq_self : (j : Json) → (∀ n ∈ j.outline.numbers, n.Rereads) → j.reread = j
  | .null, _ => rfl
  | .bool _, _ => rfl
  | .num n, h => by rw [reread, (h n (List.mem_singleton_self n)).reread_eq]
  | .str _, _ => rfl
  | .arr items, h => by rw [reread, rereadItems_eq_self items h]
  | .obj members, h => by rw [reread, rereadMembers_eq_self members h]

theorem rereadItems_eq_self : (items : List Json) →
    (∀ n ∈ Outline.numbersOfItems (outlineItems items), n.Rereads) → rereadItems items = items
  | [], _ => rfl
  | item :: items, h => by
    rw [outlineItems, Outline.numbersOfItems, List.forall_mem_append] at h
    rw [rereadItems, reread_eq_self item h.1, rereadItems_eq_self items h.2]

theorem rereadMembers_eq_self {lo : Option String} : (members : Dict.From Json lo) →
    (∀ n ∈ Outline.numbersOfMembers (outlineMembers members), n.Rereads) →
      rereadMembers members = members
  | .nil, _ => rfl
  | .cons name _ value rest, h => by
    rw [outlineMembers, Outline.numbersOfMembers, List.forall_mem_append] at h
    rw [rereadMembers, reread_eq_self value h.1, rereadMembers_eq_self rest h.2]

end

/-! ## Values at a depth -/

/-- The text can be read: it nests at most so deep and no number in it is too large. -/
structure Outline.Readable (o : Outline) (d : Nat) : Prop where
  nesting : o.nesting ≤ d
  legible : ∀ n ∈ o.numbers, n.Legible

namespace Outline

variable {o : Outline} {d : Nat}

theorem readable_iff : o.Readable d ↔ o.nesting ≤ d ∧ ∀ n ∈ o.numbers, n.Legible :=
  ⟨fun h => ⟨h.nesting, h.legible⟩, fun h => ⟨h.1, h.2⟩⟩

theorem nestingOfItems_le {items : List Outline} :
    nestingOfItems items ≤ d ↔ ∀ item ∈ items, item.nesting ≤ d := by
  induction items with
  | nil => simp [nestingOfItems]
  | cons item items ih => rw [nestingOfItems, Nat.max_le, ih, List.forall_mem_cons]

theorem nestingOfMembers_le {members : List (String × Outline)} :
    nestingOfMembers members ≤ d ↔ ∀ member ∈ members, member.2.nesting ≤ d := by
  induction members with
  | nil => simp [nestingOfMembers]
  | cons member members ih => rw [nestingOfMembers, Nat.max_le, ih, List.forall_mem_cons]

theorem readable_list {items : List Outline} : (list items).Readable d ↔
    0 < d ∧ ∀ item ∈ items, item.Readable (d - 1) := by
  constructor
  · intro h
    have hnesting : nestingOfItems items + 1 ≤ d := h.nesting
    exact ⟨by omega, fun item hitem =>
      ⟨nestingOfItems_le.1 (Nat.le_sub_of_add_le hnesting) item hitem,
        fun n hn => h.legible n (mem_numbersOfItems.2 ⟨item, hitem, hn⟩)⟩⟩
  · rintro ⟨hd, h⟩
    have hnesting := nestingOfItems_le.2 fun item hitem => (h item hitem).nesting
    refine ⟨Nat.add_le_of_le_sub hd hnesting, fun n hn => ?_⟩
    obtain ⟨item, hitem, hn⟩ := mem_numbersOfItems.1 hn
    exact (h item hitem).legible n hn

theorem readable_fields {members : List (String × Outline)} : (fields members).Readable d ↔
    0 < d ∧ ∀ member ∈ members, member.2.Readable (d - 1) := by
  constructor
  · intro h
    have hnesting : nestingOfMembers members + 1 ≤ d := h.nesting
    exact ⟨by omega, fun member hmember =>
      ⟨nestingOfMembers_le.1 (Nat.le_sub_of_add_le hnesting) member hmember,
        fun n hn => h.legible n (mem_numbersOfMembers.2 ⟨member, hmember, hn⟩)⟩⟩
  · rintro ⟨hd, h⟩
    have hnesting := nestingOfMembers_le.2 fun member hmember => (h member hmember).nesting
    refine ⟨Nat.add_le_of_le_sub hd hnesting, fun n hn => ?_⟩
    obtain ⟨member, hmember, hn⟩ := mem_numbersOfMembers.1 hn
    exact (h member hmember).legible n hn

theorem readable_of_plain (hnesting : o.nesting = 0) (hnumbers : o.numbers = []) :
    o.Readable d where
  nesting := hnesting ▸ Nat.zero_le d
  legible := hnumbers ▸ List.forall_mem_nil _

end Outline

theorem enter_atMost (d : Nat) : Yields (Depth.atMost d).enter (0 < d) (.atMost (d - 1)) := by
  cases d with
  | zero => exact (Yields.error _ _).congr (by simp)
  | succ d => exact (Yields.ok _).congr (by simp)

theorem foldl_insert_nil (members : Dict Json) :
    members.toList.foldl (fun d e => d.insert e.1 e.2) .nil = members :=
  Dict.ofList_toList members

namespace Draft

mutual

/-- A value is read from its own text just if that can be read, and its numbers are read as their
own texts are. -/
theorem value_atMost (d : Nat) :
    (j : Json) → Yields (j.outline.draft.value (.atMost d)) (j.outline.Readable d) j.reread
  | .null => (Yields.ok _).congr (iff_of_true trivial (Outline.readable_of_plain rfl rfl))
  | .bool _ => (Yields.ok _).congr (iff_of_true trivial (Outline.readable_of_plain rfl rfl))
  | .num n => (n.yields_held.map _).congr (by simp [outline, Outline.readable_iff,
    Outline.nesting, Outline.numbers])
  | .str _ => (Yields.ok _).congr (iff_of_true trivial (Outline.readable_of_plain rfl rfl))
  | .arr items => by
    rw [outline, Outline.draft, value]
    refine Yields.congr (Yields.bind (enter_atMost d) (Yields.bind (values_atMost (d - 1) items)
      (Yields.bind (Yields.ok ()) (Yields.ok _)))) ?_
    rw [and_true, and_true, Outline.readable_list]
  | .obj members => by
    rw [outline, Outline.draft, value]
    have hmembers := valuesByName_atMost (d - 1) .nil members
    rw [foldl_insert_nil] at hmembers
    refine Yields.congr (Yields.bind (enter_atMost d) (Yields.bind hmembers
      (Yields.bind (Yields.ok ()) (Yields.ok _)))) ?_
    rw [and_true, and_true, Outline.readable_fields]

theorem values_atMost (d : Nat) : (items : List Json) →
    Yields (values (.atMost d) (Outline.drafts (outlineItems items)))
      (∀ item ∈ outlineItems items, item.Readable d) (rereadItems items)
  | [] => (Yields.ok _).congr (by simp [outlineItems])
  | item :: items => by
    rw [outlineItems, Outline.drafts, values]
    refine Yields.congr (Yields.bind (value_atMost d item) (Yields.bind (values_atMost d items)
      (Yields.ok _))) ?_
    rw [and_true, List.forall_mem_cons]

theorem valuesByName_atMost (d : Nat) (found : Dict Json) {lo : Option String} :
    (members : Dict.From Json lo) →
      Yields (valuesByName (.atMost d) found (Outline.draftsByName (outlineMembers members)))
        (∀ member ∈ outlineMembers members, member.2.Readable d)
        ((rereadMembers members).toList.foldl (fun d e => d.insert e.1 e.2) found)
  | .nil => (Yields.ok _).congr (by simp [outlineMembers])
  | .cons name _ value rest => by
    rw [outlineMembers, Outline.draftsByName, valuesByName]
    refine Yields.congr (Yields.bind (Yields.ok name) (Yields.bind (value_atMost d value)
      (valuesByName_atMost d (found.insert name value.reread) rest))) ?_
    rw [true_and, List.forall_mem_cons]

end

end Draft

end Json

structure Layout.Finite (l : Layout) : Prop where
  x : l.x.isFinite = true
  y : l.y.isFinite = true
  width : l.width.isFinite = true
  height : l.height.isFinite = true

/-- What comes of a float by its text, if it has one. -/
def Number.rereadFloat (f : Float) : Float :=
  if h : f.isFinite = true then (Number.float f h).reread.toFloat else f

def Layout.reread (l : Layout) : Layout :=
  ⟨Number.rereadFloat l.x, Number.rereadFloat l.y, Number.rereadFloat l.width,
    Number.rereadFloat l.height⟩

def Entry.reread (e : Entry) : Entry :=
  { e with layout := e.layout.reread, properties := Json.rereadMembers e.properties }

namespace Record

open Json (Draft Outline ReadError)

/-! ## Records at a depth -/

/-- The largest number of lists and objects that are open at once in the text of a record. -/
def nesting (r : Record) : Nat := (outline r).nesting

/-- Every layout of the record is finite. -/
def Finite (r : Record) : Prop := r.Everywhere fun e _ => e.layout.Finite

theorem finite_node {e : Entry} {rs : List Record} :
    Finite (.node e rs) ↔ e.layout.Finite ∧ ∀ r ∈ rs, Finite r := Rose.everywhere_node

/-- The record with all its numbers as they come of their texts. -/
def reread (r : Record) : Record := r.map Entry.reread

theorem reread_node (e : Entry) (rs : List Record) :
    reread (.node e rs) = .node e.reread (rs.map reread) := Rose.map_node _ e rs

theorem yields_ofFault {α : Type} {x : Except Json.Fault α} {p : Prop} {a : α} (h : Yields x p a) :
    Yields (ReadError.ofFault x) p a := h.mapError ReadError.fault

theorem yields_readFloat (f : Float) (d : Nat) : Yields (readFloat (Outline.float f).draft)
    (f.isFinite = true ∧ (Outline.float f).Readable d) (Number.rereadFloat f) := by
  cases h : f.isFinite with
  | true =>
    have hreadable : (Outline.float f).Readable d ↔ (Number.float f h).Legible := by
      simp [Outline.readable_iff, Outline.nesting, Outline.numbers, Number.ofFloat?, h]
    rw [Outline.draft_float h, Number.rereadFloat, dif_pos h, hreadable, eq_self_iff_true, true_and,
      Number.Legible, Number.reread]
    cases (Number.float f h).reread? with
    | some n => exact (Yields.ok n.toFloat).congr (by simp)
    | none => exact (Yields.error _ _).congr (by simp)
  | false =>
    rw [Outline.draft_float_of_not_finite h]
    exact (Yields.error _ _).congr (by simp)

theorem yields_readProperties (d : Nat) (properties : Properties) :
    Yields (readProperties (.atMost d) (Json.obj properties).outline.draft)
      ((Json.obj properties).outline.Readable d) (Json.rereadMembers properties) := by
  have hmembers := Draft.valuesByName_atMost (d - 1) .nil properties
  rw [Json.foldl_insert_nil] at hmembers
  rw [Json.outline, Outline.draft, readProperties]
  refine Yields.congr (Yields.bind (yields_ofFault (Json.enter_atMost d))
    (Yields.bind (yields_ofFault hmembers) (Yields.bind (yields_ofFault (Yields.ok ()))
      (Yields.ok _)))) ?_
  rw [and_true, and_true, Outline.readable_fields]

/-- Reading the one field and then the others. -/
theorem yields_readMembers {d : Nat} {p q r : Partial} (f : Field) (draft : Draft)
    {members : List (Option String × Draft)} {P Q : Prop} (hnew : p.has f = false)
    (hf : f ≠ .children) (hfield : Yields (p.read (.atMost d) f draft) P q)
    (hmembers : Yields (readMembers (.atMost d) q members) Q r) :
    Yields (readMembers (.atMost d) p ((some f.text, draft) :: members)) (P ∧ Q) r := by
  rw [readMembers_text hnew, if_neg hf]
  exact hfield.bind hmembers

/-- The record can be read to the depth from its text. -/
def Readable (r : Record) (d : Nat) : Prop := Finite r ∧ (outline r).Readable d

theorem yields_readAll {d : Nat} {rs : List Record}
    (h : ∀ r ∈ rs, Yields (ofDraft (.atMost d) (outline r).draft) (Readable r d) (reread r)) :
    Yields (readAll (.atMost d) (Outline.drafts (outlines rs)))
      ((∀ r ∈ rs, Finite r) ∧ ∀ o ∈ outlines rs, o.Readable d) (rs.map reread) := by
  induction rs with
  | nil => exact (Yields.ok []).congr (by simp [outlines])
  | cons r rs ih =>
    rw [outlines, Outline.drafts, readAll]
    refine Yields.congr (Yields.bind (h r List.mem_cons_self) (Yields.bind
      (ih fun r hr => h r (List.mem_cons_of_mem _ hr)) (Yields.ok _))) ?_
    rw [List.forall_mem_cons, List.forall_mem_cons, and_true, Readable]
    exact and_and_and_comm

theorem yields_readChildren {d : Nat} {rs : List Record}
    (h : ∀ r ∈ rs, ∀ d, Yields (ofDraft (.atMost d) (outline r).draft) (Readable r d) (reread r)) :
    Yields (readChildren (.atMost d) (Outline.list (outlines rs)).draft)
      ((∀ r ∈ rs, Finite r) ∧ (Outline.list (outlines rs)).Readable d) (rs.map reread) := by
  rw [Outline.draft, readChildren]
  refine Yields.congr (Yields.bind (yields_ofFault (Json.enter_atMost d))
    (Yields.bind (yields_readAll fun r hr => h r hr (d - 1))
      (Yields.bind (yields_ofFault (Yields.ok ())) (Yields.ok _)))) ?_
  rw [and_true, and_true, Outline.readable_list]
  exact and_left_comm

/-- The fields of an entry without children, as they are read one after the other. -/
def Partial.ofEntry (e : Entry) : Partial where
  id := some e.id
  tag := some e.tag
  name := some e.name
  x := some e.layout.x
  y := some e.layout.y
  width := some e.layout.width
  height := some e.layout.height
  properties := some e.properties

/-- A record is read from the draft of its text just if that can be read, and its numbers are read as
their own texts are. -/
theorem ofDraft_outline (r : Record) : ∀ d,
    Yields (ofDraft (.atMost d) (outline r).draft) (Readable r d) (reread r) := by
  induction r using Rose.ofChildren with
  | h e rs ih =>
    intro d
    have hchildren : Yields (readMembers (.atMost (d - 1)) (.ofEntry e.reread)
        [(some Field.children.text, (Outline.list (outlines rs)).draft)])
        (((∀ r ∈ rs, Finite r) ∧ (Outline.list (outlines rs)).Readable (d - 1)) ∧ True)
        { Partial.ofEntry e.reread with children := some (rs.map reread) } := by
      rw [readMembers_text rfl, if_pos rfl]
      exact ((yields_readChildren ih).map _).bind (Yields.ok _)
    have hmembers := yields_readMembers (p := {}) (q := { id := some e.id }) (P := True)
        .id (.str (some e.id)) rfl (by decide) (Yields.ok _) <|
      yields_readMembers .tag (.str (some e.tag)) rfl (by decide) (Yields.ok _) <|
      yields_readMembers .name (.str (some e.name)) rfl (by decide) (Yields.ok _) <|
      yields_readMembers .x _ rfl (by decide) ((yields_readFloat e.layout.x (d - 1)).map _) <|
      yields_readMembers .y _ rfl (by decide) ((yields_readFloat e.layout.y (d - 1)).map _) <|
      yields_readMembers .width _ rfl (by decide)
        ((yields_readFloat e.layout.width (d - 1)).map _) <|
      yields_readMembers .height _ rfl (by decide)
        ((yields_readFloat e.layout.height (d - 1)).map _) <|
      yields_readMembers .properties _ rfl (by decide)
        ((yields_readProperties (d - 1) e.properties).map _) hchildren
    have hrecord : Yields (ofDraft (.atMost d) (outline (.node e rs)).draft) _
        (.node e.reread (rs.map reread)) :=
      Yields.bind (yields_ofFault (Json.enter_atMost d)) (Yields.bind hmembers
        (Yields.bind (yields_ofFault (Yields.ok ())) (Yields.ok _)))
    rw [reread_node]
    refine hrecord.congr ?_
    have hstr : ∀ s, (Outline.str s).Readable (d - 1) := fun _ =>
      Outline.readable_of_plain rfl rfl
    rw [Readable, finite_node, outline, Outline.readable_fields]
    simp only [List.forall_mem_cons]
    constructor
    · rintro ⟨hd, ⟨-, -, -, hx, hy, hwidth, hheight, hproperties, ⟨hfinite, hchildren⟩, -⟩, -⟩
      exact ⟨⟨⟨hx.1, hy.1, hwidth.1, hheight.1⟩, hfinite⟩, hd, hstr _, hstr _, hstr _, hx.2, hy.2,
        hwidth.2, hheight.2, hproperties, hchildren, List.forall_mem_nil _⟩
    · rintro ⟨⟨hlayout, hfinite⟩, hd, -, -, -, hx, hy, hwidth, hheight, hproperties, hchildren, -⟩
      exact ⟨hd, ⟨trivial, trivial, trivial, ⟨hlayout.x, hx⟩, ⟨hlayout.y, hy⟩,
        ⟨hlayout.width, hwidth⟩, ⟨hlayout.height, hheight⟩, hproperties, ⟨hfinite, hchildren⟩,
        trivial⟩, trivial, trivial⟩

/-! ## Records and their texts -/

/-- The floats in the text of the record are read back, as whole numbers always are. -/
def FloatsReread (r : Record) : Prop :=
  ∀ n ∈ (outline r).numbers, n.isWhole = false → n.Rereads

instance (r : Record) : Decidable r.FloatsReread :=
  inferInstanceAs (Decidable (∀ n ∈ (outline r).numbers, n.isWhole = false → n.Rereads))

theorem FloatsReread.numbers {r : Record} (h : FloatsReread r) :
    ∀ n ∈ (outline r).numbers, n.Rereads
  | .int n fits, _ => Number.rereads_int n fits
  | .float f finite, hmem => h (.float f finite) hmem rfl

theorem FloatsReread.readable {r : Record} (h : FloatsReread r) {d : Nat} (hfinite : Finite r)
    (hnesting : nesting r ≤ d) : Readable r d :=
  ⟨hfinite, hnesting, fun n hn => (h.numbers n hn).legible⟩

theorem rereadFloat_eq_self {f : Float} (h : ∀ n ∈ (Outline.float f).numbers, n.Rereads) :
    Number.rereadFloat f = f := by
  unfold Number.rereadFloat
  split
  · next hf =>
    rw [(h (.float f hf) (Outline.mem_numbers_float.2 rfl)).reread_eq]
    rfl
  · rfl

theorem outlines_eq_map (rs : List Record) : outlines rs = rs.map outline := by
  induction rs with
  | nil => rfl
  | cons r rs ih => rw [outlines, ih, List.map_cons]

/-- A record whose numbers are read back stays as it is. -/
theorem reread_eq_self {r : Record} (h : ∀ n ∈ (outline r).numbers, n.Rereads) :
    reread r = r := by
  induction r using Rose.ofChildren with
  | h e rs ih =>
    simp only [outline, Outline.numbers, Outline.numbersOfMembers, List.forall_mem_append] at h
    obtain ⟨-, -, -, hx, hy, hwidth, hheight, hproperties, hchildren, -⟩ := h
    have hentry : e.reread = e := by
      rw [Entry.reread, Layout.reread, rereadFloat_eq_self hx, rereadFloat_eq_self hy,
        rereadFloat_eq_self hwidth, rereadFloat_eq_self hheight,
        Json.rereadMembers_eq_self e.properties hproperties]
    have hbelow : rs.map reread = rs := by
      refine (List.map_congr_left fun r hr => ih r hr fun n hn => ?_).trans (List.map_id rs)
      refine hchildren n (Outline.mem_numbersOfItems.2 ⟨outline r, ?_, hn⟩)
      rw [outlines_eq_map]
      exact List.mem_map_of_mem hr
    rw [reread_node, hentry, hbelow]

theorem yields_ofJsonText (r : Record) :
    Yields (ofJsonText r.jsonText) (Readable r Json.maxDepth) (reread r) := by
  rw [ofJsonText, jsonText, Draft.ofText_pretty]
  refine Yields.congr (Yields.bind (ofDraft_outline r Json.maxDepth) (Yields.ok _)) ?_
  rw [and_true]

/-- A record with finite layouts whose text does not nest too deep comes back from that text if its
floats do. The text of any other record is refused, whatever becomes of the floats. What is read is the
record with all numbers as their own texts are read, and so never another one where these come back. -/
theorem jsonText_rereads (r : Record) :
    (FloatsReread r → Finite r ∧ nesting r ≤ 127 → ofJsonText r.jsonText = .ok r) ∧
      (¬(Finite r ∧ nesting r ≤ 127) → ∃ e, ofJsonText r.jsonText = .error e) ∧
      ∀ r', ofJsonText r.jsonText = .ok r' → r' = reread r ∧ (FloatsReread r → r' = r) := by
  have hreads := yields_ofJsonText r
  refine ⟨fun h hr => ?_, fun hr => hreads.exists_error fun h => hr ⟨h.1, h.2.nesting⟩,
    fun r' hr => ?_⟩
  · rw [hreads.eq_ok (h.readable hr.1 hr.2), reread_eq_self h.numbers]
  · have heq := ((hreads r').1 hr).2
    exact ⟨heq, fun h => heq.trans (reread_eq_self h.numbers)⟩

section Signpost

/-- A sign of the given width on a post. -/
def signpost (width : Float) : Record :=
  .node ⟨"r", "Root", "Post", ⟨12.5, -0.25, 150, 60⟩,
      Dict.ofList [("seconds", .ofFloat 2.75), ("times", .ofInt (-3)), ("words", .arr [])]⟩
    [.node ⟨"", "Action", "Say \"hello\"\n", ⟨0.1, 1e-9, width, 60⟩, .nil⟩ []]

theorem finite_signpost {width : Float} : Finite (signpost width) ↔ width.isFinite = true := by
  constructor
  · intro h
    exact ((finite_node.1 ((finite_node.1 h).2 _ List.mem_cons_self)).1).width
  · intro h
    refine finite_node.2 ⟨by constructor <;> decide +kernel, fun r hr => ?_⟩
    rw [List.mem_singleton.1 hr]
    have hothers : Float.isFinite 0.1 = true ∧ Float.isFinite 1e-9 = true ∧
        Float.isFinite 60 = true := by decide +kernel
    exact finite_node.2 ⟨⟨hothers.1, hothers.2.1, h, hothers.2.2⟩, nofun⟩

/-- Of two signposts the finite one comes back and the other one is refused. -/
theorem rereads_signpost :
    FloatsReread (signpost 75.5) ∧ ofJsonText (signpost 75.5).jsonText = .ok (signpost 75.5) ∧
      ∃ e, ofJsonText (signpost (1 / 0)).jsonText = .error e := by
  have hnesting : ∀ width, nesting (signpost width) = 4 := fun _ => rfl
  have hreread : FloatsReread (signpost 75.5) := by decide +kernel
  obtain ⟨hback, -⟩ := jsonText_rereads (signpost 75.5)
  obtain ⟨-, hrefused, -⟩ := jsonText_rereads (signpost (1 / 0))
  refine ⟨hreread, hback hreread ⟨finite_signpost.2 (by decide +kernel), ?_⟩, hrefused fun h => ?_⟩
  · rw [hnesting]
    decide
  · exact absurd (finite_signpost.1 h.1) (by decide +kernel)

end Signpost

end Record

end Conduct
