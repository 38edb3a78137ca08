import Conduct.Proofs.Everywhere
import Conduct.Record
import Conduct.Record.Candidate

/-! The findings of the data of a record.

The data of a record is an object with all its fields, so what is found wrong with it can be told from
its entry, its number of children and the ids before it. Main statements: `findingsAt_toJson`,
`idFlaws_toJson` and `mem_flaws_toJson`.
-/

set_option autoImplicit false

namespace Conduct

namespace Record

/-- The fields of a record with an entry and children. -/
def fields (e : Entry) (rs : List Record) : List (String × Json) := [
  ("id", .str e.id),
  ("type", .str e.tag),
  ("name", .str e.name),
  ("x", .ofFloat e.layout.x),
  ("y", .ofFloat e.layout.y),
  ("width", .ofFloat e.layout.width),
  ("height", .ofFloat e.layout.height),
  ("properties", .obj e.properties),
  ("children", .arr (rs.map toJson))]

theorem toJsonAll_eq_map (rs : List Record) : toJsonAll rs = rs.map toJson := by
  induction rs with
  | nil => rfl
  | cons r rs ih => rw [toJsonAll, ih, List.map_cons]

theorem toJson_node (e : Entry) (rs : List Record) :
    toJson (.node e rs) = .obj (Dict.ofList (fields e rs)) := by
  rw [toJson, toJsonAll_eq_map]
  rfl

theorem get?_toJson (e : Entry) (rs : List Record) (name : String) :
    (toJson (.node e rs)).get? name = (fields e rs).reverse.lookup name := by
  rw [toJson_node]
  exact Dict.get?_ofList _ name

end Record

theorem Json.isNumber_ofFloat (f : Float) : (ofFloat f).isNumber = f.isFinite := by
  unfold ofFloat Number.ofFloat?
  split
  · next hf => exact hf.symm
  · next hf =>
    rw [Bool.not_eq_true] at hf
    rw [hf]
    rfl

namespace Candidate

variable {p : Position} {seen : List String} {e : Entry} {rs : List Record}

theorem findingsOfMembers_eq {lo : Option String} (members : Dict.From Json lo) :
    findingsOfMembers p seen members = match members.get? "children" with
      | some j => findingsOfChildren p seen j
      | none => ([], seen) := by
  induction members with
  | nil => rfl
  | cons key above value rest ih =>
    rw [findingsOfMembers, Dict.From.get?_cons]
    split
    · rfl
    · exact ih

/-- Whatever an object has for its children, they are looked at in their order. -/
theorem findingsAt_obj (p : Position) (seen : List String) (members : Dict Json) :
    findingsAt p seen (.obj members) =
      (((idFlaws seen (.obj members)).1 ++ flaws (.obj members)).map (⟨p, ·⟩) ++
        (findingsOfItems p 0 (idFlaws seen (.obj members)).2 (children (.obj members))).1,
      (findingsOfItems p 0 (idFlaws seen (.obj members)).2 (children (.obj members))).2) := by
  rw [findingsAt]
  simp only [findingsOfMembers_eq]
  unfold children
  rw [Json.get?]
  cases members.get? "children" with
  | none => rfl
  | some j => cases j <;> rfl

theorem children_toJson (e : Entry) (rs : List Record) :
    children (Record.toJson (.node e rs)) = rs.map Record.toJson := by
  unfold children
  rw [Record.get?_toJson]
  rfl

theorem findingsAt_toJson (p : Position) (seen : List String) (e : Entry) (rs : List Record) :
    findingsAt p seen (Record.toJson (.node e rs)) =
      (((idFlaws seen (Record.toJson (.node e rs))).1 ++ flaws (Record.toJson (.node e rs))).map
          (⟨p, ·⟩) ++
        (findingsOfItems p 0 (idFlaws seen (Record.toJson (.node e rs))).2
          (rs.map Record.toJson)).1,
      (findingsOfItems p 0 (idFlaws seen (Record.toJson (.node e rs))).2
        (rs.map Record.toJson)).2) := by
  rw [← children_toJson e rs, Record.toJson_node, findingsAt_obj]

/-- An id that is there is a flaw if it was seen before. -/
theorem idFlaws_eq {j : Json} {id : String} (h : id? j = if id.isEmpty then none else some id)
    (seen : List String) : idFlaws seen j =
      if id.isEmpty then ([], seen)
      else if seen.contains id then ([.duplicateId id], seen)
      else ([], id :: seen) := by
  unfold idFlaws
  rw [h]
  cases id.isEmpty with
  | true => rfl
  | false => rfl

theorem idFlaws_toJson (seen : List String) (e : Entry) (rs : List Record) :
    idFlaws seen (Record.toJson (.node e rs)) =
      if e.id.isEmpty then ([], seen)
      else if seen.contains e.id then ([.duplicateId e.id], seen)
      else ([], e.id :: seen) := by
  refine idFlaws_eq ?_ seen
  unfold id?
  rw [Record.get?_toJson]
  rfl

/-- What is wrong with a tag, given the name and the number of children that go with it. -/
def tagFlaws (tag name : String) (count : Nat) : List Flaw :=
  match Kind.ofTag? tag with
  | none => [.unknownKind tag]
  | some kind => countFlaws kind name count

theorem mem_axisFlaws {members : Dict Json} {axis : String} {f : Float} {flaw : Flaw}
    (h : members.get? axis = some (.ofFloat f)) :
    flaw ∈ axisFlaws members axis ↔ flaw = .notANumber axis ∧ f.isFinite = false := by
  unfold axisFlaws
  rw [h]
  simp only [Json.isNumber_ofFloat]
  cases f.isFinite with
  | true => simp
  | false => simp

theorem mem_flaws_toJson {flaw : Flaw} : flaw ∈ flaws (Record.toJson (.node e rs)) ↔
    (flaw = .noName ∧ Text.isAllBlank e.name) ∨
      (flaw = .notANumber "x" ∧ e.layout.x.isFinite = false) ∨
      (flaw = .notANumber "y" ∧ e.layout.y.isFinite = false) ∨
      flaw ∈ tagFlaws e.tag e.name rs.length := by
  have hget := Dict.get?_ofList (Record.fields e rs)
  have hx : (Dict.ofList (Record.fields e rs)).get? "x" = some (.ofFloat e.layout.x) := hget "x"
  have hy : (Dict.ofList (Record.fields e rs)).get? "y" = some (.ofFloat e.layout.y) := hget "y"
  have hname : name (Dict.ofList (Record.fields e rs)) = e.name := by
    unfold name
    rw [hget]
    rfl
  have hlist : childrenFlaws (Dict.ofList (Record.fields e rs)) = [] := by
    unfold childrenFlaws
    rw [hget]
    rfl
  have hcount : (children (.obj (Dict.ofList (Record.fields e rs)))).length = rs.length := by
    rw [← Record.toJson_node, children_toJson, List.length_map]
  have hkind : kindFlaws (Dict.ofList (Record.fields e rs)) rs.length =
      tagFlaws e.tag e.name rs.length := by
    unfold kindFlaws tagFlaws
    rw [hget, hname]
    rfl
  rw [Record.toJson_node]
  unfold flaws
  simp only [hname, hlist, hcount, hkind, List.mem_append, mem_axisFlaws hx, mem_axisFlaws hy,
    List.append_nil, or_assoc]
  cases Text.isAllBlank e.name with
  | true => simp
  | false => simp

end Candidate

end Conduct
