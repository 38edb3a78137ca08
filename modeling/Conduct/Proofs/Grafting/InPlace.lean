import Conduct.Proofs.Ids

/-! Edits that are made on a tree itself.

An edit in place changes the one tree there is, step by step, and what it did before it failed stays
done. The edits of a tree are carried out here in that way, in the order of their steps, and are
shown to be all or nothing. Main statements: `Rose.editFirst?_eq`, `Edit.on_within_of_settle`,
`Tree.on_graftInPlace` and `Tree.PropertyEdit.on_eq`.
-/

set_option autoImplicit false

namespace Conduct

namespace Rose

variable {α ρ : Type} {p : α → Bool} {t u old new : Rose α}

mutual

/-- Edits the first subtree in preorder whose top fits, where it is. -/
def editFirst? (p : α → Bool) (f : Rose α → ρ × Rose α) : Rose α → Option (ρ × Rose α)
  | .node v cs =>
    if p v then some (f (.node v cs))
    else (editAmong? p f cs).map fun (r, ds) => (r, .node v ds)

def editAmong? (p : α → Bool) (f : Rose α → ρ × Rose α) :
    List (Rose α) → Option (ρ × List (Rose α))
  | [] => none
  | c :: cs =>
    match editFirst? p f c with
    | some (r, d) => some (r, d :: cs)
    | none => (editAmong? p f cs).map fun (r, ds) => (r, c :: ds)

end

mutual

/-- Looking for a subtree and putting another one in its place comes to the same. -/
theorem editFirst?_eq (f : Rose α → ρ × Rose α) : (t : Rose α) →
    editFirst? p f t = (find? p t).map fun u => ((f u).1, replace p (f u).2 t)
  | .node v cs => by
    rw [editFirst?, find?]
    by_cases hv : p v = true
    · simp only [hv, if_true, Option.map_some, replace]
    · simp only [hv, Bool.false_eq_true, if_false, replace, editAmong?_eq f cs, Option.map_map]
      rfl

theorem editAmong?_eq (f : Rose α → ρ × Rose α) : (cs : List (Rose α)) →
    editAmong? p f cs = (findAmong? p cs).map fun u => ((f u).1, replaceAmong p (f u).2 cs)
  | [] => rfl
  | c :: cs => by
    rw [editAmong?, findAmong?, editFirst?_eq f c, editAmong?_eq f cs]
    cases hc : c.find? p with
    | some found => simp only [Option.map_some, replaceAmong, hc]
    | none =>
      simp only [Option.map_none, Option.map_map, replaceAmong, hc]
      rfl

end

theorem Exchanged.eq_of_self (h : Exchanged old old t u) : u = t := by
  induction h with
  | here => rfl
  | under v before after h ih => rw [ih]

/-- What is found is put back where it was. -/
theorem replace_find? (h : t.find? p = some u) : replace p u t = t :=
  (exchanged_replace t h).eq_of_self

end Rose

variable {H : Host} {ε : Type}

/-- Steps that are made on a tree itself. The tree outlives their failure. -/
abbrev Edit (H : Host) (ε : Type) : Type → Type := ExceptT ε (StateM (Tree H))

namespace Edit

variable {t u : Tree H} {id : String} {missing : ε} {edit : Edit H ε Unit}

/-- What an edit of a tree comes to, and what it leaves. -/
def on (edit : Edit H ε Unit) (t : Tree H) : Except ε Unit × Tree H := edit.run t

/-! ## Single steps -/

theorem on_get {f : Tree H → Edit H ε Unit} : on (get >>= f) t = on (f t) t := rfl

theorem on_modify {f : Tree H → Tree H} : on (ε := ε) (modify f) t = (.ok (), f t) := rfl

theorem on_ofExcept_ok {α : Type} {a : α} {f : α → Edit H ε Unit} :
    on (MonadExcept.ofExcept (.ok a) >>= f) t = on (f a) t := rfl

/-- Edits the first subtree in preorder that has the id at its top. -/
def within (id : String) (missing : ε) (edit : Edit H ε Unit) : Edit H ε Unit :=
  ExceptT.mk fun t => (Rose.editFirst? (Tree.named id) edit.on t).getD (.error missing, t)

/-- All of an edit, or nothing. -/
def settle (t : Tree H) : Except ε (Tree H) → Except ε Unit × Tree H
  | .ok changed => (.ok (), changed)
  | .error e => (.error e, t)

theorem on_within (h : t.find? id = some u) :
    (within id missing edit).on t = ((edit.on u).1, t.replace id (edit.on u).2) := by
  show (Rose.editFirst? (Tree.named id) edit.on t).getD _ = _
  rw [Rose.editFirst?_eq, show Rose.find? (Tree.named id) t = some u from h]
  rfl

theorem on_within_of_not_mem (h : id ∉ t.ids) :
    (within id missing edit).on t = (.error missing, t) := by
  show (Rose.editFirst? (Tree.named id) edit.on t).getD _ = _
  rw [Rose.editFirst?_eq, show Rose.find? (Tree.named id) t = none from Tree.find?_eq_none_iff.2 h]
  rfl

/-- An edit of a subtree that is all or nothing is so for the tree as well. -/
theorem on_within_of_settle {x : Except ε (Tree H)} (h : t.find? id = some u)
    (he : edit.on u = settle u x) :
    (within id missing edit).on t = settle t (x.map (t.replace id)) := by
  rw [on_within h, he]
  cases x with
  | ok changed => rfl
  | error e => exact congrArg (Prod.mk _) (Rose.replace_find? h)

end Edit

namespace Tree

/-! ## Inserting -/

/-- A tree with one more child, before the one at the index, or else as the last one. -/
def grow (parent : Tree H) (index : Nat) (child : Tree H) : Tree H :=
  parent.withChildren (parent.children.insertIdx (min index parent.children.length) child)

/-- Checks the limit, then the ids, and only then inserts. -/
def insertInPlace (index : Nat) (child : Tree H) : Edit H EditError Unit := do
  if (← get).value.behavior.limit.isClosed then throw .tooManyNodes
  MonadExcept.ofExcept (checkDistinct (← get) child)
  modify fun parent => parent.grow index child

/-- Checks the ids of the whole tree before it looks for the parent. -/
def graftInPlace (parentId : String) (index : Nat) (child : Tree H) : Edit H EditError Unit := do
  MonadExcept.ofExcept (checkDistinct (← get) child)
  .within parentId (.unknownParent parentId) (insertInPlace index child)

theorem insertIdx_min {α : Type} (xs : List α) (index : Nat) (x : α) :
    xs.insertIdx (min index xs.length) x = xs.take index ++ x :: xs.drop index := by
  induction xs generalizing index with
  | nil => simp
  | cons y xs ih =>
    cases index with
    | zero => simp
    | succ index => simp [Nat.succ_min_succ, ih]

theorem grow_eq (parent : Tree H) (index : Nat) (child : Tree H) :
    parent.grow index child =
      parent.withChildren (parent.children.take index ++ child :: parent.children.drop index) := by
  rw [grow, insertIdx_min]

theorem on_insertInPlace (index : Nat) (child parent : Tree H) :
    (insertInPlace index child).on parent = Edit.settle parent (parent.insertChild index child) := by
  unfold insertInPlace insertChild
  simp only [Edit.on_get]
  cases hl : parent.value.behavior.limit.isClosed with
  | true => rfl
  | false =>
    simp only [Bool.false_eq_true, if_false, Edit.on_get]
    cases hd : checkDistinct parent child with
    | error e => rfl
    | ok u =>
      rw [Edit.on_ofExcept_ok, Edit.on_modify, grow_eq]
      rfl

theorem on_graftInPlace (parentId : String) (index : Nat) (child t : Tree H) :
    (graftInPlace parentId index child).on t = Edit.settle t (t.graft parentId index child) := by
  unfold graftInPlace graft
  rw [Edit.on_get]
  cases checkDistinct t child with
  | error e => rfl
  | ok u =>
    rw [Edit.on_ofExcept_ok]
    cases hf : t.find? parentId with
    | none =>
      rw [Edit.on_within_of_not_mem (find?_eq_none_iff.1 hf)]
      rfl
    | some parent =>
      rw [Edit.on_within_of_settle hf (on_insertInPlace index child parent)]
      show _ = Edit.settle t (parent.insertChild index child >>= fun u => .ok (t.replace parentId u))
      cases parent.insertChild index child with
      | error e => rfl
      | ok u => rfl

/-! ## Properties -/

def setPropertiesInPlace (catalog : Catalog H) (properties : Properties) :
    Edit H BuildError Unit := do
  let behavior ← MonadExcept.ofExcept (catalog.build (← get).value.kind properties)
  modify fun t => t.changeTop fun n => { n with behavior := behavior }
  modify fun t => t.changeTop fun n => { n with properties := properties }
  modify fun t => t.changeTop fun n => { n with status := .ready }

def setPropertyInPlace (catalog : Catalog H) (key : String) (value : Json) :
    Edit H BuildError Unit := do
  setPropertiesInPlace catalog ((← get).value.properties.insert key value)

/-- The ways to change the properties of a node, with what they are to be then. -/
inductive PropertyEdit (catalog : Catalog H) (t : Tree H) : Properties → Edit H BuildError Unit → Prop
  | all (properties : Properties) :
      PropertyEdit catalog t properties (setPropertiesInPlace catalog properties)
  | one (key : String) (value : Json) :
      PropertyEdit catalog t (t.value.properties.insert key value)
        (setPropertyInPlace catalog key value)

theorem setProperties_eq (catalog : Catalog H) (t : Tree H) (properties : Properties) :
    t.setProperties catalog properties = (catalog.build t.value.kind properties).map fun b =>
      t.changeTop fun n => { n with behavior := b, properties := properties, status := .ready } := by
  unfold setProperties
  cases catalog.build t.value.kind properties with
  | error e => rfl
  | ok b => rfl

theorem PropertyEdit.on_eq {catalog : Catalog H} {t : Tree H} {properties : Properties}
    {edit : Edit H BuildError Unit} (h : PropertyEdit catalog t properties edit) :
    edit.on t = Edit.settle t (t.setProperties catalog properties) := by
  have hon : edit.on t = (setPropertiesInPlace catalog properties).on t := by
    cases h with
    | all => rfl
    | one key value => rfl
  rw [hon, setProperties_eq]
  unfold setPropertiesInPlace
  rw [Edit.on_get]
  cases catalog.build t.value.kind properties with
  | error e => rfl
  | ok b => rfl

end Tree

end Conduct
