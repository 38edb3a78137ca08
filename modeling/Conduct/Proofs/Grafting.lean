import Conduct.Proofs.Grafting.Distinct
import Conduct.Proofs.Grafting.InPlace
import Conduct.Proofs.Reload

/-! Inserting, taking out and other properties.

An insertion is refused for the first of three reasons, and where there is none of them one list of
children gets one child more. Where ids are distinct, what is taken out and put back leaves no trace.
Main statements: `Tree.graft_ends`, `Tree.regraft`, `Tree.detach?_of_graft` and
`RootedTree.edits_settle`.
-/

set_option autoImplicit false

namespace Conduct

theorem Kind.isLeaf_iff (k : Kind) : k.isLeaf = true ↔ k = .action ∨ k = .condition := by
  cases k <;> decide

variable {H : Host}

theorem Behavior.limit_eq_zero_iff {b : Behavior H} {kind : Kind} (hb : b.kind? = some kind) :
    b.limit = .finite 0 ↔ kind = .action ∨ kind = .condition := by
  rw [← Kind.isLeaf_iff, ← isClosed_limit hb]
  exact decide_eq_true_iff.symm

namespace Tree

variable {t u child : Tree H} {n : Node H} {cs : List (Tree H)} {parentId id : String} {index : Nat}

/-! ## How an insertion ends -/

theorem checkDistinct_eq_error {e : EditError} (h : checkDistinct t child = .error e) :
    ∃ id ∈ child.ids, id ∈ t.ids ∧ e = .duplicateId id := by
  unfold checkDistinct at h
  cases hc : clash? t child with
  | none => simp [hc] at h
  | some id =>
    rw [hc] at h
    cases h
    have hknown := List.find?_some hc
    exact ⟨id, List.mem_of_find?_eq_some hc, List.contains_iff_mem.1 hknown, rfl⟩

/-- The ways in which an insertion ends. No two of them are open to one insertion, but for the id
that is named. -/
inductive GraftEnds (t : Tree H) (parentId : String) (index : Nat) (child : Tree H) :
    Except EditError (Tree H) → Prop
  | clash {id : String} (hc : id ∈ child.ids) (ht : id ∈ t.ids) :
      GraftEnds t parentId index child (.error (.duplicateId id))
  | orphaned (hd : child.ids.Disjoint t.ids) (hp : parentId ∉ t.ids) :
      GraftEnds t parentId index child (.error (.unknownParent parentId))
  | closed {parent : Tree H} (hd : child.ids.Disjoint t.ids) (hf : t.find? parentId = some parent)
      (hl : parent.value.behavior.limit = .finite 0) :
      GraftEnds t parentId index child (.error .tooManyNodes)
  | grown {parent : Tree H} (hd : child.ids.Disjoint t.ids) (hf : t.find? parentId = some parent)
      (hl : parent.value.behavior.limit ≠ .finite 0) :
      GraftEnds t parentId index child (.ok (t.replace parentId (parent.grow index child)))

theorem graft_ends (t : Tree H) (parentId : String) (index : Nat) (child : Tree H) :
    GraftEnds t parentId index child (t.graft parentId index child) := by
  unfold graft
  cases hd : checkDistinct t child with
  | error e =>
    obtain ⟨id, hc, ht, rfl⟩ := checkDistinct_eq_error hd
    exact .clash hc ht
  | ok _ =>
    have hnew : child.ids.Disjoint t.ids := checkDistinct_eq_ok_iff.1 hd
    cases hf : t.find? parentId with
    | none => exact .orphaned hnew (find?_eq_none_iff.1 hf)
    | some parent =>
      show GraftEnds t parentId index child
        (parent.insertChild index child >>= fun u => .ok (t.replace parentId u))
      by_cases hl : parent.value.behavior.limit.isClosed = true
      · rw [insertChild, if_pos hl]
        exact .closed hnew hf (of_decide_eq_true hl)
      · -- what the parent checks again holds, since its ids are among those of the tree
        obtain ⟨q, hq⟩ := exists_at?_of_find? hf
        have hsub : child.ids.Disjoint parent.ids := fun id hc hp => hnew hc (ids_of_at? hq id hp)
        have hgrow := (grow_eq parent index child).symm
        rw [insertChild_eq_ok_iff.2 ⟨Bool.eq_false_iff.2 hl, hsub, hgrow⟩]
        exact .grown hnew hf fun he => hl (decide_eq_true he)

/-- An insertion for which one end is open ends that way. -/
theorem GraftEnds.eq {x y : Except EditError (Tree H)} (hx : GraftEnds t parentId index child x)
    (hy : GraftEnds t parentId index child y) (hne : ∀ id, x ≠ .error (.duplicateId id)) :
    y = x := by
  cases hx with
  | clash => exact absurd rfl (hne _)
  | orphaned hd hp =>
    have hnone := find?_eq_none_iff.2 hp
    cases hy with
    | clash hc ht => exact absurd ht (hd hc)
    | orphaned => rfl
    | closed _ hf => exact nomatch hnone.symm.trans hf
    | grown _ hf => exact nomatch hnone.symm.trans hf
  | closed hd hf hl =>
    cases hy with
    | clash hc ht => exact absurd ht (hd hc)
    | orphaned _ hp => exact nomatch (find?_eq_none_iff.2 hp).symm.trans hf
    | closed => rfl
    | grown _ hf' hl' =>
      cases hf.symm.trans hf'
      exact absurd hl hl'
  | grown hd hf hl =>
    cases hy with
    | clash hc ht => exact absurd ht (hd hc)
    | orphaned _ hp => exact nomatch (find?_eq_none_iff.2 hp).symm.trans hf
    | closed _ hf' hl' =>
      cases hf.symm.trans hf'
      exact absurd hl' hl
    | grown _ hf' =>
      cases hf.symm.trans hf'
      rfl

theorem graft_eq_iff {x : Except EditError (Tree H)} (hne : ∀ id, x ≠ .error (.duplicateId id)) :
    t.graft parentId index child = x ↔ GraftEnds t parentId index child x := by
  have hends := graft_ends t parentId index child
  constructor
  · rintro rfl
    exact hends
  · exact fun hx => hx.eq hends hne

theorem graft_eq_duplicateId_iff :
    (∃ id, t.graft parentId index child = .error (.duplicateId id)) ↔
      ∃ id ∈ child.ids, id ∈ t.ids := by
  have hends := graft_ends t parentId index child
  generalize t.graft parentId index child = outcome at hends ⊢
  constructor
  · rintro ⟨id, rfl⟩
    cases hends with
    | clash hc ht => exact ⟨id, hc, ht⟩
  · rintro ⟨id, hc, ht⟩
    cases hends with
    | clash => exact ⟨_, rfl⟩
    | orphaned hd => exact absurd ht (hd hc)
    | closed hd => exact absurd ht (hd hc)
    | grown hd => exact absurd ht (hd hc)

theorem graft_eq_unknownParent_iff :
    t.graft parentId index child = .error (.unknownParent id) ↔
      child.ids.Disjoint t.ids ∧ parentId ∉ t.ids ∧ id = parentId := by
  rw [graft_eq_iff fun _ he => by cases he]
  constructor
  · rintro (_ | ⟨hd, hp⟩)
    exact ⟨hd, hp, rfl⟩
  · rintro ⟨hd, hp, rfl⟩
    exact .orphaned hd hp

theorem graft_eq_tooManyNodes_iff :
    t.graft parentId index child = .error .tooManyNodes ↔
      child.ids.Disjoint t.ids ∧
        ∃ parent, t.find? parentId = some parent ∧ parent.value.behavior.limit = .finite 0 := by
  rw [graft_eq_iff fun _ he => by cases he]
  constructor
  · rintro (_ | _ | ⟨hd, hf, hl⟩)
    exact ⟨hd, _, hf, hl⟩
  · rintro ⟨hd, parent, hf, hl⟩
    exact .closed hd hf hl

theorem graft_eq_ok_iff :
    t.graft parentId index child = .ok u ↔
      child.ids.Disjoint t.ids ∧ ∃ parent, t.find? parentId = some parent ∧
        parent.value.behavior.limit ≠ .finite 0 ∧
          t.replace parentId (parent.grow index child) = u := by
  rw [graft_eq_iff fun _ he => by cases he]
  constructor
  · rintro (_ | _ | _ | ⟨hd, hf, hl⟩)
    exact ⟨hd, _, hf, hl, rfl⟩
  · rintro ⟨hd, parent, hf, hl, rfl⟩
    exact .grown hd hf hl

/-! ## Taking out and putting back -/

/-- Wherever a child is in a tree with distinct ids, the tree without it gets it back in its place. -/
theorem regraft (hf : t.find? n.id = some (.node n cs)) (hc : cs[index]? = some child)
    (ht : t.ids.Nodup) (hl : n.behavior.limit ≠ .finite 0) :
    ∃ rest, t.detach? child.id = some (child, rest) ∧ rest.graft n.id index child = .ok t := by
  obtain ⟨before, after, rfl, rfl⟩ : ∃ before after, cs = before ++ child :: after ∧
      before.length = index := by
    obtain ⟨hlt, rfl⟩ := List.getElem?_eq_some_iff.1 hc
    exact ⟨cs.take index, cs.drop (index + 1), by simp, List.length_take_of_le (Nat.le_of_lt hlt)⟩
  have hout : Rose.Exchanged _ (.node n (before ++ after)) t _ := Rose.exchanged_replace t hf
  refine ⟨_, detach?_of_exchanged hout ht, ?_⟩
  -- the way back is the same exchange the other way round
  generalize Rose.replace (named n.id) (.node n (before ++ after)) t = rest at hout
  have hnodup := (ids_takenOut ⟨n, before, after, hout⟩).nodup_iff.1 ht
  obtain ⟨-, hrest, hdisjoint⟩ := List.nodup_append'.1 hnodup
  obtain ⟨q, hq, -⟩ := hout.symm.exists_at?
  refine graft_eq_ok_iff.2 ⟨hdisjoint, _, find?_of_at? hrest hq, hl, ?_⟩
  have hback : grow (.node n (before ++ after)) before.length child =
      .node n (before ++ child :: after) := by
    rw [grow_eq]
    simp only [Rose.withChildren, Rose.value, Rose.children, List.take_left', List.drop_left']
  rw [hback]
  exact replace_of_exchanged hout.symm hrest

/-- What went into a tree with distinct ids is taken out of it again, and the tree is as before. -/
theorem detach?_of_graft {grown : Tree H} (h : t.graft parentId index child = .ok grown)
    (ht : t.ids.Nodup) (hc : child.ids.Nodup) : grown.detach? child.id = some (child, t) := by
  obtain ⟨hids, hdisjoint⟩ := ids_graft h
  have hgrown : grown.ids.Nodup :=
    hids.nodup_iff.2 (List.nodup_append'.2 ⟨hc, ht, hdisjoint⟩)
  obtain ⟨-, parent, hf, -, rfl⟩ := graft_eq_ok_iff.1 h
  obtain ⟨n, cs⟩ := parent
  obtain ⟨before, after, rfl, hgrow⟩ : ∃ before after, cs = before ++ after ∧
      grow (.node n cs) index child = .node n (before ++ child :: after) :=
    ⟨cs.take index, cs.drop index, (List.take_append_drop index cs).symm, grow_eq ..⟩
  rw [hgrow] at hgrown ⊢
  exact detach?_of_exchanged (Rose.exchanged_replace t hf).symm hgrown

/-! ## Proper trees -/

/-- A tree of usual nodes with distinct ids and without children below leaves. -/
structure Proper (t : Tree H) : Prop where
  distinct : t.ids.Nodup
  kinds : t.Everywhere fun n cs =>
    n.behavior.kind? = some n.kind ∧ (n.kind.isLeaf = true → cs = [])

theorem Loadable.proper {catalog : Catalog H} (hc : catalog.builders = [])
    (h : Loadable catalog t) : t.Proper := by
  refine ⟨h.distinct, h.buildable.imp ?_⟩
  rintro n cs ⟨-, hbuild, hclosed⟩
  have hkind := (Catalog.build_anew hc hbuild).2
  rw [Behavior.kind?_anew] at hkind
  exact ⟨hkind, fun hleaf => hclosed ((Behavior.isClosed_limit hkind).trans hleaf)⟩

theorem Proper.at? {q : Position} (h : t.Proper) (hq : t.at? q = some (.node n cs)) :
    n.behavior.kind? = some n.kind ∧ (n.kind.isLeaf = true → cs = []) :=
  (Rose.everywhere_node.1 (h.kinds.at? hq)).1

end Tree

namespace RootedTree

variable {t t' : RootedTree H} {child rest : Tree H} {parentId id : String} {index : Nat}

theorem eq_of_tree (h : t.tree = t'.tree) : t = t' := by
  obtain ⟨tree, hroot⟩ := t
  cases h
  rfl

theorem detach?_of_tree (h : t.tree.detach? id = some (child, rest)) :
    ∃ t', t.detach? id = some (child, t') ∧ t'.tree = rest := by
  unfold detach?
  split
  · next found rest' hd =>
    cases hd.symm.trans h
    exact ⟨_, rfl, rfl⟩
  · next hd => cases hd.symm.trans h

theorem graft_of_tree {grown : Tree H} (h : t.tree.graft parentId index child = .ok grown) :
    ∃ t', t.graft parentId index child = .ok t' ∧ t'.tree = grown := by
  unfold graft
  split
  · next grown' hg =>
    cases hg.symm.trans h
    exact ⟨_, rfl, rfl⟩
  · next e hg => cases hg.symm.trans h

theorem graft_eq_error_iff {e : EditError} :
    t.graft parentId index child = .error e ↔ t.tree.graft parentId index child = .error e := by
  unfold graft
  split
  · next grown hg => simp [hg]
  · next e' hg => simp [hg]

/-- How an insertion into a whole tree ends: with the first reason against it, or with one child more
in one list of children. -/
structure Insertion (t : RootedTree H) (parentId : String) (index : Nat) (child : Tree H) : Prop where
  duplicate_iff : (∃ id, t.graft parentId index child = .error (.duplicateId id)) ↔
    ∃ id ∈ child.ids, id ∈ t.tree.ids
  duplicate_shared : ∀ id, t.graft parentId index child = .error (.duplicateId id) →
    id ∈ child.ids ∧ id ∈ t.tree.ids
  unknown_iff : ∀ id, t.graft parentId index child = .error (.unknownParent id) ↔
    child.ids.Disjoint t.tree.ids ∧ parentId ∉ t.tree.ids ∧ id = parentId
  closed_iff : t.graft parentId index child = .error .tooManyNodes ↔
    child.ids.Disjoint t.tree.ids ∧ ∃ parent, t.tree.find? parentId = some parent ∧
      parent.value.behavior.limit = .finite 0
  ok_iff : (∃ t', t.graft parentId index child = .ok t') ↔
    child.ids.Disjoint t.tree.ids ∧ ∃ parent, t.tree.find? parentId = some parent ∧
      parent.value.behavior.limit ≠ .finite 0
  grown : ∀ t', t.graft parentId index child = .ok t' →
    ∃ parent, t.tree.find? parentId = some parent ∧
      Rose.Exchanged parent (parent.grow index child) t.tree t'.tree
  /-- Made in place, the insertion does the same, and it leaves the tree alone where it fails. -/
  settled : (Tree.graftInPlace parentId index child).on t.tree =
    Edit.settle t.tree ((t.graft parentId index child).map tree)

theorem insertion (t : RootedTree H) (parentId : String) (index : Nat) (child : Tree H) :
    t.Insertion parentId index child where
  duplicate_iff := by
    simp only [graft_eq_error_iff]
    exact Tree.graft_eq_duplicateId_iff
  duplicate_shared id he := by
    have hends := Tree.graft_ends t.tree parentId index child
    rw [graft_eq_error_iff.1 he] at hends
    cases hends with
    | clash hc ht => exact ⟨hc, ht⟩
  unknown_iff id := graft_eq_error_iff.trans Tree.graft_eq_unknownParent_iff
  closed_iff := graft_eq_error_iff.trans Tree.graft_eq_tooManyNodes_iff
  ok_iff := by
    constructor
    · rintro ⟨t', h⟩
      obtain ⟨hd, parent, hf, hl, -⟩ := Tree.graft_eq_ok_iff.1 (tree_graft h)
      exact ⟨hd, parent, hf, hl⟩
    · rintro ⟨hd, parent, hf, hl⟩
      obtain ⟨t', ht', -⟩ := graft_of_tree (Tree.graft_eq_ok_iff.2 ⟨hd, parent, hf, hl, rfl⟩)
      exact ⟨t', ht'⟩
  grown t' h := by
    obtain ⟨-, parent, hf, -, he⟩ := Tree.graft_eq_ok_iff.1 (tree_graft h)
    exact ⟨parent, hf, he ▸ Rose.exchanged_replace t.tree hf⟩
  settled := by
    rw [Tree.on_graftInPlace]
    cases hg : t.graft parentId index child with
    | ok t' =>
      rw [tree_graft hg]
      rfl
    | error e =>
      rw [graft_eq_error_iff.1 hg]
      rfl

/-- Insertions end as they should and are all or nothing, as are changes of properties. What is taken
out of a tree is put back by an insertion where it was, and nothing shows of it. -/
theorem edits_settle (t : RootedTree H) (h : t.tree.Proper) :
    (∀ parentId index child, t.Insertion parentId index child) ∧
    (∀ id u, t.tree.find? id = some u →
      (u.value.behavior.limit = .finite 0 ↔ u.kind = .action ∨ u.kind = .condition)) ∧
    (∀ (n : Node H) (cs : List (Tree H)) (index : Nat) (child : Tree H),
      t.tree.find? n.id = some (.node n cs) → cs[index]? = some child →
        ∃ rest, t.detach? child.id = some (child, rest) ∧
          rest.graft n.id index child = .ok t) ∧
    (∀ id ∈ t.tree.ids, id ≠ t.tree.id →
      ∃ (n : Node H) (cs : List (Tree H)) (index : Nat) (child : Tree H),
        t.tree.find? n.id = some (.node n cs) ∧ cs[index]? = some child ∧ child.id = id) ∧
    ∀ {catalog : Catalog H} {u : Tree H} {properties : Properties} {edit : Edit H BuildError Unit},
      Tree.PropertyEdit catalog u properties edit →
        (u.setProperties catalog properties =
          (catalog.build u.kind properties).map fun b => u.changeTop fun n =>
            { n with behavior := b, properties := properties, status := .ready }) ∧
        edit.on u = Edit.settle u (u.setProperties catalog properties) ∧
        ∀ id missing, t.tree.find? id = some u → (Edit.within id missing edit).on t.tree =
          Edit.settle t.tree ((u.setProperties catalog properties).map (t.tree.replace id)) := by
  refine ⟨t.insertion, ?_, ?_, ?_, ?_⟩
  · rintro id ⟨n, cs⟩ hf
    obtain ⟨q, hq⟩ := Tree.exists_at?_of_find? hf
    exact Behavior.limit_eq_zero_iff (h.at? hq).1
  · intro n cs index child hf hc
    obtain ⟨q, hq⟩ := Tree.exists_at?_of_find? hf
    obtain ⟨hkind, hleaf⟩ := h.at? hq
    -- a node with a child is no leaf
    have hl : n.behavior.limit ≠ .finite 0 := by
      intro hzero
      rw [Behavior.limit_eq_zero_iff hkind, ← Kind.isLeaf_iff] at hzero
      simp [hleaf hzero] at hc
    obtain ⟨rest, hd, hg⟩ := Tree.regraft hf hc h.distinct hl
    obtain ⟨rest', hd', rfl⟩ := detach?_of_tree hd
    obtain ⟨t', ht', he⟩ := graft_of_tree hg
    exact ⟨rest', hd', eq_of_tree he ▸ ht'⟩
  · intro id hid hne
    obtain ⟨q, n, cs, index, child, hq, hc, hchild⟩ := Tree.exists_child_of_mem_ids hid hne
    exact ⟨n, cs, index, child, Tree.find?_of_at? h.distinct hq, hc, hchild⟩
  · intro catalog u properties edit hedit
    exact ⟨Tree.setProperties_eq .., hedit.on_eq,
      fun id missing hf => Edit.on_within_of_settle hf hedit.on_eq⟩

section Workshop

open Rehearsal (clock)

/-- The action is taken out and put back while it is running. -/
theorem edits_settle_workshop :
    ∃ t : RootedTree Rehearsal.host, t.tree.Proper ∧
      ∃ child rest, child.value.status = .running ∧ t.detach? "a" = some (child, rest) ∧
        rest.graft "s" 0 child = .ok t := by
  obtain ⟨t, hl⟩ : ∃ t, load tools 0 workshop = .ok (t, 0) := ⟨_, rfl⟩
  have e : Edited tools (t.tick (clock 0)).state [] := (Edited.loaded hl).tick (clock 0)
  have hproper := (e.loadable rfl).1.proper rfl
  obtain ⟨n, cs, child, hf, hn, hc, hid, hrunning⟩ :
      ∃ (n : Node Rehearsal.host) (cs : List (Tree Rehearsal.host)) (child : Tree Rehearsal.host),
        (t.tick (clock 0)).state.tree.find? "s" = some (.node n cs) ∧ n.id = "s" ∧
          cs[0]? = some child ∧ child.id = "a" ∧ child.value.status = .running := by
    cases hl
    exact ⟨_, _, _, rfl, rfl, rfl, rfl, rfl⟩
  obtain ⟨-, -, hregraft, -⟩ := edits_settle (t.tick (clock 0)).state hproper
  obtain ⟨rest, hd, hg⟩ := hregraft n cs 0 child (hn.symm ▸ hf) hc
  exact ⟨_, hproper, child, rest, hrunning, hid ▸ hd, hn ▸ hg⟩

end Workshop

end RootedTree

end Conduct
