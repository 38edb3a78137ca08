import Conduct.Proofs.Reload

/-! Edits neither duplicate nor lose nodes.

Inserting checks the ids of the subtree against those of the whole tree. So the ids of a loaded tree
stay distinct, and an id leads to the same subtree whether it is looked for in preorder or taken out
level by level. Main statements: `Cut.splits` and `Tended.conserves`.
-/

set_option autoImplicit false

namespace Conduct

variable {H : Host}

namespace Tree

variable {t u child found rest : Tree H} {id : String}

structure Identified (t : Tree H) : Prop where
  distinct : t.ids.Nodup
  nonempty : ∀ id ∈ t.ids, id ≠ ""

/-- Taking out the subtree with an id leaves the rest of the tree, with the same node at its top. -/
structure Splits (t : Tree H) (id : String) (child rest : Tree H) : Prop where
  found : t.find? id = some child
  gone : rest.find? id = none
  ids : t.ids.Perm (child.ids ++ rest.ids)
  disjoint : child.ids.Disjoint rest.ids
  top : rest.value = t.value

/-! ## Taking out -/

theorem Splits.ne_top (s : t.Splits id child rest) : id ≠ t.id := by
  intro he
  have hgone := find?_eq_none_iff.1 s.gone
  apply hgone
  rw [he, Tree.id, ← s.top]
  exact id_mem_ids rest

theorem Splits.identified (s : t.Splits id child rest) (h : t.Identified) :
    child.Identified ∧ rest.Identified := by
  have hids := List.nodup_append.1 (s.ids.nodup_iff.1 h.distinct)
  have hmem : ∀ id, id ∈ child.ids ∨ id ∈ rest.ids → id ≠ "" := by
    intro id hid
    exact h.nonempty id (s.ids.mem_iff.2 (List.mem_append.2 hid))
  exact ⟨⟨hids.1, fun id hid => hmem id (.inl hid)⟩, hids.2.1, fun id hid => hmem id (.inr hid)⟩

/-- Where ids are distinct, there is but one subtree to take out. -/
theorem splits_of_takenOut (ht : t.Identified) (h : Rose.TakenOut found t rest) :
    t.Splits found.id found rest := by
  obtain ⟨q, hq⟩ := h.exists_at?
  have hids := ids_takenOut h
  have hdisjoint := (List.nodup_append'.1 (hids.nodup_iff.1 ht.distinct)).2.2
  refine ⟨find?_of_at? ht.distinct hq, ?_, hids, hdisjoint, h.value⟩
  exact find?_eq_none_iff.2 (hdisjoint (id_mem_ids found))

theorem takenOut_of_removeChild? (h : t.removeChild? id = some (child, rest)) :
    child.id = id ∧ Rose.TakenOut child t rest := by
  obtain ⟨n, cs⟩ := t
  obtain ⟨⟨found, ds⟩, hd, he⟩ := Option.map_eq_some_iff.1 h
  cases he
  obtain ⟨hid, before, after, hcs, rfl⟩ := Rose.takeFirst?_eq_some hd
  obtain rfl : cs = before ++ child :: after := hcs
  exact ⟨eq_of_beq hid, n, before, after, .here⟩

theorem takenOut_of_detach? (h : t.detach? id = some (child, rest)) :
    child.id = id ∧ Rose.TakenOut child t rest := by
  obtain ⟨hid, htaken⟩ := Rose.exchanged_detach? t h
  exact ⟨eq_of_beq hid, htaken⟩

/-! ## Other steps -/

theorem identified_run {l : Loading H} {next next' : Nat} {r : Record}
    (h : l.run next r = .ok (t, next')) : t.Identified := by
  obtain ⟨⟨u, pool⟩, hu, he⟩ := map_eq_ok h
  cases he
  have hmade := Loading.made_tree hu
  exact ⟨hmade.distinct, hmade.nonempty⟩

theorem Identified.of_ids (h : t.Identified) (hids : u.ids = t.ids) : u.Identified :=
  ⟨hids ▸ h.distinct, hids ▸ h.nonempty⟩

theorem ids_replace (hf : t.find? id = some found) (hids : child.ids = found.ids) :
    (t.replace id child).ids = t.ids := by
  obtain ⟨before, after, hold, hnew⟩ := exists_ids_of_exchanged (Rose.exchanged_replace t hf)
  rw [hold, ← hids]
  exact hnew

theorem Identified.graft {parentId : String} {index : Nat} {grown : Tree H} (ht : t.Identified)
    (hc : child.Identified) (h : t.graft parentId index child = .ok grown) : grown.Identified := by
  obtain ⟨hids, hdisjoint⟩ := ids_graft h
  refine ⟨hids.nodup_iff.2 (List.nodup_append'.2 ⟨hc.distinct, ht.distinct, hdisjoint⟩), ?_⟩
  intro id hid
  rcases List.mem_append.1 (hids.mem_iff.1 hid) with hid | hid
  · exact hc.nonempty id hid
  · exact ht.nonempty id hid

end Tree

namespace RootedTree

variable {t t' : RootedTree H} {held : List (Tree H)} {id : String} {child : Tree H}

theorem tree_replace_of_kind {u u' : Tree H} (hf : t.tree.find? id = some u)
    (hk : u'.kind = u.kind) : (t.replace id u').tree = t.tree.replace id u' := by
  have hroot : (t.tree.replace id u').kind = .root := (Tree.kind_replace hf hk).trans t.rooted
  unfold replace
  rw [dif_pos hroot]

/-- The subtree with an id is taken out from below the top or from below another node. -/
inductive Cut (t : RootedTree H) (id : String) (child : Tree H) : RootedTree H → Prop
  | top {t' : RootedTree H} (h : t.detach? id = some (child, t')) : Cut t id child t'
  | detached {above : String} {u u' : Tree H} (hf : t.tree.find? above = some u)
      (h : u.detach? id = some (child, u')) : Cut t id child (t.replace above u')
  | removed {above : String} {u u' : Tree H} (hf : t.tree.find? above = some u)
      (h : u.removeChild? id = some (child, u')) : Cut t id child (t.replace above u')

theorem takenOut_replace {above : String} {u u' : Tree H} (hf : t.tree.find? above = some u)
    (h : Rose.TakenOut child u u') : Rose.TakenOut child t.tree (t.replace above u').tree := by
  have hkind : u'.kind = u.kind := by
    unfold Tree.kind
    rw [h.value]
  rw [tree_replace_of_kind hf hkind]
  exact h.of_exchanged (Rose.exchanged_replace t.tree hf)

theorem Cut.takenOut (c : t.Cut id child t') :
    child.id = id ∧ Rose.TakenOut child t.tree t'.tree := by
  cases c with
  | top h => exact Tree.takenOut_of_detach? (tree_detach? h)
  | detached hf h =>
    obtain ⟨hid, htaken⟩ := Tree.takenOut_of_detach? h
    exact ⟨hid, takenOut_replace hf htaken⟩
  | removed hf h =>
    obtain ⟨hid, htaken⟩ := Tree.takenOut_of_removeChild? h
    exact ⟨hid, takenOut_replace hf htaken⟩

theorem Cut.splits (c : t.Cut id child t') (h : t.tree.Identified) :
    t.tree.Splits id child t'.tree := by
  obtain ⟨rfl, htaken⟩ := c.takenOut
  exact Tree.splits_of_takenOut h htaken

/-! ## Histories -/

/-- What comes of a loaded tree by ticks, resets and edits, each with a catalog of its own, and the
subtrees that are held outside of it: those that were taken out of it, loaded or cloned. -/
inductive Tended : RootedTree H → List (Tree H) → Prop
  | loaded {catalog : Catalog H} {next next' : Nat} {r : Record} {t : RootedTree H}
      (h : load catalog next r = .ok (t, next')) : Tended t []
  | tick {t : RootedTree H} {held : List (Tree H)} (e : Tended t held) (stage : Stage H) :
      Tended (t.tick stage).state held
  | reset {t : RootedTree H} {held : List (Tree H)} (e : Tended t held) : Tended t.reset held
  | touched {catalog : Catalog H} {t : RootedTree H} {held : List (Tree H)} {id : String}
      {u u' : Tree H} (e : Tended t held) (hf : t.tree.find? id = some u)
      (h : u.Touched catalog u') : Tended (t.replace id u') held
  | cut {t t' : RootedTree H} {held : List (Tree H)} {id : String} {child : Tree H}
      (e : Tended t held) (h : t.Cut id child t') : Tended t' (child :: held)
  | built {catalog : Catalog H} {t : RootedTree H} {held : List (Tree H)} {next next' : Nat}
      {r : Record} {child : Tree H} (e : Tended t held)
      (h : Tree.load catalog next r = .ok (child, next')) : Tended t (child :: held)
  | cloned {catalog : Catalog H} {t : RootedTree H} {held : List (Tree H)} {next next' : Nat}
      {u child : Tree H} (e : Tended t held) (h : Tree.clone catalog next u = .ok (child, next')) :
      Tended t (child :: held)
  | grafted {t t' : RootedTree H} {before after : List (Tree H)} {child : Tree H}
      {parentId : String} {index : Nat} (e : Tended t (before ++ child :: after))
      (h : t.graft parentId index child = .ok t') : Tended t' (before ++ after)

theorem Tended.identified (e : Tended t held) :
    t.tree.Identified ∧ ∀ c ∈ held, Tree.Identified c := by
  induction e with
  | loaded h =>
    exact ⟨Tree.identified_run (tree_of_load h), fun c hc => absurd hc List.not_mem_nil⟩
  | @tick t _ e stage ih => exact ⟨ih.1.of_ids (Tree.ids_tick t.tree stage), ih.2⟩
  | @reset t _ e ih => exact ⟨ih.1.of_ids (Tree.ids_reset t.tree), ih.2⟩
  | @touched _ t held id u u' e hf h ih =>
    refine ⟨?_, ih.2⟩
    rcases tree_replace t id u' with he | he
    · rw [he]
      exact ih.1.of_ids (Tree.ids_replace hf h.ids)
    · rw [he]
      exact ih.1
  | cut e h ih =>
    obtain ⟨hchild, hrest⟩ := (h.splits ih.1).identified ih.1
    exact ⟨hrest, List.forall_mem_cons.2 ⟨hchild, ih.2⟩⟩
  | built e h ih => exact ⟨ih.1, List.forall_mem_cons.2 ⟨Tree.identified_run h, ih.2⟩⟩
  | cloned e h ih => exact ⟨ih.1, List.forall_mem_cons.2 ⟨Tree.identified_run h, ih.2⟩⟩
  | grafted e h ih =>
    obtain ⟨hbefore, hrest⟩ := List.forall_mem_append.1 ih.2
    obtain ⟨hchild, hafter⟩ := List.forall_mem_cons.1 hrest
    exact ⟨ih.1.graft hchild (tree_graft h), List.forall_mem_append.2 ⟨hbefore, hafter⟩⟩

/-- After any history all ids are there and distinct. An insertion adds the ids of the subtree to those
of the tree, all of them new. Whatever is taken out is what was found by its id, leaves with its ids,
is found no more, and is never the top. -/
theorem Tended.conserves (e : Tended t held) :
    t.tree.ids.Nodup ∧ (∀ id ∈ t.tree.ids, id ≠ "") ∧
    (∀ child parentId index t', t.graft parentId index child = .ok t' →
      t'.tree.ids.Perm (child.ids ++ t.tree.ids) ∧ child.ids.Disjoint t.tree.ids) ∧
    ∀ id child t', t.Cut id child t' → id ≠ t.tree.id ∧ t.tree.find? id = some child ∧
      t'.tree.find? id = none ∧ t.tree.ids.Perm (child.ids ++ t'.tree.ids) ∧
      child.ids.Disjoint t'.tree.ids ∧ t'.tree.value = t.tree.value := by
  have h := e.identified.1
  refine ⟨h.distinct, h.nonempty, ?_, ?_⟩
  · intro child parentId index t' hg
    exact Tree.ids_graft (tree_graft hg)
  · intro id child t' hc
    have s := hc.splits h
    exact ⟨s.ne_top, s.found, s.gone, s.ids, s.disjoint, s.top⟩

/-- The action is taken out of the sequence and inserted below the root, and is taken out again from
there. -/
theorem conserves_workshop : ∃ (t t' : RootedTree Rehearsal.host) (child : Tree Rehearsal.host),
    Tended t [] ∧ t.tree.ids = ["r", "a", "s"] ∧ t.tree.ids.Nodup ∧ t.Cut "a" child t' ∧
    "a" ≠ t.tree.id ∧ t.tree.find? "a" = some child ∧ t'.tree.find? "a" = none ∧
    t'.tree.ids = ["r", "s"] := by
  obtain ⟨t, hl⟩ : ∃ t, load tools 0 workshop = .ok (t, 0) := ⟨_, rfl⟩
  obtain ⟨s, hf⟩ : ∃ s, t.tree.find? "s" = some s := by
    cases hl
    exact ⟨_, rfl⟩
  obtain ⟨child, s', hr⟩ : ∃ child s', s.removeChild? "a" = some (child, s') := by
    cases hl
    cases hf
    exact ⟨_, _, rfl⟩
  have e : Tended (t.replace "s" s') ([] ++ child :: []) := (Tended.loaded hl).cut (.removed hf hr)
  obtain ⟨t₁, hg⟩ : ∃ t₁, (t.replace "s" s').graft "r" 0 child = .ok t₁ := by
    cases hl
    cases hf
    cases hr
    exact ⟨_, rfl⟩
  obtain ⟨again, t₂, hd⟩ : ∃ again t₂, t₁.detach? "a" = some (again, t₂) := by
    cases hl
    cases hf
    cases hr
    cases hg
    exact ⟨_, _, rfl⟩
  have e₁ : Tended t₁ [] := e.grafted hg
  obtain ⟨hids, -, -, hcut⟩ := e₁.conserves
  obtain ⟨hne, hfound, hgone, -, -, -⟩ := hcut "a" again t₂ (.top hd)
  refine ⟨t₁, t₂, again, e₁, ?_, hids, .top hd, hne, hfound, hgone, ?_⟩
  · cases hl
    cases hf
    cases hr
    cases hg
    rfl
  · cases hl
    cases hf
    cases hr
    cases hg
    cases hd
    rfl

end RootedTree

end Conduct
