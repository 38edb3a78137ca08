import Conduct.Proofs.Loading
import Conduct.Rehearsal.Step

/-! Loading is lossless.

A load changes no more of a record than its empty ids, and what is loaded is loaded from its own record
again. Main statements: `Loading.relabelled_tree` and `Tree.lossless`.
-/

set_option autoImplicit false

namespace Conduct

variable {H : Host}

/-- The one record is the other with other ids, each of which is in a relation to the old one. -/
inductive Record.Relabelled (R : String → String → Prop) : Record → Record → Prop
  | node {e : Entry} {id : String} {rs ss : List Record} (hid : R e.id id)
      (hrs : List.Forall₂ (Relabelled R) rs ss) :
      Relabelled R (.node e rs) (.node { e with id := id } ss)

namespace Loading

variable {l : Loading H} {p : Position} {pool pool' : IdPool} {r : Record} {t : Tree H}

theorem relabelled_trees {R : String → String → Prop} {low high : Nat} {rs : List Record}
    {cs : List (Tree H)} {index : Nat}
    (hrs : ∀ r ∈ rs, ∀ {p : Position} {pool pool' : IdPool} {t : Tree H}, low ≤ pool.next →
      pool'.next ≤ high → l.tree p pool r = .ok (t, pool') → r.Relabelled R t.record)
    (hlow : low ≤ pool.next) (hhigh : pool'.next ≤ high)
    (h : l.trees p index pool rs = .ok (cs, pool')) :
    List.Forall₂ (Record.Relabelled R) rs (cs.map Tree.record) := by
  induction rs generalizing index pool cs with
  | nil =>
    cases h
    exact .nil
  | cons r rs ih =>
    obtain ⟨hr, hrs⟩ := List.forall_mem_cons.1 hrs
    obtain ⟨c, pool₁, cs', hc, hcs, rfl⟩ := trees_cons_eq_ok_iff.1 h
    have hnext : pool.next ≤ pool₁.next := (l.draws r hc).next
    have hnext' : pool₁.next ≤ pool'.next := (takes_trees (fun r _ => l.draws r) hcs).next
    exact .cons (hr hlow (by omega) hc) (ih hrs (by omega) hcs)

/-- A load changes no more of a record than its ids, each to one that is drawn for its entry. -/
theorem relabelled_tree {R : String → String → Prop} {low high : Nat}
    (hR : ∀ (e : Entry) (next : Nat), low ≤ next → (l.idOf e next).2 ≤ high →
      R e.id (l.idOf e next).1)
    (hlow : low ≤ pool.next) (hhigh : pool'.next ≤ high)
    (h : l.tree p pool r = .ok (t, pool')) : r.Relabelled R t.record := by
  induction r using Rose.ofChildren generalizing p pool t pool' with
  | h e rs ih =>
    obtain ⟨n, pool₁, cs, hn, hcs, -, rfl⟩ := tree_eq_ok_iff.1 h
    obtain ⟨kind, b, hkind, -, -, rfl, rfl⟩ := node_eq_ok_iff.1 hn
    have hnext : (l.idOf e pool.next).2 ≤ pool'.next :=
      (takes_trees (fun r _ => l.draws r) hcs).next
    have hentry : (Node.fresh (l.idOf e pool.next).1 kind e.name e.layout e.properties b).entry =
        { e with id := (l.idOf e pool.next).1 } := by
      unfold Node.entry Node.fresh
      rw [Kind.ofTag?_eq_some_iff.1 hkind]
    rw [Tree.record_node, hentry]
    refine .node (hR e pool.next hlow ?_) (relabelled_trees ih ?_ hhigh hcs)
    · exact Nat.le_trans hnext hhigh
    · exact Nat.le_trans hlow (le_idOf l e pool.next)

theorem sizeAll_trees {rs : List Record} {cs : List (Tree H)} {index : Nat}
    (hrs : ∀ r ∈ rs, ∀ {p : Position} {pool pool' : IdPool} {t : Tree H},
      l.tree p pool r = .ok (t, pool') → t.size = r.size)
    (h : l.trees p index pool rs = .ok (cs, pool')) : Rose.sizeAll cs = Rose.sizeAll rs := by
  induction rs generalizing index pool cs with
  | nil =>
    cases h
    rfl
  | cons r rs ih =>
    obtain ⟨hr, hrs⟩ := List.forall_mem_cons.1 hrs
    obtain ⟨c, pool₁, cs', hc, hcs, rfl⟩ := trees_cons_eq_ok_iff.1 h
    rw [Rose.sizeAll, Rose.sizeAll, hr hc, ih hrs hcs]

theorem size_tree (h : l.tree p pool r = .ok (t, pool')) : t.size = r.size := by
  induction r using Rose.ofChildren generalizing p pool t pool' with
  | h e rs ih =>
    obtain ⟨n, pool₁, cs, -, hcs, -, rfl⟩ := tree_eq_ok_iff.1 h
    rw [Rose.size, Rose.size, sizeAll_trees ih hcs]

end Loading

namespace Tree

variable {catalog : Catalog H} {next next' : Nat} {r : Record} {t : Tree H}

/-- What is loaded has the record that it was loaded from, but for fresh ids in the place of empty
ones. Its ids are distinct, it has as many nodes as the record, none of them was ever ticked, and its
own record is loaded as the same tree again. -/
theorem lossless (h : load catalog next r = .ok (t, next')) :
    r.Relabelled (fun old id => (old ≠ "" → id = old) ∧
      (old = "" → ∃ k, next ≤ k ∧ k < next' ∧ id = freshId k)) t.record ∧
    t.ids.Nodup ∧ (∀ id ∈ t.ids, id ≠ "") ∧ t.size = r.count ∧
    (t.Everywhere fun n _ => n.status = .ready ∧ n.tickCount = 0 ∧ n.lastTick = none) ∧
    ∀ again, load catalog again t.record = .ok (t, again) := by
  obtain ⟨⟨u, pool⟩, hu, he⟩ := map_eq_ok h
  cases he
  have hmade := Loading.made_tree hu
  refine ⟨?_, hmade.distinct, hmade.nonempty, Loading.size_tree hu, ?_, ?_⟩
  · refine Loading.relabelled_tree ?_ (Nat.le_refl next) (Nat.le_refl pool.next) hu
    intro e k hlow hhigh
    cases hempty : e.id.isEmpty with
    | true =>
      have hid : e.id = "" := String.isEmpty_iff.1 hempty
      rw [Loading.idOf_empty hempty] at hhigh ⊢
      exact ⟨fun hne => absurd hid hne, fun _ => ⟨k, hlow, hhigh, rfl⟩⟩
    | false =>
      rw [Loading.idOf_given hempty]
      refine ⟨fun _ => rfl, fun hid => ?_⟩
      rw [hid] at hempty
      cases hempty
  · refine hmade.nodes.imp fun n cs hn => ?_
    rw [hn.2.2.1]
    exact ⟨rfl, rfl, rfl⟩
  · intro again
    obtain ⟨used, hload⟩ := hmade.reload [] ⟨[], again⟩ fun _ _ => List.not_mem_nil
    unfold load Loading.run
    rw [hload]
    rfl

section Unnamed

/-- A catalog in which the host builds the actions. -/
def staffed : Catalog Rehearsal.host where
  builders := [(.action, fun _ => .ok (.extension Rehearsal.plain 0))]

def unnamed : Record :=
  .node ⟨"", "Root", "Root", {}, .nil⟩
    [.node ⟨"s", "Sequence", "Sequence", {}, .nil⟩
      [.node ⟨"", "Action", "First", {}, .nil⟩ [], .node ⟨"a", "Action", "Second", {}, .nil⟩ []]]

/-- Two of four nodes get fresh ids, and keep them when the tree is loaded again. -/
theorem lossless_unnamed : ∃ t : Tree Rehearsal.host, load staffed 5 unnamed = .ok (t, 7) ∧
    t.ids = [freshId 5, "s", freshId 6, "a"] ∧ t.ids.Nodup ∧ t.size = 4 ∧
    load staffed 9 t.record = .ok (t, 9) := by
  obtain ⟨t, hl⟩ : ∃ t : Tree Rehearsal.host, load staffed 5 unnamed = .ok (t, 7) := ⟨_, rfl⟩
  obtain ⟨-, hids, -, hsize, -, hagain⟩ := lossless hl
  refine ⟨t, hl, ?_, hids, hsize, hagain 9⟩
  cases hl
  rfl

end Unnamed

end Tree

end Conduct
