import Conduct.Proofs.Foresight
import Conduct.Proofs.Grafting
import Conduct.Proofs.Lossless

/-! Copies of subtrees.

A copy is loaded from the record of a subtree with all ids drawn anew. Whatever was done to the tree,
the load succeeds, since the properties of a node build its behavior and no leaf has children; and the
copy fits in wherever children are allowed. Main statements: `Tree.Loadable.cloned`,
`Tree.copied_of_clone` and `RootedTree.Edited.clones`.
-/

set_option autoImplicit false

namespace Conduct

variable {H : Host} {catalog : Catalog H}

/-! ## Records with other ids -/

theorem Record.Relabelled.ids {R : String → String → Prop} {r s : Record} (h : r.Relabelled R s) :
    ∀ e ∈ s.preorder, ∃ old, R old e.id := by
  induction s using Rose.ofChildren generalizing r with
  | h e ss ih =>
    obtain ⟨hid, hrs⟩ := h
    obtain ⟨hlength, hrs⟩ := List.forall₂_iff_get.1 hrs
    rw [Rose.preorder_node, List.forall_mem_cons, List.forall_mem_flatMap]
    refine ⟨⟨_, hid⟩, fun s hs => ?_⟩
    obtain ⟨i, hi, rfl⟩ := List.mem_iff_getElem.1 hs
    exact ih _ hs (hrs i (hlength ▸ hi) hi)

/-! ## Loading with fresh ids -/

/-- Every id in the pool was drawn as a fresh one. -/
def IdPool.Drawn (pool : IdPool) : Prop := ∀ id ∈ pool.used, ∃ k, k < pool.next ∧ id = freshId k

theorem IdPool.Drawn.fresh_not_mem {pool : IdPool} (h : pool.Drawn) :
    freshId pool.next ∉ pool.used := by
  intro hmem
  obtain ⟨k, hk, he⟩ := h _ hmem
  have := freshId_injective he
  omega

namespace Loading

variable {pool : IdPool} {n : Node H} {cs : List (Tree H)} {t : Tree H}

/-- Wherever only fresh ids were drawn, a copy of the tree is loaded, and again only fresh ids are
drawn. -/
def Copies (catalog : Catalog H) (t : Tree H) : Prop :=
  ∀ (p : Position) {pool : IdPool}, pool.Drawn → ∃ c pool',
    tree ⟨catalog, true⟩ p pool t.record = .ok (c, pool') ∧ pool'.Drawn

theorem copies_node (hn : Tree.Buildable catalog n cs) (h : pool.Drawn) (p : Position) :
    ∃ pool', node ⟨catalog, true⟩ p n.entry pool =
      .ok (.fresh (freshId pool.next) n.kind n.name n.layout n.properties n.behavior.anew, pool') ∧
        pool'.Drawn := by
  refine ⟨⟨freshId pool.next :: pool.used, pool.next + 1⟩, ?_, ?_⟩
  · exact node_eq_ok_iff.2
      ⟨n.kind, n.behavior.anew, Kind.ofTag?_tag n.kind, hn.2.1, h.fresh_not_mem, rfl, rfl⟩
  · intro id hid
    rcases List.mem_cons.1 hid with rfl | hid
    · exact ⟨pool.next, Nat.lt_succ_self _, rfl⟩
    · obtain ⟨k, hk, he⟩ := h id hid
      exact ⟨k, Nat.lt_succ_of_lt hk, he⟩

theorem copies_trees (hcs : ∀ c ∈ cs, Copies catalog c) (h : pool.Drawn) (p : Position)
    (index : Nat) : ∃ ds pool', trees ⟨catalog, true⟩ p index pool (cs.map Tree.record) =
      .ok (ds, pool') ∧ pool'.Drawn := by
  induction cs generalizing pool index with
  | nil => exact ⟨[], pool, rfl, h⟩
  | cons c cs ih =>
    obtain ⟨hc, hcs⟩ := List.forall_mem_cons.1 hcs
    obtain ⟨d, pool₁, hd, h₁⟩ := hc (p.child index) h
    obtain ⟨ds, pool', hds, h'⟩ := ih hcs h₁ (index + 1)
    exact ⟨d :: ds, pool', trees_cons_eq_ok_iff.2 ⟨d, pool₁, ds, hd, hds, rfl⟩, h'⟩

theorem copies_tree (h : t.Everywhere (Tree.Buildable catalog)) : Copies catalog t := by
  induction t using Rose.ofChildren with
  | h n cs ih =>
    intro p pool hdrawn
    obtain ⟨hn, hcs⟩ := Rose.everywhere_node.1 h
    obtain ⟨pool₁, hnode, h₁⟩ := copies_node hn hdrawn p
    obtain ⟨ds, pool', hds, h'⟩ := copies_trees (fun c hc => ih c hc (hcs c hc)) h₁ p 0
    have hleaf : n.behavior.anew.limit.isClosed = true → cs.map Tree.record = [] := by
      rw [Behavior.limit_anew, List.map_eq_nil_iff]
      exact hn.2.2
    have htree := tree_eq_ok_iff.2 ⟨_, pool₁, ds, hnode, hds, hleaf, rfl⟩
    rw [← Tree.record_node] at htree
    exact ⟨_, pool', htree, h'⟩

end Loading

namespace Tree

variable {t u c : Tree H} {next next' : Nat}

/-- What a copy of a tree is. -/
structure Copied (catalog : Catalog H) (next : Nat) (u c : Tree H) (next' : Nat) : Prop where
  /-- The record is the same but for the ids, all of which are fresh. -/
  relabelled : u.record.Relabelled (fun _ id => ∃ k, next ≤ k ∧ k < next' ∧ id = freshId k) c.record
  distinct : c.ids.Nodup
  /-- No node was ever ticked, and its behavior is as it is built from its properties. -/
  unticked : c.Everywhere fun n _ => n.status = .ready ∧ n.tickCount = 0 ∧ n.lastTick = none ∧
    catalog.build n.kind n.properties = .ok n.behavior ∧ n.behavior.anew = n.behavior

theorem copied_of_clone (hc : catalog.builders = []) (h : clone catalog next u = .ok (c, next')) :
    Copied catalog next u c next' := by
  obtain ⟨⟨c', pool⟩, hload, he⟩ := map_eq_ok h
  cases he
  have hmade := Loading.made_tree hload
  refine ⟨?_, hmade.distinct, hmade.nodes.imp ?_⟩
  · refine Loading.relabelled_tree ?_ (Nat.le_refl next) (Nat.le_refl pool.next) hload
    exact fun e k hlow hhigh => ⟨k, hlow, hhigh, rfl⟩
  · rintro n cs ⟨-, hbuild, hfresh, -⟩
    have hanew := (Catalog.build_anew hc hbuild).1
    rw [hfresh]
    exact ⟨rfl, rfl, rfl, hbuild, hanew⟩

theorem Copied.fresh (h : Copied catalog next u c next') :
    ∀ id ∈ c.ids, ∃ k, next ≤ k ∧ id = freshId k := by
  intro id hid
  obtain ⟨n, hn, rfl⟩ := List.mem_map.1 hid
  have hentry : n.entry ∈ c.record.preorder := by
    unfold record
    rw [Rose.preorder_map]
    exact List.mem_map_of_mem hn
  obtain ⟨-, k, hk, -, he⟩ := h.relabelled.ids _ hentry
  exact ⟨k, hk, he⟩

/-- Wherever it is in a loadable tree, a subtree has a copy. -/
theorem Loadable.cloned {q : Position} (h : Loadable catalog t) (hq : t.at? q = some u)
    (next : Nat) : ∃ c next', clone catalog next u = .ok (c, next') := by
  have hempty : IdPool.Drawn ⟨[], next⟩ := fun _ hid => absurd hid List.not_mem_nil
  obtain ⟨c, pool', hload, -⟩ := Loading.copies_tree (h.buildable.at? hq) [] hempty
  refine ⟨c, pool'.next, ?_⟩
  unfold clone Loading.run
  rw [hload]
  rfl

theorem Copied.disjoint (h : Copied catalog next u c next')
    (hfresh : ∀ id ∈ t.ids, ∀ k, next ≤ k → id ≠ freshId k) : c.ids.Disjoint t.ids := by
  intro id hid hidt
  obtain ⟨k, hk, he⟩ := h.fresh id hid
  exact hfresh id hidt k hk he

end Tree

namespace RootedTree

variable {t : RootedTree H} {held : List (Tree H)}

/-- Whatever was done to a loaded tree, each of its subtrees has a copy, which goes in below any node
but a leaf; and when it is taken out again, the tree is as it was. -/
theorem Edited.clones (hc : catalog.builders = []) (e : Edited catalog t held) {next : Nat}
    (hfresh : ∀ id ∈ t.tree.ids, ∀ k, next ≤ k → id ≠ freshId k) {q : Position} {u : Tree H}
    (hq : t.tree.at? q = some u) :
    ∃ c next', Tree.clone catalog next u = .ok (c, next') ∧ Tree.Copied catalog next u c next' ∧
      c.ids.Disjoint t.tree.ids ∧
      ∀ parentId parent index, t.tree.find? parentId = some parent → parent.kind.isLeaf = false →
        ∃ t', t.graft parentId index c = .ok t' ∧ t'.detach? c.id = some (c, t) := by
  have hloadable := (e.loadable hc).1
  obtain ⟨c, next', hclone⟩ := hloadable.cloned hq next
  have hcopied := Tree.copied_of_clone hc hclone
  refine ⟨c, next', hclone, hcopied, hcopied.disjoint hfresh, ?_⟩
  rintro parentId ⟨n, cs⟩ index hf hleaf
  obtain ⟨p, hp⟩ := Tree.exists_at?_of_find? hf
  have hl : n.behavior.limit ≠ .finite 0 := by
    rw [ne_eq, Behavior.limit_eq_zero_iff ((hloadable.proper hc).at? hp).1, ← Kind.isLeaf_iff]
    exact Bool.eq_false_iff.1 hleaf
  have hdisjoint := hcopied.disjoint hfresh
  obtain ⟨t', hgraft, -⟩ :=
    graft_of_tree (Tree.graft_eq_ok_iff.2 ⟨hdisjoint, _, hf, hl, rfl⟩)
  have hdetach := Tree.detach?_of_graft (tree_graft hgraft) hloadable.distinct hcopied.distinct
  obtain ⟨back, hback, he⟩ := detach?_of_tree hdetach
  exact ⟨t', hgraft, eq_of_tree he ▸ hback⟩

section Workshop

open Rehearsal (clock)

/-- A running sequence is copied, and gets the copy as a child of its own. -/
theorem clones_workshop :
    ∃ t u c t', Edited tools t [] ∧ t.tree.at? [0] = some u ∧ u.value.status = .running ∧
      Tree.clone tools 0 u = .ok (c, 2) ∧ c.ids = [freshId 0, freshId 1] ∧
      c.value.status = .ready ∧ t.graft "s" 1 c = .ok t' ∧ t'.detach? c.id = some (c, t) := by
  obtain ⟨t, hl⟩ : ∃ t, load tools 0 workshop = .ok (t, 0) := ⟨_, rfl⟩
  have e : Edited tools (t.tick (clock 0)).state [] := (Edited.loaded hl).tick (clock 0)
  have hids : (t.tick (clock 0)).state.tree.ids = ["r", "s", "a"] := by
    cases hl
    rfl
  have hfresh : ∀ id ∈ (t.tick (clock 0)).state.tree.ids, ∀ k, 0 ≤ k → id ≠ freshId k := by
    intro id hid k _
    apply ne_freshId_of_length_lt
    rw [hids] at hid
    revert id
    decide
  obtain ⟨u, hq, hf, hkind, hrunning⟩ : ∃ u, (t.tick (clock 0)).state.tree.at? [0] = some u ∧
      (t.tick (clock 0)).state.tree.find? "s" = some u ∧ u.value.kind.isLeaf = false ∧
        u.value.status = .running := by
    cases hl
    exact ⟨_, rfl, rfl, rfl, rfl⟩
  obtain ⟨c, next', hclone, -, -, hgraft⟩ := e.clones rfl hfresh hq
  obtain ⟨t', hg, hd⟩ := hgraft "s" u 1 hf hkind
  obtain ⟨rfl, hcids, hready⟩ : next' = 2 ∧ c.ids = [freshId 0, freshId 1] ∧
      c.value.status = .ready := by
    cases hl
    cases hq
    cases hclone
    exact ⟨rfl, rfl, rfl⟩
  exact ⟨_, u, c, t', e, hq, hrunning, hclone, hcids, hready, hg, hd⟩

end Workshop

end RootedTree

end Conduct
