import Conduct.Proofs.CleanRuns
import Conduct.Proofs.Reload.Loadable

/-! A reset is as good as a reload.

Whatever was done to a loaded tree, its record can be loaded again, and what is loaded then is the tree
after a reset, apart from the accounts of its nodes and the states of its generators. Main statement:
`RootedTree.Edited.reloads`.
-/

set_option autoImplicit false

namespace Conduct

variable {H : Host} {catalog : Catalog H}

namespace Tree

variable {t u : Tree H}

/-! ## Loading the record of a tree -/

/-- Wherever its ids are new, the record of a tree is loaded as what the tree was built from. -/
def Reloads (catalog : Catalog H) (t : Tree H) : Prop :=
  ∀ (p : Position) (pool : IdPool), (∀ id ∈ t.ids, id ∉ pool.used) →
    ∃ used, Loading.tree ⟨catalog, false⟩ p pool t.record = .ok (t.anew, ⟨used, pool.next⟩) ∧
      ∀ id ∈ used, id ∈ t.ids ∨ id ∈ pool.used

theorem Loadable.reloaded (h : Loadable catalog t) : Reloads catalog t := by
  intro p pool hnew
  rw [← ids_anew] at hnew ⊢
  obtain ⟨used, htree⟩ := h.made_anew.reload p pool hnew
  have htakes := Loading.draws _ _ htree
  rw [record_anew] at htree
  exact ⟨used, htree, fun id hid => (htakes.used id).1 hid⟩

/-! ## Changes of a subtree in its place -/

/-- A subtree is ticked, reset, or changed at its top. -/
inductive Touched (catalog : Catalog H) (t : Tree H) : Tree H → Prop
  | ticked (stage : Stage H) : Touched catalog t (tick t stage).state
  | reset : Touched catalog t t.reset
  | cleared : Touched catalog t t.clearStats
  | properties {properties : Properties} {u : Tree H}
      (h : t.setProperties catalog properties = .ok u) : Touched catalog t u
  | property {key : String} {value : Json} {u : Tree H}
      (h : t.setProperty catalog key value = .ok u) : Touched catalog t u
  | named (name : String) : Touched catalog t (t.changeTop fun n => { n with name := name })
  | placed (layout : Layout) : Touched catalog t (t.changeTop fun n => { n with layout := layout })

theorem Touched.ids (h : Touched catalog t u) : u.ids = t.ids := by
  cases h with
  | ticked stage => exact ids_tick t stage
  | reset => exact ids_reset t
  | cleared => exact ids_clearStats t
  | properties hs => exact ids_setProperties hs
  | property hs => exact ids_setProperties hs
  | named name => exact ids_changeTop rfl
  | placed layout => exact ids_changeTop rfl

theorem Touched.loadable (hc : catalog.builders = []) (h : Loadable catalog t)
    (ht : Touched catalog t u) : Loadable catalog u := by
  cases ht with
  | ticked stage => exact h.tick stage
  | reset => exact h.reset
  | cleared => exact h.clearStats
  | properties hs => exact h.setProperties hc hs
  | property hs => exact h.setProperties hc hs
  | named name => exact h.changeTop rfl rfl rfl rfl
  | placed layout => exact h.changeTop rfl rfl rfl rfl

end Tree

/-- The node apart from the account of its ticks and the state of its generator. -/
def Node.uncounted (n : Node H) : Node H := { n.bare with status := n.status }

theorem Node.uncounted_reset {n : Node H} (hk : n.behavior.kind? ≠ none) :
    n.reset.uncounted = n.anew := by
  have hk' : n.reset.behavior.kind? ≠ none := by
    rw [← Behavior.kind?_anew] at hk ⊢
    rwa [reset, Behavior.anew_reset]
  have hbare := bare_eq_anew hk' n.behavior.reset_reset
  unfold uncounted
  rw [hbare]
  simp only [anew, reset, Behavior.anew_reset]
  rfl

theorem Node.uncounted_anew (n : Node H) : n.anew.uncounted = n.anew := by
  obtain ⟨id, kind, name, layout, properties, behavior, status, tickCount, lastTick⟩ := n
  cases behavior <;> rfl

namespace RootedTree

variable {t t' : RootedTree H} {held : List (Tree H)}

/-! ## Histories -/

/-- What comes of a loaded tree by ticks, resets and edits, and the subtrees that are held outside of
it: those that were taken out of it, loaded or cloned. -/
inductive Edited (catalog : Catalog H) : RootedTree H → List (Tree H) → Prop
  | loaded {next next' : Nat} {r : Record} {t : RootedTree H}
      (h : load catalog next r = .ok (t, next')) : Edited catalog t []
  | tick {t : RootedTree H} {held : List (Tree H)} (e : Edited catalog t held) (stage : Stage H) :
      Edited catalog (t.tick stage).state held
  | reset {t : RootedTree H} {held : List (Tree H)} (e : Edited catalog t held) :
      Edited catalog t.reset held
  | clearStats {t : RootedTree H} {held : List (Tree H)} (e : Edited catalog t held) :
      Edited catalog t.clearStats held
  | touched {t : RootedTree H} {held : List (Tree H)} {id : String} {u u' : Tree H}
      (e : Edited catalog t held) (hf : t.tree.find? id = some u) (h : u.Touched catalog u') :
      Edited catalog (t.replace id u') held
  | removed {t : RootedTree H} {held : List (Tree H)} {parentId id : String} {u u' child : Tree H}
      (e : Edited catalog t held) (hf : t.tree.find? parentId = some u)
      (h : u.removeChild? id = some (child, u')) :
      Edited catalog (t.replace parentId u') (child :: held)
  | detached {t t' : RootedTree H} {held : List (Tree H)} {id : String} {child : Tree H}
      (e : Edited catalog t held) (h : t.detach? id = some (child, t')) :
      Edited catalog t' (child :: held)
  | built {t : RootedTree H} {held : List (Tree H)} {next next' : Nat} {r : Record} {child : Tree H}
      (e : Edited catalog t held) (h : Tree.load catalog next r = .ok (child, next')) :
      Edited catalog t (child :: held)
  | cloned {t : RootedTree H} {held : List (Tree H)} {next next' : Nat} {u child : Tree H}
      (e : Edited catalog t held) (h : Tree.clone catalog next u = .ok (child, next')) :
      Edited catalog t (child :: held)
  | grafted {t t' : RootedTree H} {before after : List (Tree H)} {child : Tree H}
      {parentId : String} {index : Nat} (e : Edited catalog t (before ++ child :: after))
      (h : t.graft parentId index child = .ok t') : Edited catalog t' (before ++ after)

theorem tree_replace (t : RootedTree H) (id : String) (new : Tree H) :
    (t.replace id new).tree = t.tree.replace id new ∨ (t.replace id new).tree = t.tree := by
  unfold replace
  dsimp only
  split
  · exact .inl rfl
  · exact .inr rfl

theorem tree_graft {parentId : String} {index : Nat} {child : Tree H}
    (h : t.graft parentId index child = .ok t') :
    t.tree.graft parentId index child = .ok t'.tree := by
  unfold graft at h
  split at h
  · next hg =>
    cases h
    exact hg
  · cases h

theorem tree_detach? {id : String} {child : Tree H} (h : t.detach? id = some (child, t')) :
    t.tree.detach? id = some (child, t'.tree) := by
  unfold detach? at h
  split at h
  · next hd =>
    cases h
    exact hd
  · cases h

/-- A loadable subtree takes the place of one that had all its ids. -/
theorem loadable_replace {id : String} {u u' : Tree H} (h : t.tree.Loadable catalog)
    (hf : t.tree.find? id = some u) (hu : u'.Loadable catalog) (hids : ∀ id ∈ u'.ids, id ∈ u.ids) :
    (t.replace id u').tree.Loadable catalog := by
  rcases tree_replace t id u' with he | he
  · rw [he]
    exact h.exchange (Rose.exchanged_replace t.tree hf) hu fun id hid => .inl (hids id hid)
  · rw [he]
    exact h

theorem Edited.loadable (hc : catalog.builders = []) (e : Edited catalog t held) :
    t.tree.Loadable catalog ∧ ∀ c ∈ held, Tree.Loadable catalog c := by
  induction e with
  | loaded h => exact ⟨Tree.loadable_run hc (tree_of_load h), fun c hc => absurd hc List.not_mem_nil⟩
  | tick e stage ih => exact ⟨ih.1.tick stage, ih.2⟩
  | reset e ih => exact ⟨ih.1.reset, ih.2⟩
  | clearStats e ih => exact ⟨ih.1.clearStats, ih.2⟩
  | touched e hf h ih =>
    have hu := h.loadable hc (ih.1.find? hf)
    exact ⟨loadable_replace ih.1 hf hu fun id hid => h.ids ▸ hid, ih.2⟩
  | removed e hf h ih =>
    obtain ⟨hu, hchild, hids⟩ := (ih.1.find? hf).removeChild? h
    exact ⟨loadable_replace ih.1 hf hu hids, List.forall_mem_cons.2 ⟨hchild, ih.2⟩⟩
  | detached e h ih =>
    obtain ⟨hchild, hrest⟩ := ih.1.detach? (tree_detach? h)
    exact ⟨hrest, List.forall_mem_cons.2 ⟨hchild, ih.2⟩⟩
  | built e h ih => exact ⟨ih.1, List.forall_mem_cons.2 ⟨Tree.loadable_run hc h, ih.2⟩⟩
  | cloned e h ih => exact ⟨ih.1, List.forall_mem_cons.2 ⟨Tree.loadable_run hc h, ih.2⟩⟩
  | grafted e h ih =>
    obtain ⟨hbefore, hrest⟩ := List.forall_mem_append.1 ih.2
    obtain ⟨hchild, hafter⟩ := List.forall_mem_cons.1 hrest
    exact ⟨ih.1.graft hchild (tree_graft h), List.forall_mem_append.2 ⟨hbefore, hafter⟩⟩

/-- The record of a loadable tree is loaded as what the tree was built from. -/
theorem load_record (h : t.tree.Loadable catalog) (next : Nat) :
    ∃ u, load catalog next t.tree.record = .ok (u, next) ∧ u.tree = t.tree.anew := by
  obtain ⟨used, htree, -⟩ := h.reloaded [] ⟨[], next⟩ fun _ _ => List.not_mem_nil
  have hroot : t.tree.anew.kind = .root := by
    obtain ⟨⟨n, cs⟩, hroot⟩ := t
    rw [Tree.anew_node]
    exact hroot
  have htag : Kind.ofTag? t.tree.record.value.tag = some .root := by
    obtain ⟨⟨n, cs⟩, hroot⟩ := t
    rw [Tree.record_node]
    exact (Kind.ofTag?_tag n.kind).trans (congrArg some hroot)
  refine ⟨⟨t.tree.anew, hroot⟩, ?_, rfl⟩
  unfold load
  rw [if_pos htag]
  simp only [Tree.load, Loading.run, htree, Except.map, bind, Except.bind, ofTree, hroot, dif_pos]

/-- Ticks, resets and clearing the accounts leave the record of a tree alone. After any history the
record can be loaded, and apart from the accounts of the nodes and the states of the generators it
gives the tree as a reset leaves it. -/
theorem Edited.reloads (hc : catalog.builders = []) (e : Edited catalog t held) :
    (∀ stage, (t.tick stage).state.tree.record = t.tree.record) ∧
    t.reset.tree.record = t.tree.record ∧ t.clearStats.tree.record = t.tree.record ∧
    ∀ next, ∃ u, load catalog next t.tree.record = .ok (u, next) ∧
      Rose.map Node.uncounted u.tree = Rose.map Node.uncounted t.reset.tree := by
  have hloadable := (e.loadable hc).1
  refine ⟨t.tree.record_tick, t.tree.record_reset, Rose.map_map _ _ _, ?_⟩
  intro next
  obtain ⟨u, hu, htree⟩ := load_record hloadable next
  refine ⟨u, hu, ?_⟩
  have hkinds : t.tree.Everywhere fun n _ => n.reset.uncounted = n.anew := by
    refine hloadable.buildable.imp fun n cs hn => Node.uncounted_reset ?_
    have hkind := (Catalog.build_anew hc hn.2.1).2
    rw [Behavior.kind?_anew] at hkind
    rw [hkind]
    exact Option.some_ne_none n.kind
  have hreset : Rose.map Node.uncounted t.reset.tree = t.tree.anew := by
    have hmap := Rose.map_map Node.uncounted Node.reset t.tree
    exact hmap.trans (Rose.map_congr hkinds)
  have hanew : Rose.map Node.uncounted t.tree.anew = t.tree.anew := by
    have hmap := Rose.map_map Node.uncounted Node.anew t.tree
    exact hmap.trans (congrArg (fun f => Rose.map f t.tree) (funext Node.uncounted_anew))
  rw [htree, hreset, hanew]

section Workshop

open Rehearsal (clock)

/-- A catalog with one script, which is never done. -/
def tools : Catalog Rehearsal.host where
  actions := Dict.From.insert .nil "work" fun _ scene => (.value .running, scene)

/-- A root above a sequence above an action with that script. -/
def workshop : Record :=
  .node ⟨"r", "Root", "Root", {}, .nil⟩
    [.node ⟨"s", "Sequence", "Sequence", {}, .nil⟩
      [.node ⟨"a", "Action", "Work", {}, Dict.From.insert .nil "script" (.str "work")⟩ []]]

/-- The action is running when it is taken out, and the sequence gets it back after an edit of its
own. -/
theorem reloads_workshop :
    ∃ t held, Edited tools t held ∧ t.tree.ids = ["r", "s", "a"] ∧
      (∃ c, t.tree.find? "a" = some c ∧ c.value.status = .running) ∧
      ∃ u, load tools 0 t.tree.record = .ok (u, 0) ∧
        Rose.map Node.uncounted u.tree = Rose.map Node.uncounted t.reset.tree := by
  obtain ⟨t, hl⟩ : ∃ t, load tools 0 workshop = .ok (t, 0) := ⟨_, rfl⟩
  have e : Edited tools (t.tick (clock 0)).state [] := (Edited.loaded hl).tick (clock 0)
  obtain ⟨child, t₁, hd⟩ : ∃ child t₁, (t.tick (clock 0)).state.detach? "a" = some (child, t₁) := by
    cases hl
    exact ⟨_, _, rfl⟩
  have e₁ := e.detached hd
  obtain ⟨s, hf⟩ : ∃ s, t₁.tree.find? "s" = some s := by
    cases hl
    cases hd
    exact ⟨_, rfl⟩
  obtain ⟨s', hs⟩ : ∃ s', s.setProperty tools "abortOnFailure" (.bool false) = .ok s' := by
    cases hl
    cases hd
    cases hf
    exact ⟨_, rfl⟩
  have e₂ : Edited tools (t₁.replace "s" s') ([] ++ child :: []) := e₁.touched hf (.property hs)
  obtain ⟨t₃, hg⟩ : ∃ t₃, (t₁.replace "s" s').graft "s" 0 child = .ok t₃ := by
    cases hl
    cases hd
    cases hf
    cases hs
    exact ⟨_, rfl⟩
  have e₃ : Edited tools t₃ [] := e₂.grafted hg
  obtain ⟨-, -, -, hreload⟩ := e₃.reloads rfl
  refine ⟨t₃, [], e₃, ?_, ?_, hreload 0⟩
  · cases hl
    cases hd
    cases hf
    cases hs
    cases hg
    rfl
  · cases hl
    cases hd
    cases hf
    cases hs
    cases hg
    exact ⟨_, rfl, rfl⟩

end Workshop

end RootedTree

end Conduct
