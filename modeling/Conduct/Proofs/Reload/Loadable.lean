import Conduct.Proofs.Building

/-! Trees that can be loaded from their records.

In a loadable tree every node is what the catalog builds from its properties, apart from its runs and
its account, all ids are there and distinct, and no node has children that it does not allow. Loading
makes such trees, and every edit keeps them. Main statements: `Loadable.graft`, `Loadable.detach?`,
`Loadable.setProperties` and `loadable_run`.
-/

set_option autoImplicit false

namespace Conduct

variable {H : Host} {catalog : Catalog H}

theorem Behavior.limit_anew (b : Behavior H) : b.anew.limit = b.limit := by cases b <;> rfl

namespace Tree

variable {t u parent child found rest grown : Tree H} {n : Node H} {cs ds : List (Tree H)}

/-- An exchange of subtrees keeps ids distinct, if the new ones are those of the old subtree or are
new to the tree. -/
theorem nodup_of_exchanged {old new : Tree H} (h : Rose.Exchanged old new t u) (ht : t.ids.Nodup)
    (hnew : new.ids.Nodup) (hids : ∀ id ∈ new.ids, id ∈ old.ids ∨ id ∉ t.ids) : u.ids.Nodup := by
  obtain ⟨before, after, htids, huids⟩ := exists_ids_of_exchanged h
  rw [htids] at ht hids
  rw [huids]
  simp only [List.nodup_append, List.mem_append] at ht ⊢
  obtain ⟨⟨hbefore, -, hbo⟩, hafter, hba⟩ := ht
  refine ⟨⟨hbefore, hnew, ?_⟩, hafter, ?_⟩
  · intro a ha b hb he
    subst he
    rcases hids a hb with hold | hout
    · exact hbo a ha a hold rfl
    · exact hout (by simp [ha])
  · rintro a (ha | ha) b hb he
    · exact hba a (.inl ha) b hb he
    · subst he
      rcases hids a ha with hold | hout
      · exact hba a (.inr hold) a hb rfl
      · exact hout (by simp [hb])

/-! ## Loadable trees -/

/-- A node is what the catalog builds from its properties, apart from its runs and its account, and
it has no children where none are allowed. -/
def Buildable (catalog : Catalog H) (n : Node H) (cs : List (Tree H)) : Prop :=
  n.id.isEmpty = false ∧ catalog.build n.kind n.properties = .ok n.behavior.anew ∧
    (n.behavior.limit.isClosed = true → cs = [])

/-- A tree that can be loaded from its record. -/
structure Loadable (catalog : Catalog H) (t : Tree H) : Prop where
  distinct : t.ids.Nodup
  buildable : t.Everywhere (Buildable catalog)

theorem Buildable.resize (hn : Buildable catalog n cs) (hl : cs.length = ds.length) :
    Buildable catalog n ds := by
  obtain ⟨hid, hbuild, hclosed⟩ := hn
  refine ⟨hid, hbuild, fun hc => ?_⟩
  rw [hclosed hc, List.length_nil] at hl
  exact List.eq_nil_of_length_eq_zero hl.symm

theorem loadable_anew : Loadable catalog t.anew ↔ Loadable catalog t := by
  have hnode : ∀ n cs, Buildable catalog n.anew (cs.map anew) ↔ Buildable catalog n cs := by
    intro n cs
    have hanew : n.behavior.anew.anew = n.behavior.anew := by cases n.behavior <;> rfl
    unfold Buildable
    simp only [Node.anew, Node.fresh, hanew, Behavior.limit_anew, List.map_eq_nil_iff]
  have hall : t.anew.Everywhere (Buildable catalog) ↔ t.Everywhere (Buildable catalog) := by
    unfold anew
    rw [Rose.everywhere_map]
    constructor
    · exact Rose.Everywhere.imp fun n cs hn => (hnode n cs).1 hn
    · exact Rose.Everywhere.imp fun n cs hn => (hnode n cs).2 hn
  constructor
  · rintro ⟨hids, hbuild⟩
    exact ⟨ids_anew t ▸ hids, hall.1 hbuild⟩
  · rintro ⟨hids, hbuild⟩
    exact ⟨(ids_anew t).symm ▸ hids, hall.2 hbuild⟩

theorem Loadable.tick (h : Loadable catalog t) (stage : Stage H) :
    Loadable catalog (tick t stage).state := by
  rwa [← loadable_anew, anew_tick, loadable_anew]

theorem Loadable.reset (h : Loadable catalog t) : Loadable catalog t.reset := by
  rwa [← loadable_anew, anew_reset, loadable_anew]

theorem Loadable.clearStats (h : Loadable catalog t) : Loadable catalog t.clearStats := by
  rwa [← loadable_anew, anew_clearStats, loadable_anew]

theorem Loadable.made_anew (h : Loadable catalog t) : Made catalog t.anew := by
  refine ⟨(ids_anew t).symm ▸ h.distinct, ?_⟩
  unfold anew
  rw [Rose.everywhere_map]
  refine h.buildable.imp ?_
  rintro n cs ⟨hid, hbuild, hclosed⟩
  refine ⟨hid, hbuild, rfl, ?_⟩
  rw [Node.anew, Node.fresh, Behavior.limit_anew, List.map_eq_nil_iff]
  exact hclosed

/-! ## Edits -/

/-- A loadable subtree in the place of another one. -/
theorem Loadable.exchange {old new : Tree H} (h : Loadable catalog t)
    (he : Rose.Exchanged old new t u) (hnew : Loadable catalog new)
    (hids : ∀ id ∈ new.ids, id ∈ old.ids ∨ id ∉ t.ids) : Loadable catalog u where
  distinct := nodup_of_exchanged he h.distinct hnew.distinct hids
  buildable := he.everywhere (fun _ _ _ hl hn => hn.resize hl) h.buildable hnew.buildable

theorem Loadable.of_exchanged {old new : Tree H} (h : Loadable catalog t)
    (he : Rose.Exchanged old new t u) : Loadable catalog old := by
  refine ⟨?_, he.everywhere_old h.buildable⟩
  obtain ⟨before, after, hids, -⟩ := exists_ids_of_exchanged he
  have hdistinct := h.distinct
  rw [hids] at hdistinct
  exact (List.nodup_append.1 (List.nodup_append.1 hdistinct).1).2.1

theorem Loadable.find? {id : String} (h : Loadable catalog t) (hf : t.find? id = some found) :
    Loadable catalog found := by
  have he : Rose.Exchanged found found t (t.replace id found) := Rose.exchanged_replace t hf
  exact h.of_exchanged he

/-- Other children below the top. -/
theorem Loadable.withChildren (h : Loadable catalog (.node n cs)) (hids : (ids (.node n ds)).Nodup)
    (hc : n.behavior.limit.isClosed = true → ds = []) (hds : ∀ d ∈ ds, Loadable catalog d) :
    Loadable catalog (.node n ds) := by
  obtain ⟨⟨hid, hbuild, -⟩, -⟩ := Rose.everywhere_node.1 h.buildable
  exact ⟨hids, Rose.everywhere_node.2 ⟨⟨hid, hbuild, hc⟩, fun d hd => (hds d hd).buildable⟩⟩

theorem Loadable.of_mem (h : Loadable catalog (.node n cs)) {c : Tree H} (hc : c ∈ cs) :
    Loadable catalog c :=
  ⟨nodup_ids_of_mem h.distinct hc, (Rose.everywhere_node.1 h.buildable).2 c hc⟩

theorem Loadable.insertChild {index : Nat} (hp : Loadable catalog parent)
    (hc : Loadable catalog child) (h : parent.insertChild index child = .ok grown) :
    Loadable catalog grown := by
  have hperm := ids_insertChild h
  obtain ⟨n, cs⟩ := parent
  obtain ⟨hopen, hdistinct, rfl⟩ := insertChild_eq_ok_iff.1 h
  refine hp.withChildren (hperm.nodup_iff.2 ?_) (fun hclosed => ?_) ?_
  · exact List.nodup_append'.2 ⟨hc.distinct, hp.distinct, hdistinct⟩
  · rw [show n.behavior.limit.isClosed = false from hopen] at hclosed
    cases hclosed
  · intro d hd
    rcases List.mem_append.1 hd with hd | hd
    · exact hp.of_mem (List.mem_of_mem_take hd)
    · rcases List.mem_cons.1 hd with rfl | hd
      · exact hc
      · exact hp.of_mem (List.mem_of_mem_drop hd)

theorem Loadable.graft {parentId : String} {index : Nat} (ht : Loadable catalog t)
    (hc : Loadable catalog child) (h : t.graft parentId index child = .ok grown) :
    Loadable catalog grown := by
  obtain ⟨hnew, parent, parent', hf, hi, rfl⟩ := graft_eq_ok h
  refine ht.exchange (Rose.exchanged_replace t hf) ((ht.find? hf).insertChild hc hi) ?_
  intro id hid
  rcases List.mem_append.1 ((ids_insertChild hi).mem_iff.1 hid) with hid | hid
  · exact .inr (hnew id hid)
  · exact .inl hid

/-- The parent of a child that is taken out. -/
theorem Loadable.removed {before after : List (Tree H)}
    (h : Loadable catalog (.node n (before ++ child :: after))) :
    Loadable catalog (.node n (before ++ after)) ∧ Loadable catalog child := by
  have hsub : (before ++ after).Sublist (before ++ child :: after) :=
    (List.Sublist.refl before).append (List.sublist_cons_self child after)
  refine ⟨h.withChildren ?_ ?_ ?_, h.of_mem (by simp)⟩
  · have hids := h.distinct
    rw [ids_node] at hids ⊢
    exact hids.sublist ((hsub.flatMap ids).cons_cons n.id)
  · intro hclosed
    have hnil := (Rose.everywhere_node.1 h.buildable).1.2.2 hclosed
    simp at hnil
  · exact fun d hd => h.of_mem (hsub.subset hd)

theorem Loadable.removeChild? {id : String} (h : Loadable catalog t)
    (hr : t.removeChild? id = some (child, rest)) :
    Loadable catalog rest ∧ Loadable catalog child ∧ ∀ id ∈ rest.ids, id ∈ t.ids := by
  obtain ⟨n, cs⟩ := t
  obtain ⟨⟨found, ds⟩, hd, he⟩ := Option.map_eq_some_iff.1 hr
  cases he
  obtain ⟨-, before, after, hcs, rfl⟩ := Rose.takeFirst?_eq_some hd
  obtain rfl : cs = before ++ child :: after := hcs
  obtain ⟨hrest, hchild⟩ := h.removed
  exact ⟨hrest, hchild, fun id hid => (ids_removed n before after child).mem_iff.2
    (List.mem_append_right _ hid)⟩

theorem Loadable.detach? {id : String} (h : Loadable catalog t)
    (hd : t.detach? id = some (found, rest)) : Loadable catalog found ∧ Loadable catalog rest := by
  obtain ⟨-, n, before, after, he⟩ := Rose.exchanged_detach? t hd
  obtain ⟨hrest, hfound⟩ := (h.of_exchanged he).removed
  refine ⟨hfound, h.exchange he hrest fun id hid => .inl ?_⟩
  exact (ids_removed n before after found).mem_iff.2 (List.mem_append_right _ hid)

theorem Loadable.setProperties (hc : catalog.builders = []) {properties : Properties}
    (h : Loadable catalog t) (hs : t.setProperties catalog properties = .ok u) :
    Loadable catalog u := by
  have hids := ids_setProperties hs
  obtain ⟨n, cs⟩ := t
  obtain ⟨b, hb, hu⟩ := bind_eq_ok hs
  cases hu
  have hb : catalog.build n.kind properties = .ok b := hb
  obtain ⟨hanew, hkind⟩ := Catalog.build_anew hc hb
  obtain ⟨⟨hid, hbuild, hclosed⟩, hcs⟩ := Rose.everywhere_node.1 h.buildable
  have hkind' : n.behavior.kind? = some n.kind := by
    rw [← Behavior.kind?_anew]
    exact (Catalog.build_anew hc hbuild).2
  refine ⟨hids.symm ▸ h.distinct, Rose.everywhere_node.2 ⟨⟨hid, ?_, ?_⟩, hcs⟩⟩
  · exact hb.trans (congrArg Except.ok hanew.symm)
  · intro hb'
    apply hclosed
    rw [Behavior.isClosed_limit hkind', ← Behavior.isClosed_limit hkind]
    exact hb'

/-- Changes of the top that neither its id nor its behavior come from. -/
theorem Loadable.changeTop {f : Node H → Node H} (h : Loadable catalog t)
    (hid : (f t.value).id = t.value.id) (hkind : (f t.value).kind = t.value.kind)
    (hproperties : (f t.value).properties = t.value.properties)
    (hbehavior : (f t.value).behavior = t.value.behavior) :
    Loadable catalog (t.changeTop f) := by
  have hids := ids_changeTop hid
  obtain ⟨n, cs⟩ := t
  simp only [Rose.value] at hid hkind hproperties hbehavior
  obtain ⟨hn, hcs⟩ := Rose.everywhere_node.1 h.buildable
  refine ⟨hids.symm ▸ h.distinct, Rose.everywhere_node.2 ⟨?_, hcs⟩⟩
  simp only [Rose.value]
  unfold Buildable
  rw [hid, hkind, hproperties, hbehavior]
  exact hn

/-! ## Loading -/

/-- Usual behaviors are built without a run. -/
theorem loadable_of_made (hc : catalog.builders = []) (h : Made catalog t) : Loadable catalog t := by
  refine ⟨h.distinct, h.nodes.imp ?_⟩
  rintro n cs ⟨hid, hbuild, -, hclosed⟩
  have hanew := (Catalog.build_anew hc hbuild).1
  exact ⟨hid, hbuild.trans (congrArg Except.ok hanew.symm), hclosed⟩

theorem loadable_run {l : Loading H} (hc : l.catalog.builders = []) {next next' : Nat} {r : Record}
    (h : l.run next r = .ok (t, next')) : Loadable l.catalog t := by
  obtain ⟨⟨u, pool⟩, hu, he⟩ := map_eq_ok h
  cases he
  exact loadable_of_made hc (Loading.made_tree hu)

end Tree

end Conduct
