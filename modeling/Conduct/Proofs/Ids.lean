import Conduct.Proofs.Exchange
import Conduct.Proofs.Failing
import Conduct.Proofs.Frame
import Mathlib.Data.List.Flatten
import Mathlib.Data.List.Nodup

/-! The ids of a tree.

Ticks and resets leave the ids of a tree alone, and edits move them about with their nodes. Where ids
are distinct, an id leads to the one subtree that has it at its top. Main statements:
`Tree.ids_insertChild`, `Tree.ids_graft`, `Tree.ids_takenOut` and `Tree.find?_of_at?`.
-/

set_option autoImplicit false

namespace Conduct

namespace Rose

variable {α : Type} {p : α → Bool}

theorem findAmong?_eq_findSome? (cs : List (Rose α)) :
    findAmong? p cs = cs.findSome? (find? p) := by
  induction cs with
  | nil => rfl
  | cons c cs ih =>
    rw [findAmong?, List.findSome?_cons]
    cases c.find? p with
    | none => exact ih
    | some found => rfl

theorem find?_eq_none_iff {t : Rose α} : t.find? p = none ↔ ∀ v ∈ t.preorder, ¬ p v := by
  induction t using ofChildren with
  | h v cs ih =>
    rw [find?, preorder_node, List.forall_mem_cons, List.forall_mem_flatMap,
      findAmong?_eq_findSome?]
    split
    · next hv => simp [hv]
    · next hv =>
      rw [List.findSome?_eq_none_iff]
      simp only [hv, Bool.false_eq_true, not_false_eq_true, true_and]
      exact forall₂_congr ih

end Rose

variable {H : Host}

namespace Tree

variable {t u parent child found rest grown : Tree H} {n : Node H} {cs : List (Tree H)}

theorem ids_node (n : Node H) (cs : List (Tree H)) : ids (.node n cs) = n.id :: cs.flatMap ids := by
  unfold ids
  rw [Rose.preorder_node, List.map_cons, List.map_flatMap]

theorem id_mem_ids (t : Tree H) : t.id ∈ t.ids := by
  obtain ⟨n, cs⟩ := t
  rw [ids_node]
  exact List.mem_cons_self

theorem nodup_ids_of_mem (h : (ids (.node n cs)).Nodup) {c : Tree H} (hc : c ∈ cs) :
    c.ids.Nodup := by
  rw [ids_node, List.nodup_cons, List.nodup_flatMap] at h
  exact h.2.1 c hc

theorem everywhere_nodup (h : t.ids.Nodup) : t.Everywhere fun n cs => (ids (.node n cs)).Nodup := by
  induction t using Rose.ofChildren with
  | h n cs ih =>
    exact Rose.everywhere_node.2 ⟨h, fun c hc => ih c hc (nodup_ids_of_mem h hc)⟩

/-- The ids of the children are among those below a node. -/
theorem sublist_flatMap_ids (cs : List (Tree H)) : (cs.map id).Sublist (cs.flatMap ids) := by
  induction cs with
  | nil => exact .slnil
  | cons c cs ih =>
    obtain ⟨n, ds⟩ := c
    rw [List.map_cons, List.flatMap_cons, ids_node, List.cons_append]
    exact (ih.trans (List.sublist_append_right _ _)).cons_cons n.id

/-! ## Ticks, resets and changes of the top -/

theorem ids_anew (t : Tree H) : t.anew.ids = t.ids := by
  unfold ids anew
  rw [Rose.preorder_map, List.map_map]
  rfl

theorem ids_reset (t : Tree H) : t.reset.ids = t.ids := by
  rw [← ids_anew, anew_reset, ids_anew]

theorem ids_tick (t : Tree H) (stage : Stage H) : (tick t stage).state.ids = t.ids := by
  rw [← ids_anew, anew_tick, ids_anew]

theorem anew_clearStats (t : Tree H) : t.clearStats.anew = t.anew :=
  Rose.map_map Node.anew Node.clearStats t

theorem ids_clearStats (t : Tree H) : t.clearStats.ids = t.ids := by
  rw [← ids_anew, anew_clearStats, ids_anew]

theorem ids_changeTop {f : Node H → Node H} (hid : (f t.value).id = t.value.id) :
    (t.changeTop f).ids = t.ids := by
  obtain ⟨n, cs⟩ := t
  show ids (.node (f n) cs) = ids (.node n cs)
  rw [ids_node, ids_node, show (f n).id = n.id from hid]

theorem ids_setProperties {catalog : Catalog H} {properties : Properties}
    (h : t.setProperties catalog properties = .ok u) : u.ids = t.ids := by
  obtain ⟨b, -, h⟩ := bind_eq_ok h
  cases h
  exact ids_changeTop rfl

/-! ## Exchanges -/

theorem exists_ids_of_exchanged {old new : Tree H} (h : Rose.Exchanged old new t u) :
    ∃ before after, t.ids = before ++ old.ids ++ after ∧ u.ids = before ++ new.ids ++ after := by
  obtain ⟨before, after, hpre, hpost⟩ := h.preorder
  refine ⟨before.map Node.id, after.map Node.id, ?_, ?_⟩
  · rw [ids, hpre, List.map_append, List.map_append, ids]
  · rw [ids, hpost, List.map_append, List.map_append, ids]

/-- What is added to the ids of a subtree is added to those of the tree. -/
theorem ids_exchanged {old new : Tree H} {added : List String} (h : Rose.Exchanged old new t u)
    (hids : new.ids.Perm (added ++ old.ids)) : u.ids.Perm (added ++ t.ids) := by
  obtain ⟨before, after, ht, hu⟩ := exists_ids_of_exchanged h
  rw [ht, hu]
  calc (before ++ new.ids ++ after).Perm (before ++ (added ++ old.ids) ++ after) :=
        (hids.append_left before).append_right after
    _ = before ++ (added ++ (old.ids ++ after)) := by simp only [List.append_assoc]
    _ |>.Perm (added ++ (before ++ (old.ids ++ after))) := List.perm_append_comm_assoc _ _ _
    _ = added ++ (before ++ old.ids ++ after) := by rw [List.append_assoc]

theorem ids_removed (n : Node H) (before after : List (Tree H)) (child : Tree H) :
    (ids (.node n (before ++ child :: after))).Perm
      (child.ids ++ ids (.node n (before ++ after))) := by
  have hcs : (before ++ child :: after).Perm (child :: (before ++ after)) := List.perm_middle
  rw [ids_node, ids_node]
  refine ((hcs.flatMap_right ids).cons n.id).trans ?_
  rw [List.flatMap_cons]
  exact List.perm_middle.symm

/-- The ids of a tree with a child inserted are its own and those of the child. -/
theorem ids_insertChild {index : Nat} (h : parent.insertChild index child = .ok grown) :
    grown.ids.Perm (child.ids ++ parent.ids) := by
  obtain ⟨n, cs⟩ := parent
  obtain ⟨-, -, rfl⟩ := insertChild_eq_ok_iff.1 h
  have hids := ids_removed n (cs.take index) (cs.drop index) child
  rwa [List.take_append_drop] at hids

/-- A subtree goes in below a node whose id is found, and its ids are new to the whole tree. -/
theorem graft_eq_ok {parentId : String} {index : Nat}
    (h : t.graft parentId index child = .ok grown) :
    (∀ id ∈ child.ids, id ∉ t.ids) ∧ ∃ parent parent', t.find? parentId = some parent ∧
      parent.insertChild index child = .ok parent' ∧ grown = t.replace parentId parent' := by
  obtain ⟨u, hd, h⟩ := bind_eq_ok h
  refine ⟨checkDistinct_eq_ok_iff.1 hd, ?_⟩
  cases hf : find? t parentId with
  | none =>
    rw [hf] at h
    cases h
  | some parent =>
    rw [hf] at h
    obtain ⟨parent', hi, h⟩ := bind_eq_ok h
    cases h
    exact ⟨parent, parent', rfl, hi, rfl⟩

theorem ids_graft {parentId : String} {index : Nat}
    (h : t.graft parentId index child = .ok grown) :
    grown.ids.Perm (child.ids ++ t.ids) ∧ child.ids.Disjoint t.ids := by
  obtain ⟨hnew, parent, parent', hf, hi, rfl⟩ := graft_eq_ok h
  exact ⟨ids_exchanged (Rose.exchanged_replace t hf) (ids_insertChild hi), hnew⟩

theorem ids_takenOut (h : Rose.TakenOut found t rest) : t.ids.Perm (found.ids ++ rest.ids) := by
  obtain ⟨n, before, after, he⟩ := h
  exact ids_exchanged he.symm (ids_removed n before after found)

/-! ## Looking for an id -/

theorem find?_eq_none_iff {id : String} : t.find? id = none ↔ id ∉ t.ids := by
  unfold find? ids
  rw [Rose.find?_eq_none_iff]
  simp [named]

theorem ids_of_at? {q : Position} (h : t.at? q = some u) : ∀ id ∈ u.ids, id ∈ t.ids := by
  induction q generalizing t with
  | nil =>
    cases h
    exact fun id hid => hid
  | cons i q ih =>
    obtain ⟨n, cs⟩ := t
    obtain ⟨c, hc, hu⟩ := Option.bind_eq_some_iff.1 h
    intro id hid
    rw [ids_node]
    exact List.mem_cons_of_mem _
      (List.mem_flatMap.2 ⟨c, List.mem_of_getElem? hc, ih hu id hid⟩)

/-- An id from one child is neither that of the top nor below a child before that one. -/
theorem ids_apart {before after : List (Tree H)} {c : Tree H} {id : String}
    (h : (ids (.node n (before ++ c :: after))).Nodup) (hid : id ∈ c.ids) :
    n.id ≠ id ∧ ∀ d ∈ before, id ∉ d.ids := by
  rw [ids_node, List.nodup_cons, List.flatMap_append, List.flatMap_cons] at h
  obtain ⟨htop, hbelow⟩ := h
  constructor
  · rintro rfl
    exact htop (List.mem_append_right _ (List.mem_append_left _ hid))
  · intro d hd hid'
    have hbefore : id ∈ before.flatMap ids := List.mem_flatMap.2 ⟨d, hd, hid'⟩
    exact (List.nodup_append.1 hbelow).2.2 id hbefore id (List.mem_append_left _ hid) rfl

/-- Where ids are distinct, every subtree is found by the id of its top. -/
theorem find?_of_at? {q : Position} (ht : t.ids.Nodup) (h : t.at? q = some u) :
    t.find? u.id = some u := by
  induction q generalizing t with
  | nil =>
    cases h
    obtain ⟨n, cs⟩ := u
    have htop : named (id (.node n cs)) n = true := beq_self_eq_true n.id
    unfold find?
    rw [Rose.find?, if_pos htop]
  | cons i q ih =>
    obtain ⟨n, cs⟩ := t
    obtain ⟨c, hc, hu⟩ := Option.bind_eq_some_iff.1 h
    have hid : u.id ∈ ids c := ids_of_at? hu u.id (id_mem_ids u)
    have hmem : c ∈ cs := List.mem_of_getElem? hc
    have hchild := ih (nodup_ids_of_mem ht hmem) hu
    obtain ⟨before, after, rfl⟩ := List.append_of_mem hmem
    obtain ⟨htop, hbelow⟩ := ids_apart ht hid
    have hne : ¬ named u.id n = true := by simpa [named] using htop
    have hbefore : before.findSome? (Rose.find? (named u.id)) = none :=
      List.findSome?_eq_none_iff.2 fun d hd => find?_eq_none_iff.2 (hbelow d hd)
    unfold find? at hchild ⊢
    rw [Rose.find?, if_neg hne, Rose.findAmong?_eq_findSome?, List.findSome?_append, hbefore,
      List.findSome?_cons, hchild, Option.none_or]

end Tree

end Conduct
