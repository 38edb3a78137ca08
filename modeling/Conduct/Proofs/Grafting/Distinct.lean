import Conduct.Proofs.Ids
import Mathlib.Data.List.Pairwise

/-! Trees with distinct ids.

Where ids are distinct, the subtree that an exchange puts in the place of another is what replacing by
id puts there, and a child that is looked for by id is taken out from below its own parent. Main
statements: `Tree.replace_of_exchanged`, `Tree.detach?_of_exchanged` and
`Tree.exists_child_of_mem_ids`.
-/

set_option autoImplicit false

namespace Conduct

namespace Rose

variable {α : Type} {p : α → Bool} {c d found new : Rose α} {before after cs : List (Rose α)}

theorem takeFirst?_eq_none (h : ∀ c ∈ cs, ¬ p c.value) : takeFirst? p cs = none := by
  induction cs with
  | nil => rfl
  | cons c cs ih =>
    obtain ⟨hc, hcs⟩ := List.forall_mem_cons.1 h
    rw [takeFirst?, if_neg hc, ih hcs]
    rfl

theorem takeFirst?_middle (hbefore : ∀ c ∈ before, ¬ p c.value) (hp : p found.value) :
    takeFirst? p (before ++ found :: after) = some (found, before ++ after) := by
  induction before with
  | nil => rw [List.nil_append, takeFirst?, if_pos hp, List.nil_append]
  | cons c before ih =>
    obtain ⟨hc, hbefore⟩ := List.forall_mem_cons.1 hbefore
    rw [List.cons_append, takeFirst?, if_neg hc, ih hbefore]
    rfl

theorem detachAmong?_middle (hbefore : ∀ c ∈ before, c.detach? p = none)
    (hc : c.detach? p = some (found, d)) :
    detachAmong? p (before ++ c :: after) = some (found, before ++ d :: after) := by
  induction before with
  | nil => rw [List.nil_append, detachAmong?, hc, List.nil_append]
  | cons b before ih =>
    obtain ⟨hb, hbefore⟩ := List.forall_mem_cons.1 hbefore
    rw [List.cons_append, detachAmong?, hb, ih hbefore]
    rfl

theorem replaceAmong_middle (hbefore : ∀ c ∈ before, c.find? p = none)
    (hc : c.find? p = some found) :
    replaceAmong p new (before ++ c :: after) = before ++ replace p new c :: after := by
  induction before with
  | nil => rw [List.nil_append, replaceAmong, hc, List.nil_append]
  | cons b before ih =>
    obtain ⟨hb, hbefore⟩ := List.forall_mem_cons.1 hbefore
    rw [List.cons_append, replaceAmong, hb, ih hbefore]
    rfl

end Rose

variable {H : Host}

namespace Tree

variable {t u c child old new rest : Tree H} {n : Node H} {cs before after : List (Tree H)}
  {id : String}

theorem exists_at?_of_find? (h : t.find? id = some u) : ∃ q, t.at? q = some u := by
  obtain ⟨q, hq, -⟩ := (Rose.exchanged_replace t h : Rose.Exchanged u u t _).exists_at?
  exact ⟨q, hq⟩

/-- Only one child of a node has a node with an id. -/
theorem child_unique {d : Tree H} (h : (ids (.node n cs)).Nodup) (hc : c ∈ cs) (hd : d ∈ cs)
    (hidc : id ∈ c.ids) (hidd : id ∈ d.ids) : c = d := by
  rw [ids_node, List.nodup_cons, List.nodup_flatMap] at h
  have : Std.Symm (Function.onFun List.Disjoint (ids (H := H))) := ⟨fun _ _ => List.disjoint_symm⟩
  by_contra hne
  exact h.2.2.forall hc hd hne hidc hidd

theorem mem_ids_of_below (h : id ∈ c.children.flatMap ids) : id ∈ c.ids := by
  obtain ⟨n, cs⟩ := c
  rw [ids_node]
  exact List.mem_cons_of_mem _ h

/-- An id from below a child of a node is that of none of its children. -/
theorem tops_apart (h : (ids (.node n cs)).Nodup) (hc : c ∈ cs)
    (hid : id ∈ c.children.flatMap ids) : ∀ d ∈ cs, Tree.id d ≠ id := by
  rintro d hd rfl
  obtain rfl : c = d := child_unique h hc hd (mem_ids_of_below hid) (id_mem_ids d)
  obtain ⟨m, ds⟩ := c
  have htop := nodup_ids_of_mem h hc
  rw [ids_node, List.nodup_cons] at htop
  exact htop.1 hid

theorem id_below_of_exchanged
    (h : Rose.Exchanged (.node n (before ++ child :: after)) new t u) :
    child.id ∈ t.children.flatMap ids := by
  cases h with
  | here => exact List.mem_flatMap.2 ⟨child, by simp [Rose.children], id_mem_ids child⟩
  | @under c d v bs as h =>
    obtain ⟨q, hq, -⟩ := h.exists_at?
    have hmem : child.id ∈ ids (.node n (before ++ child :: after)) := by
      rw [ids_node]
      exact List.mem_cons_of_mem _ (List.mem_flatMap.2 ⟨child, by simp, id_mem_ids child⟩)
    exact List.mem_flatMap.2 ⟨c, by simp [Rose.children], ids_of_at? hq _ hmem⟩

theorem replace_of_exchanged (h : Rose.Exchanged old new t u) (ht : t.ids.Nodup) :
    t.replace old.id new = u := by
  induction h with
  | here =>
    obtain ⟨n, cs⟩ := old
    exact if_pos (beq_self_eq_true n.id)
  | @under c d v before after h ih =>
    obtain ⟨q, hq, -⟩ := h.exists_at?
    have hc : (ids c).Nodup := nodup_ids_of_mem ht (by simp)
    obtain ⟨htop, hbefore⟩ := ids_apart ht (ids_of_at? hq _ (id_mem_ids old))
    have hfind : Rose.find? (named old.id) c = some old := find?_of_at? hc hq
    show Rose.replace (named old.id) new (.node v (before ++ c :: after)) = _
    rw [Rose.replace, if_neg (by simpa [named] using htop),
      Rose.replaceAmong_middle (fun d hd => find?_eq_none_iff.2 (hbefore d hd)) hfind]
    rw [show Rose.replace (named old.id) new c = d from ih hc]

theorem detach?_eq_none (h : id ∉ t.ids) : t.detach? id = none := by
  refine Option.eq_none_iff_forall_ne_some.2 ?_
  rintro ⟨found, rest⟩ hd
  obtain ⟨hp, htaken⟩ := Rose.exchanged_detach? t hd
  obtain ⟨q, hq⟩ := htaken.exists_at?
  have hid : found.id = id := eq_of_beq hp
  exact h (hid ▸ ids_of_at? hq _ (id_mem_ids found))

/-- Where ids are distinct, any child is found by its id and taken out. -/
theorem detach?_of_exchanged
    (h : Rose.Exchanged (.node n (before ++ child :: after)) (.node n (before ++ after)) t rest)
    (ht : t.ids.Nodup) : t.detach? child.id = some (child, rest) := by
  generalize hold : Rose.node n (before ++ child :: after) = old at h
  generalize hnew : Rose.node n (before ++ after) = new at h
  induction h with
  | here =>
    subst hold hnew
    have hbefore := (ids_apart ht (id_mem_ids child)).2
    show Rose.detach? _ _ = _
    rw [Rose.detach?, Rose.takeFirst?_middle ?_ (beq_self_eq_true child.id)]
    intro d hd he
    have hid : id d = child.id := eq_of_beq he
    exact hbefore d hd (hid ▸ id_mem_ids d)
  | @under c d v bs as h ih =>
    subst hold hnew
    have hc : (ids c).Nodup := nodup_ids_of_mem ht (by simp)
    have hbelow := id_below_of_exchanged h
    have htops : ∀ e ∈ bs ++ c :: as, ¬ named child.id e.value := by
      intro e he hnamed
      exact tops_apart ht (by simp) hbelow e he (eq_of_beq hnamed)
    have hbefore := (ids_apart ht (mem_ids_of_below hbelow)).2
    show Rose.detach? _ _ = _
    rw [Rose.detach?, Rose.takeFirst?_eq_none htops]
    rw [Rose.detachAmong?_middle (fun e he => detach?_eq_none (hbefore e he)) (ih hc)]
    rfl

/-- Every id but that of the top is that of a child. -/
theorem exists_child_of_mem_ids (hid : id ∈ t.ids) (hne : id ≠ t.id) :
    ∃ (q : Position) (n : Node H) (cs : List (Tree H)) (index : Nat) (child : Tree H),
      t.at? q = some (.node n cs) ∧ cs[index]? = some child ∧ child.id = id := by
  induction t using Rose.ofChildren with
  | h n cs ih =>
    rw [ids_node] at hid
    obtain ⟨c, hc, hidc⟩ := List.mem_flatMap.1 ((List.mem_cons.1 hid).resolve_left hne)
    obtain ⟨i, hi⟩ := List.mem_iff_getElem?.1 hc
    by_cases htop : id = c.id
    · exact ⟨[], n, cs, i, c, rfl, hi, htop.symm⟩
    · obtain ⟨q, m, ds, index, child, hq, hrest⟩ := ih c hc hidc htop
      refine ⟨i :: q, m, ds, index, child, ?_, hrest⟩
      rw [Rose.at?, show (Rose.node n cs).children[i]? = some c from hi]
      exact hq

end Tree

end Conduct
