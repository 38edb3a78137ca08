import Conduct.Proofs.Everywhere

/-! What replacing and taking out does to a tree.

Both leave the tree as it is but for one subtree, which gives way to another: to the new one, or to
the parent of what is taken out, without that child. Main statements: `exchanged_replace`,
`exchanged_detach?`, `Exchanged.preorder` and `Exchanged.everywhere`.
-/

set_option autoImplicit false

namespace Conduct.Rose

variable {α : Type}

/-- A tree is another one with a new subtree in the place of an old one. -/
inductive Exchanged (old new : Rose α) : Rose α → Rose α → Prop
  | here : Exchanged old new old new
  | under {c d : Rose α} (v : α) (before after : List (Rose α)) (h : Exchanged old new c d) :
      Exchanged old new (node v (before ++ c :: after)) (node v (before ++ d :: after))

variable {p : α → Bool} {t u old new found rest : Rose α} {cs ds : List (Rose α)}

/-! ## What an exchange keeps -/

theorem Exchanged.preorder (h : Exchanged old new t u) :
    ∃ before after, t.preorder = before ++ old.preorder ++ after ∧
      u.preorder = before ++ new.preorder ++ after := by
  induction h with
  | here => exact ⟨[], [], by simp, by simp⟩
  | @under c d v cs ds h ih =>
    obtain ⟨before, after, hc, hd⟩ := ih
    refine ⟨v :: cs.flatMap Rose.preorder ++ before, after ++ ds.flatMap Rose.preorder, ?_, ?_⟩
    · rw [preorder_node, List.flatMap_append, List.flatMap_cons, hc]
      simp only [List.cons_append, List.append_assoc]
    · rw [preorder_node, List.flatMap_append, List.flatMap_cons, hd]
      simp only [List.cons_append, List.append_assoc]

/-- What every node of a tree has, every node of the old subtree has. -/
theorem Exchanged.everywhere_old {P : α → List (Rose α) → Prop} (h : Exchanged old new t u)
    (ht : t.Everywhere P) : old.Everywhere P := by
  induction h with
  | here => exact ht
  | @under c d v before after h ih =>
    have hchild := (everywhere_node.1 ht).2 c
    exact ih (hchild (by simp))

/-- A property of nodes that looks at no more than the number of children stays, if the new subtree
has it. -/
theorem Exchanged.everywhere {P : α → List (Rose α) → Prop}
    (hP : ∀ v cs ds, cs.length = ds.length → P v cs → P v ds) (h : Exchanged old new t u)
    (ht : t.Everywhere P) (hnew : new.Everywhere P) : u.Everywhere P := by
  induction h with
  | here => exact hnew
  | @under c d v before after h ih =>
    obtain ⟨hv, hall⟩ := everywhere_node.1 ht
    obtain ⟨hbefore, hrest⟩ := List.forall_mem_append.1 hall
    obtain ⟨hc, hafter⟩ := List.forall_mem_cons.1 hrest
    refine everywhere_node.2 ⟨hP v _ _ ?_ hv, ?_⟩
    · simp
    · exact List.forall_mem_append.2 ⟨hbefore, List.forall_mem_cons.2 ⟨ih hc, hafter⟩⟩

theorem Exchanged.symm (h : Exchanged old new t u) : Exchanged new old u t := by
  induction h with
  | here => exact .here
  | under v before after h ih => exact .under v before after ih

/-- An exchange inside of the subtree that is exchanged. -/
theorem Exchanged.trans {a b : Rose α} (h : Exchanged a b old new) (h' : Exchanged old new t u) :
    Exchanged a b t u := by
  induction h' with
  | here => exact h
  | under v before after h' ih => exact .under v before after ih

theorem Exchanged.value (h : Exchanged old new t u) (hv : new.value = old.value) :
    u.value = t.value := by
  cases h with
  | here => exact hv
  | under v before after h => rfl

/-- The subtrees that are exchanged are at one position. -/
theorem Exchanged.exists_at? (h : Exchanged old new t u) :
    ∃ q, t.at? q = some old ∧ u.at? q = some new := by
  induction h with
  | here => exact ⟨[], rfl, rfl⟩
  | @under c d v before after h ih =>
    obtain ⟨q, hc, hd⟩ := ih
    refine ⟨before.length :: q, ?_, ?_⟩
    · simpa [Rose.at?, children] using hc
    · simpa [Rose.at?, children] using hd

/-! ## Replacing -/

mutual

theorem exchanged_replace : (t : Rose α) → t.find? p = some old →
    Exchanged old new t (replace p new t)
  | .node v cs => by
    intro hf
    rw [find?] at hf
    rw [replace]
    split at hf
    · next hp =>
      cases hf
      rw [if_pos hp]
      exact .here
    · next hp =>
      rw [if_neg hp]
      obtain ⟨before, c, d, after, rfl, hd, he⟩ := exchanged_replaceAmong cs hf
      rw [he]
      exact .under v before after hd

theorem exchanged_replaceAmong : (cs : List (Rose α)) → findAmong? p cs = some old →
    ∃ before c d after, cs = before ++ c :: after ∧ Exchanged old new c d ∧
      replaceAmong p new cs = before ++ d :: after
  | [] => by
    intro hf
    cases hf
  | c :: cs => by
    intro hf
    rw [findAmong?] at hf
    rw [replaceAmong]
    cases hc : c.find? p with
    | some found =>
      rw [hc] at hf
      cases hf
      exact ⟨[], c, replace p new c, cs, rfl, exchanged_replace c hc, rfl⟩
    | none =>
      rw [hc] at hf
      obtain ⟨before, d, e, after, rfl, he, heq⟩ := exchanged_replaceAmong cs hf
      exact ⟨c :: before, d, e, after, rfl, he, by rw [heq]; rfl⟩

end

/-! ## Taking out -/

theorem takeFirst?_eq_some (h : takeFirst? p cs = some (found, ds)) :
    p found.value = true ∧ ∃ before after, cs = before ++ found :: after ∧ ds = before ++ after := by
  induction cs generalizing ds with
  | nil => cases h
  | cons c cs ih =>
    rw [takeFirst?] at h
    split at h
    · next hp =>
      cases h
      exact ⟨hp, [], cs, rfl, rfl⟩
    · obtain ⟨⟨found', ds'⟩, hd, he⟩ := Option.map_eq_some_iff.1 h
      cases he
      obtain ⟨hp, before, after, rfl, rfl⟩ := ih hd
      exact ⟨hp, c :: before, after, rfl, rfl⟩

/-- The parent of the subtree loses it as a child. -/
def TakenOut (found t rest : Rose α) : Prop :=
  ∃ v before after,
    Exchanged (node v (before ++ found :: after)) (node v (before ++ after)) t rest

theorem TakenOut.value (h : TakenOut found t rest) : rest.value = t.value := by
  obtain ⟨v, before, after, he⟩ := h
  exact he.value rfl

theorem TakenOut.exists_at? (h : TakenOut found t rest) : ∃ q, t.at? q = some found := by
  obtain ⟨v, before, after, he⟩ := h
  obtain ⟨q, hq, -⟩ := he.exists_at?
  refine ⟨q ++ [before.length], ?_⟩
  rw [at?_append, hq]
  simp [Rose.at?, children]

theorem TakenOut.of_exchanged (h : TakenOut found old new) (he : Exchanged old new t u) :
    TakenOut found t u := by
  obtain ⟨v, before, after, h⟩ := h
  exact ⟨v, before, after, h.trans he⟩

mutual

theorem exchanged_detach? : (t : Rose α) → {found rest : Rose α} →
    t.detach? p = some (found, rest) → p found.value = true ∧ TakenOut found t rest
  | .node v cs, found, rest => by
    intro h
    rw [detach?] at h
    cases hc : takeFirst? p cs with
    | some pair =>
      obtain ⟨found', ds⟩ := pair
      rw [hc] at h
      cases h
      obtain ⟨hp, before, after, rfl, rfl⟩ := takeFirst?_eq_some hc
      exact ⟨hp, v, before, after, .here⟩
    | none =>
      rw [hc] at h
      obtain ⟨⟨found', ds⟩, hd, he⟩ := Option.map_eq_some_iff.1 h
      cases he
      obtain ⟨hp, before, c, d, after, rfl, ⟨v', before', after', hcd⟩, rfl⟩ :=
        exchanged_detachAmong? cs hd
      exact ⟨hp, v', before', after', .under v before after hcd⟩

theorem exchanged_detachAmong? : (cs : List (Rose α)) → {found : Rose α} → {ds : List (Rose α)} →
    detachAmong? p cs = some (found, ds) → p found.value = true ∧
    ∃ before c d after, cs = before ++ c :: after ∧ TakenOut found c d ∧
      ds = before ++ d :: after
  | [], found, ds => by
    intro h
    cases h
  | c :: cs, found, ds => by
    intro h
    rw [detachAmong?] at h
    cases hc : c.detach? p with
    | some pair =>
      obtain ⟨found', d⟩ := pair
      rw [hc] at h
      cases h
      obtain ⟨hp, hcd⟩ := exchanged_detach? c hc
      exact ⟨hp, [], c, d, cs, rfl, hcd, rfl⟩
    | none =>
      rw [hc] at h
      obtain ⟨⟨found', es⟩, hd, he⟩ := Option.map_eq_some_iff.1 h
      cases he
      obtain ⟨hp, before, d, e, after, rfl, hde, rfl⟩ := exchanged_detachAmong? cs hd
      exact ⟨hp, c :: before, d, e, after, rfl, hde, rfl⟩

end

end Conduct.Rose
