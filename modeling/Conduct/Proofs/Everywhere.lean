import Conduct.Rose

/-! Properties of every node of a tree.

Main statements: `everywhere_node`, `everywhere_map`, `Everywhere.at?`, and `ofChildren`, induction
from all subtrees below a node to the node.
-/

set_option autoImplicit false

namespace Conduct.Rose

variable {α β : Type}

mutual

/-- Every node of a tree has a property, which may look at the subtrees below the node. -/
def Everywhere (P : α → List (Rose α) → Prop) : Rose α → Prop
  | .node v cs => P v cs ∧ EverywhereAll P cs

/-- Every node of a list of trees has a property. -/
def EverywhereAll (P : α → List (Rose α) → Prop) : List (Rose α) → Prop
  | [] => True
  | c :: cs => c.Everywhere P ∧ EverywhereAll P cs

end

theorem everywhereAll_iff {P : α → List (Rose α) → Prop} {cs : List (Rose α)} :
    EverywhereAll P cs ↔ ∀ c ∈ cs, c.Everywhere P := by
  induction cs with
  | nil => simp [EverywhereAll]
  | cons c cs ih => simp [EverywhereAll, ih]

theorem everywhere_node {P : α → List (Rose α) → Prop} {v : α} {cs : List (Rose α)} :
    (node v cs).Everywhere P ↔ P v cs ∧ ∀ c ∈ cs, c.Everywhere P := by
  rw [Everywhere, everywhereAll_iff]

theorem mapAll_eq_map (f : α → β) (cs : List (Rose α)) : mapAll f cs = cs.map (map f) := by
  induction cs with
  | nil => rfl
  | cons c cs ih => rw [mapAll, ih, List.map_cons]

@[simp] theorem map_node (f : α → β) (v : α) (cs : List (Rose α)) :
    (node v cs).map f = node (f v) (cs.map (map f)) := by
  rw [map, mapAll_eq_map]

/-- What passes from all subtrees below a node to the node holds of every tree. -/
theorem ofChildren {P : Rose α → Prop} (h : ∀ v cs, (∀ c ∈ cs, P c) → P (node v cs)) (t : Rose α) :
    P t := by
  have hbelow : ∀ l, ∀ t : Rose α, t.height ≤ l → P t := by
    intro l
    induction l with
    | zero => exact fun t ht => absurd t.height_pos (by omega)
    | succ l ih =>
      rintro ⟨v, cs⟩ ht
      refine h v cs fun c hc => ih c ?_
      have := height_lt_of_mem (v := v) hc
      omega
  exact hbelow t.height t (Nat.le_refl _)

theorem Everywhere.imp {P Q : α → List (Rose α) → Prop} (h : ∀ v cs, P v cs → Q v cs) {t : Rose α}
    (ht : t.Everywhere P) : t.Everywhere Q := by
  induction t using ofChildren with
  | h v cs ih =>
    rw [everywhere_node] at ht ⊢
    exact ⟨h v cs ht.1, fun c hc => ih c hc (ht.2 c hc)⟩

theorem Everywhere.and {P Q : α → List (Rose α) → Prop} {t : Rose α} (hp : t.Everywhere P)
    (hq : t.Everywhere Q) : t.Everywhere fun v cs => P v cs ∧ Q v cs := by
  induction t using ofChildren with
  | h v cs ih =>
    rw [everywhere_node] at hp hq ⊢
    exact ⟨⟨hp.1, hq.1⟩, fun c hc => ih c hc (hp.2 c hc) (hq.2 c hc)⟩

/-- What holds of every node of a tree holds of every node of each subtree. -/
theorem Everywhere.subtrees {P : α → List (Rose α) → Prop} {t : Rose α} (h : t.Everywhere P) :
    t.Everywhere fun v cs => (node v cs).Everywhere P := by
  induction t using ofChildren with
  | h v cs ih =>
    exact everywhere_node.2 ⟨h, fun c hc => ih c hc ((everywhere_node.1 h).2 c hc)⟩

theorem everywhere_map {f : α → β} {P : β → List (Rose β) → Prop} {t : Rose α} :
    (t.map f).Everywhere P ↔ t.Everywhere fun v cs => P (f v) (cs.map (map f)) := by
  induction t using ofChildren with
  | h v cs ih =>
    rw [map_node, everywhere_node, everywhere_node]
    refine and_congr Iff.rfl ?_
    simp only [List.mem_map, forall_exists_index, and_imp, forall_apply_eq_imp_iff₂]
    exact forall₂_congr ih

theorem map_congr {f g : α → β} {t : Rose α} (h : t.Everywhere fun v _ => f v = g v) :
    t.map f = t.map g := by
  induction t using ofChildren with
  | h v cs ih =>
    obtain ⟨hv, hcs⟩ := everywhere_node.1 h
    rw [map_node, map_node, hv, List.map_congr_left fun c hc => ih c hc (hcs c hc)]

theorem map_eq_self {f : α → α} {t : Rose α} (h : t.Everywhere fun v _ => f v = v) : t.map f = t := by
  induction t using ofChildren with
  | h v cs ih =>
    obtain ⟨hv, hcs⟩ := everywhere_node.1 h
    rw [map_node, hv, List.map_congr_left fun c hc => ih c hc (hcs c hc)]
    simp only [List.map_id']

theorem map_map {γ : Type} (g : β → γ) (f : α → β) (t : Rose α) :
    (t.map f).map g = t.map fun v => g (f v) := by
  induction t using ofChildren with
  | h v cs ih =>
    simp only [map_node, List.map_map, node.injEq, true_and]
    exact List.map_congr_left ih

/-! ## The values of a tree from the top down -/

theorem preorderAll_eq_flatMap (cs : List (Rose α)) : preorderAll cs = cs.flatMap preorder := by
  induction cs with
  | nil => rfl
  | cons c cs ih => rw [preorderAll, ih, List.flatMap_cons]

theorem preorder_node (v : α) (cs : List (Rose α)) :
    (node v cs).preorder = v :: cs.flatMap preorder := by
  rw [preorder, preorderAll_eq_flatMap]

theorem preorder_map (f : α → β) (t : Rose α) : (t.map f).preorder = t.preorder.map f := by
  induction t using ofChildren with
  | h v cs ih =>
    have hcs : (cs.map (map f)).flatMap preorder = cs.flatMap fun c => c.preorder.map f := by
      rw [List.flatMap_map, List.flatMap_def, List.flatMap_def, List.map_congr_left ih]
    rw [map_node, preorder_node, preorder_node, List.map_cons, hcs, List.map_flatMap]

theorem everywhere_iff_preorder {P : α → Prop} {t : Rose α} :
    t.Everywhere (fun v _ => P v) ↔ ∀ v ∈ t.preorder, P v := by
  induction t using ofChildren with
  | h v cs ih =>
    rw [everywhere_node, preorder_node, List.forall_mem_cons, List.forall_mem_flatMap]
    exact and_congr Iff.rfl (forall₂_congr ih)

/-! ## Subtrees at positions -/

theorem at?_append (p q : Position) (t : Rose α) : t.at? (p ++ q) = (t.at? p).bind (at? q) := by
  induction p generalizing t with
  | nil => rfl
  | cons i p ih =>
    simp only [List.cons_append, at?, Option.bind_eq_bind]
    cases t.children[i]? with
    | none => rfl
    | some c => exact ih c

theorem at?_map (f : α → β) (p : Position) (t : Rose α) : (t.map f).at? p = (t.at? p).map (map f) := by
  induction p generalizing t with
  | nil => rfl
  | cons i p ih =>
    obtain ⟨v, cs⟩ := t
    simp only [map_node, at?, children, List.getElem?_map, Option.bind_eq_bind]
    cases cs[i]? with
    | none => rfl
    | some c => exact ih c

/-- What holds of every node of a tree holds of every node of the subtree at a position. -/
theorem Everywhere.at? {P : α → List (Rose α) → Prop} {t c : Rose α} {p : Position}
    (h : t.Everywhere P) (hc : t.at? p = some c) : c.Everywhere P := by
  induction p generalizing t with
  | nil =>
    cases hc
    exact h
  | cons i p ih =>
    obtain ⟨v, cs⟩ := t
    obtain ⟨d, hd, hc⟩ := Option.bind_eq_some_iff.1 hc
    exact ih ((everywhere_node.1 h).2 d (List.mem_of_getElem? hd)) hc

end Conduct.Rose
