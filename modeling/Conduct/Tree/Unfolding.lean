import Conduct.Control.Agreement
import Conduct.Tree.Tick

/-! A tick never runs out of levels.

Ticks and resets do not make a tree higher, so a tree that is ticked within as many levels as it
has, or more, is ticked to the end. Main statement: `Tree.tick_node`, a tick of a tree is a tick of
its top on the subtrees below it, which are ticked in the same way.
-/

set_option autoImplicit false

namespace Conduct

namespace Rose

variable {α β : Type}

theorem heightAll_le {cs : List (Rose α)} {l : Nat} (h : ∀ c ∈ cs, c.height ≤ l) :
    heightAll cs ≤ l := by
  induction cs with
  | nil => exact Nat.zero_le l
  | cons c cs ih =>
    exact Nat.max_le.2 ⟨h c (List.mem_cons_self ..), ih fun d hd => h d (List.mem_cons_of_mem _ hd)⟩

mutual

theorem height_map (f : α → β) : (t : Rose α) → (t.map f).height = t.height
  | .node _ cs => by simp only [map, height, heightAll_mapAll f cs]

theorem heightAll_mapAll (f : α → β) : (cs : List (Rose α)) → heightAll (mapAll f cs) = heightAll cs
  | [] => rfl
  | c :: cs => by simp only [mapAll, heightAll, height_map f c, heightAll_mapAll f cs]

end

end Rose

theorem eq_of_forall₂ {γ : Type} {P : γ → Prop} {cs ds : List γ}
    (h : List.Forall₂ (fun c d => c = d ∧ P c) cs ds) : cs = ds ∧ ∀ c ∈ cs, P c := by
  obtain ⟨hp, he⟩ := (List.forall₂_and_left cs ds).1 (h.imp fun _ _ hcd => ⟨hcd.2, hcd.1⟩)
  exact ⟨List.forall₂_eq_eq_eq ▸ he, hp⟩

variable {H : Host}

/-- A node ticks the same by two ways to handle its children that do the same to those with a
property, which its children keep, as its stage keeps one. -/
theorem Node.tick_agree {P : Tree H → Prop} {G : Stage H → Prop} (hG : Stage.Lasting G)
    {h k : Handling H (Tree H)} (a : h.Agree (fun c d => c = d ∧ P c) (Stage.Both G) k) (n : Node H)
    (cs : List (Tree H)) (stage : Stage H) (hcs : ∀ c ∈ cs, P c) (hg : G stage) :
    n.tick h cs stage = n.tick k cs stage ∧ (∀ c ∈ (n.tick h cs stage).state.children, P c) ∧
      G (n.behavior.tick h cs stage).stage := by
  have hrefl : List.Forall₂ (fun c d => c = d ∧ P c) cs cs :=
    List.forall₂_same.2 fun c hc => ⟨rfl, hcs c hc⟩
  obtain ⟨ho, ⟨hb, hc⟩, hs, hg⟩ := Behavior.tick_agree hG a n.behavior hrefl hg
  obtain ⟨he, hp⟩ := eq_of_forall₂ hc
  unfold Node.tick
  simp only [← ho, ← hb, ← he, ← hs]
  refine ⟨trivial, ?_, hg⟩
  split
  · exact hp
  · exact hp

namespace Tree

/-- Two ways to tick subtrees of a bounded height do the same, if one of them keeps the bound. -/
theorem handling_agree {l : Nat} {G : Stage H → Prop} (hG : Stage.Lasting G)
    {f g : Tree H → Stage H → Turn H Status (Tree H)}
    (he : ∀ t : Tree H, t.height ≤ l → ∀ stage, f t stage = g t stage)
    (hk : ∀ t : Tree H, t.height ≤ l → ∀ stage, G stage →
      (f t stage).state.height ≤ l ∧ G (f t stage).stage) :
    (handling f).Agree (fun c d : Tree H => c = d ∧ c.height ≤ l) (Stage.Both G) (handling g) where
  id hc := congrArg Tree.id hc.1
  tick := by
    rintro c d x y ⟨rfl, hc⟩ ⟨rfl, hx⟩
    simp only [handling, ← he c hc x]
    exact ⟨rfl, ⟨rfl, (hk c hc x hx).1⟩, rfl, (hk c hc x hx).2⟩
  reset := by
    rintro c d ⟨rfl, hc⟩
    exact ⟨rfl, (Rose.height_map Node.reset c).symm ▸ hc⟩
  notice := by
    rintro c d x y ⟨rfl, hc⟩ ⟨rfl, hx⟩
    exact ⟨rfl, hG.scene _ hx⟩
  write := by
    rintro x y category message node ⟨rfl, hx⟩
    exact ⟨rfl, hG.scene _ hx⟩

theorem lasting_true : Stage.Lasting fun _ : Stage H => True := ⟨fun _ _ => trivial, fun _ _ => trivial⟩

theorem tickWithin_of_height_le (l : Nat) (t : Tree H) (ht : t.height ≤ l) (stage : Stage H) :
    (tickWithin l t stage).state.height ≤ l ∧
      ∀ m, l ≤ m → tickWithin m t stage = tickWithin l t stage := by
  induction l generalizing t stage with
  | zero => exact absurd t.height_pos (by omega)
  | succ l ih =>
    obtain ⟨n, cs⟩ := t
    have hcs : ∀ c ∈ cs, c.height ≤ l := fun c hc => by
      have := Rose.height_lt_of_mem (v := n) hc
      omega
    have hkeep : ∀ t : Tree H, t.height ≤ l → ∀ stage, True →
        (tickWithin l t stage).state.height ≤ l ∧ True :=
      fun t ht stage _ => ⟨(ih t ht stage).1, trivial⟩
    constructor
    · obtain ⟨-, hp, -⟩ := Node.tick_agree lasting_true
        (handling_agree lasting_true (fun _ _ _ => rfl) hkeep) n cs stage hcs trivial
      simp only [tickWithin]
      generalize n.tick (handling (tickWithin l)) cs stage = turn at hp
      obtain ⟨_, ⟨v, ds⟩, _⟩ := turn
      have := Rose.heightAll_le hp
      simp only [Rose.height, Rose.children] at this ⊢
      omega
    · intro m hm
      obtain ⟨m, rfl⟩ : ∃ m', m = m' + 1 := ⟨m - 1, by omega⟩
      simp only [tickWithin]
      exact (Node.tick_agree lasting_true (handling_agree lasting_true
        (fun t ht stage => ((ih t ht stage).2 m (by omega)).symm) hkeep) n cs stage hcs trivial).1.symm

theorem tickWithin_eq_tick {l : Nat} {t : Tree H} (ht : t.height ≤ l) (stage : Stage H) :
    tickWithin l t stage = tick t stage :=
  (tickWithin_of_height_le t.height t (Nat.le_refl _) stage).2 l ht

theorem height_tick_le (t : Tree H) (stage : Stage H) : (tick t stage).state.height ≤ t.height :=
  (tickWithin_of_height_le t.height t (Nat.le_refl _) stage).1

/-- A tick of a tree is a tick of its top on the subtrees below it. -/
theorem tick_node (n : Node H) (cs : List (Tree H)) (stage : Stage H) :
    tick (.node n cs) stage = n.tick (handling tick) cs stage := by
  have hl : (Rose.node n cs).height = Rose.heightAll cs + 1 := by
    simp only [Rose.height]
    omega
  simp only [tick, hl, tickWithin]
  exact (Node.tick_agree lasting_true (handling_agree lasting_true
    (fun t ht stage => tickWithin_eq_tick ht stage)
    fun t ht stage _ => ⟨(tickWithin_of_height_le _ t ht stage).1, trivial⟩) n cs stage
    (fun _ hc => Rose.height_le_heightAll hc) trivial).1

end Tree

end Conduct
