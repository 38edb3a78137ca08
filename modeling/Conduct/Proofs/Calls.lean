import Conduct.Proofs.Frame

/-! What is ticked in a tick.

In a tick of a node, a child may be ticked never, once or many times, and be reset in between. A
watched child carries the ticks that it has seen, with proof that they and resets made it what it is.
Control nodes do the same whether their children are watched or not. So `Tree.callsAt` tells of every
position below the top which ticks a tick of the tree makes there. Main statements:
`Behavior.tick_watched`, `Tree.anew_of_mem_callsAt` and `Tree.account_tick`.
-/

set_option autoImplicit false

namespace Conduct

variable {H : Host} {γ α : Type}

/-! ## Watched children -/

/-- By ticks on these stages, and resets in between, a child becomes another. Each tick is listed with
what the child was then. -/
inductive Handling.Leads (h : Handling H γ) (c : γ) : List (γ × Stage H) → γ → Prop
  | start : h.Leads c [] c
  | tick {calls : List (γ × Stage H)} {d : γ} (l : h.Leads c calls d) (x : Stage H) :
      h.Leads c (calls ++ [(d, x)]) (h.tick d x).state
  | reset {calls : List (γ × Stage H)} {d : γ} (l : h.Leads c calls d) :
      h.Leads c calls (h.reset d)

/-- A child with the ticks that made it what it is. -/
structure Watched (h : Handling H γ) where
  first : γ
  calls : List (γ × Stage H)
  now : γ
  leads : h.Leads first calls now

/-- A child that has not been ticked yet. -/
def Watched.of (h : Handling H γ) (c : γ) : Watched h := ⟨c, [], c, .start⟩

/-- Handles watched children in the same way as others. -/
def Handling.watched (h : Handling H γ) : Handling H (Watched h) where
  id w := h.id w.now
  tick w x :=
    let turn := h.tick w.now x
    ⟨turn.outcome, ⟨w.first, w.calls ++ [(w.now, x)], turn.state, w.leads.tick x⟩, turn.stage⟩
  reset w := ⟨w.first, w.calls, h.reset w.now, w.leads.reset⟩
  notice w := h.notice w.now

/-- The children after a tick, which were watched in it. -/
def Behavior.watch (h : Handling H γ) (b : Behavior H) (cs : List γ) (x : Stage H) :
    List (Watched h) :=
  (b.tick h.watched (cs.map (Watched.of h)) x).state.2

variable {h : Handling H γ}

theorem Handling.watched_agree (h : Handling H γ) :
    h.watched.Agree (fun w c => w.now = c) (Stage.Both fun _ => True) h where
  id := by
    rintro w c rfl
    rfl
  tick := by
    rintro w c x y rfl ⟨rfl, -⟩
    exact ⟨rfl, rfl, rfl, trivial⟩
  reset := by
    rintro w c rfl
    rfl
  notice := by
    rintro w c x y rfl ⟨rfl, -⟩
    exact ⟨rfl, trivial⟩
  write := by
    rintro x y category message node ⟨rfl, -⟩
    exact ⟨rfl, trivial⟩

/-- A behavior does the same whether the children are watched or not. -/
theorem Behavior.tick_watched (h : Handling H γ) (b : Behavior H) (cs : List γ) (x : Stage H) :
    (b.tick h.watched (cs.map (Watched.of h)) x).outcome = (b.tick h cs x).outcome ∧
      (b.tick h.watched (cs.map (Watched.of h)) x).state.1 = (b.tick h cs x).state.1 ∧
      (b.watch h cs x).map Watched.now = (b.tick h cs x).state.2 ∧
      (b.tick h.watched (cs.map (Watched.of h)) x).stage = (b.tick h cs x).stage := by
  have hcs : List.Forall₂ (fun w c => w.now = c) (cs.map (Watched.of h)) cs :=
    List.forall₂_map_left_iff.2 (List.forall₂_same.2 fun _ _ => rfl)
  obtain ⟨ho, ⟨hb, hnow⟩, hx, -⟩ :=
    Behavior.tick_agree Tree.lasting_true h.watched_agree b hcs trivial
  have hnow := List.forall₂_map_left_iff.2 hnow
  exact ⟨ho, hb, List.forall₂_eq_eq_eq ▸ hnow, hx⟩

theorem Behavior.map_first_watch (h : Handling H γ) (b : Behavior H) (cs : List γ) (x : Stage H) :
    (b.watch h cs x).map Watched.first = cs := by
  have hkeeps : h.watched.Keeps Watched.first := ⟨fun _ _ => rfl, fun _ => rfl⟩
  have hfirst := Behavior.map_tick hkeeps b (cs.map (Watched.of h)) x
  rw [List.map_map] at hfirst
  exact hfirst.trans (List.map_id cs)

theorem Handling.map_id_watched (h : Handling H γ) (cs : List γ) :
    (cs.map (Watched.of h)).map h.watched.id = cs.map h.id := by
  rw [List.map_map]
  rfl

theorem Handling.calls_of (h : Handling H γ) (cs : List γ) :
    (cs.map (Watched.of h)).flatMap Watched.calls = [] := by
  rw [List.flatMap_map]
  exact List.flatMap_eq_nil_iff.2 fun _ _ => rfl

/-- What ticks and resets keep of a child is the same at all its ticks. -/
theorem Handling.Leads.keeps {f : γ → α} (k : h.Keeps f) {c d : γ} {calls : List (γ × Stage H)}
    (l : h.Leads c calls d) : (∀ e ∈ calls, f e.1 = f c) ∧ f d = f c := by
  induction l with
  | start => exact ⟨fun e he => absurd he List.not_mem_nil, rfl⟩
  | @tick calls d l x ih =>
    refine ⟨?_, (k.tick d x).trans ih.2⟩
    intro e he
    rcases List.mem_append.1 he with he | he
    · exact ih.1 e he
    · rw [List.mem_singleton.1 he]
      exact ih.2
  | @reset calls d l ih => exact ⟨ih.1, (k.reset d).trans ih.2⟩

/-- What ticks of a child keep true, as far as it is ticked, and resets do, is true of it all the
time. -/
theorem Handling.Leads.upholds {P : γ → Prop} {c d : γ} {calls : List (γ × Stage H)}
    (l : h.Leads c calls d) (hc : P c) (htick : ∀ e ∈ calls, P e.1 → P (h.tick e.1 e.2).state)
    (hreset : ∀ d, P d → P (h.reset d)) : (∀ e ∈ calls, P e.1) ∧ P d := by
  induction l with
  | start => exact ⟨nofun, hc⟩
  | @tick calls d l x ih =>
    obtain ⟨hcalls, hd⟩ := ih fun e he => htick e (List.mem_append_left _ he)
    have hlast := List.mem_append_right calls (List.mem_singleton_self (d, x))
    exact ⟨List.forall_mem_append.2 ⟨hcalls, List.forall_mem_singleton.2 hd⟩, htick _ hlast hd⟩
  | @reset calls d l ih =>
    obtain ⟨hcalls, hd⟩ := ih htick
    exact ⟨hcalls, hreset d hd⟩

/-! ## The ticks at a position -/

namespace Tree

theorem keeps_anew : (handling (tick (H := H))).Keeps anew := ⟨anew_tick, anew_reset⟩

/-- The ticks that a tick of a tree makes at a position: what the subtree is then, and the stage that
it is ticked on. -/
def callsAt : Position → Tree H → Stage H → List (Tree H × Stage H)
  | [], t, x => [(t, x)]
  | i :: p, t, x =>
    match (t.value.behavior.watch (handling tick) t.children x)[i]? with
    | some w => w.calls.flatMap fun c => callsAt p c.1 c.2
    | none => []

/-- The time at which a tick ends, unless a panic unwinds it. -/
def ended? (t : Tree H) (x : Stage H) : Option UInt64 :=
  match (tick t x).outcome with
  | .ok _ => some (tick t x).stage.now
  | .error _ => none

/-- The times at which the ticks at a position end. -/
def endingsAt (p : Position) (t : Tree H) (x : Stage H) : List UInt64 :=
  (callsAt p t x).filterMap fun c => ended? c.1 c.2

variable {t c u : Tree H} {x y z : Stage H} {p : Position}

theorem mem_callsAt_cons {i : Nat} : (u, y) ∈ callsAt (i :: p) t x ↔
    ∃ w, (t.value.behavior.watch (handling tick) t.children x)[i]? = some w ∧
      ∃ c z, (c, z) ∈ w.calls ∧ (u, y) ∈ callsAt p c z := by
  rw [callsAt]
  cases (t.value.behavior.watch (handling tick) t.children x)[i]? with
  | none => simp
  | some w => simp [List.mem_flatMap]

/-- A watched child is the one at its index, and ticks leave what they made of it there. -/
theorem watch_at {i : Nat} {w : Watched (handling (tick (H := H)))}
    (hw : (t.value.behavior.watch (handling tick) t.children x)[i]? = some w) :
    t.children[i]? = some w.first ∧ (tick t x).state.children[i]? = some w.now := by
  have hfirst := Behavior.map_first_watch (handling tick) t.value.behavior t.children x
  obtain ⟨-, -, hnow, -⟩ := Behavior.tick_watched (handling tick) t.value.behavior t.children x
  rw [children_tick, ← hnow]
  constructor
  · rw [← hfirst, List.getElem?_map, hw, Option.map_some]
  · rw [List.getElem?_map, hw, Option.map_some]

/-- Whatever is ticked at a position was built from the same as the subtree there. -/
theorem anew_of_mem_callsAt (h : (u, y) ∈ callsAt p t x) :
    (t.at? p).map anew = some u.anew := by
  induction p generalizing t x with
  | nil =>
    cases List.mem_singleton.1 h
    rfl
  | cons i p ih =>
    obtain ⟨w, hw, c, z, hc, hu⟩ := mem_callsAt_cons.1 h
    have hfirst := (watch_at hw).1
    have hanew := (w.leads.keeps keeps_anew).1 (c, z) hc
    have hsub := ih hu
    simp only [Rose.at?, Option.bind_eq_bind, hfirst, Option.bind_some]
    unfold anew at hanew hsub ⊢
    rw [← Rose.at?_map] at hsub ⊢
    rw [← hanew, hsub]

/-! ## The ticks of the children -/

/-- The ticks that a tick of a tree makes of the children, child by child. -/
def calls (t : Tree H) (x : Stage H) : List (Tree H × Stage H) :=
  (t.value.behavior.watch (handling tick) t.children x).flatMap Watched.calls

theorem mem_calls {w : Watched (handling (tick (H := H)))} {i : Nat} {e : Tree H × Stage H}
    (hw : (t.value.behavior.watch (handling tick) t.children x)[i]? = some w) (he : e ∈ w.calls) :
    e ∈ t.calls x := List.mem_flatMap.2 ⟨w, List.mem_of_getElem? hw, he⟩

theorem anew_of_mem_calls {e : Tree H × Stage H} (he : e ∈ t.calls x) :
    ∃ c : Tree H, c ∈ t.children ∧ e.1.anew = c.anew := by
  obtain ⟨w, hw, he⟩ := List.mem_flatMap.1 he
  obtain ⟨i, hi⟩ := List.mem_iff_getElem?.1 hw
  exact ⟨w.first, List.mem_of_getElem? (watch_at hi).1, (w.leads.keeps keeps_anew).1 e he⟩

theorem height_anew (t : Tree H) : t.anew.height = t.height := Rose.height_map Node.anew t

/-- What passes from all ticks that a tick makes to the tick holds of every tick. -/
theorem ofCalls {P : Tree H → Stage H → Prop}
    (h : ∀ t x, (∀ e ∈ t.calls x, P e.1 e.2) → P t x) (t : Tree H) (x : Stage H) : P t x := by
  have hbelow : ∀ l, ∀ t : Tree H, t.height ≤ l → ∀ x, P t x := by
    intro l
    induction l with
    | zero => exact fun t ht => absurd t.height_pos (by omega)
    | succ l ih =>
      rintro ⟨n, cs⟩ ht x
      refine h _ x fun e he => ih e.1 ?_ e.2
      obtain ⟨c, hc, hanew⟩ := anew_of_mem_calls he
      have hc : c ∈ cs := hc
      have hlt := Rose.height_lt_of_mem (v := n) hc
      rw [← height_anew, hanew, height_anew]
      omega
  exact hbelow t.height t (Nat.le_refl _) x

/-! ## The account of a node -/

theorem now_close (x : Stage H) (before : Flags) (n : Node H) (r : Status) :
    (x.close before n r).now = x.now := by
  unfold Stage.close
  split
  · rfl
  · rfl

/-- The account of a node is that of another one with more ticks entered, which ended at these
times. -/
def Entered (n : Node H) (times : List UInt64) (m : Node H) : Prop :=
  m.tickCount = n.tickCount + times.length ∧ m.lastTick = times.getLast?.or n.lastTick

theorem entered_nil (n : Node H) : Entered n [] n := ⟨rfl, rfl⟩

theorem Entered.append {n m k : Node H} {times more : List UInt64} (h : Entered n times m)
    (h' : Entered m more k) : Entered n (times ++ more) k := by
  obtain ⟨hcount, hlast⟩ := h
  obtain ⟨hcount', hlast'⟩ := h'
  refine ⟨?_, ?_⟩
  · rw [hcount', hcount, List.length_append, Nat.add_assoc]
  · rw [hlast', hlast, List.getLast?_append, Option.or_assoc]

theorem entered_tick (t : Tree H) (x : Stage H) :
    Entered t.value (ended? t x).toList (tick t x).state.value := by
  obtain ⟨n, cs⟩ := t
  simp only [ended?, tick_node, Node.tick]
  cases (n.behavior.tick (handling tick) cs x).outcome with
  | error p => exact ⟨rfl, rfl⟩
  | ok r =>
    simp only [now_close]
    exact ⟨rfl, rfl⟩

/-- If a tick of any subtree enters the ticks it makes at a position, ticks and resets in a row do. -/
theorem entered_leads {d d' : Tree H} {calls : List (Tree H × Stage H)}
    (htick : ∀ (t c : Tree H) (x : Stage H), t.at? p = some c → ∃ c', (tick t x).state.at? p = some c' ∧
      Entered c.value (endingsAt p t x) c'.value)
    (l : (handling tick).Leads d calls d') (hc : d.at? p = some c) :
    ∃ c', d'.at? p = some c' ∧
      Entered c.value (calls.flatMap fun e => endingsAt p e.1 e.2) c'.value := by
  induction l with
  | start => exact ⟨c, hc, entered_nil c.value⟩
  | @tick calls d' l x ih =>
    obtain ⟨c', hc', he⟩ := ih
    obtain ⟨c'', hc'', he'⟩ := htick d' c' x hc'
    refine ⟨c'', hc'', ?_⟩
    rw [List.flatMap_append, List.flatMap_singleton]
    exact he.append he'
  | @reset calls d' l ih =>
    obtain ⟨c', hc', he⟩ := ih
    refine ⟨reset c', ?_, ?_⟩
    · have hmap := Rose.at?_map Node.reset p d'
      rw [hc', Option.map_some] at hmap
      exact hmap
    · rw [value_reset]
      exact he

/-- A tick of a tree enters into the account of every node the ticks that it makes of the node and that
no panic unwinds, and nothing else. -/
theorem account_tick (p : Position) (t c : Tree H) (x : Stage H) (hc : t.at? p = some c) :
    ∃ c', (tick t x).state.at? p = some c' ∧ Entered c.value (endingsAt p t x) c'.value := by
  induction p generalizing t c x with
  | nil =>
    cases hc
    have hendings : endingsAt [] t x = (ended? t x).toList := by
      simp only [endingsAt, callsAt, List.filterMap_cons, List.filterMap_nil]
      cases ended? t x with
      | none => rfl
      | some time => rfl
    rw [hendings]
    exact ⟨(tick t x).state, rfl, entered_tick t x⟩
  | cons i p ih =>
    obtain ⟨d, hd, hc⟩ := Option.bind_eq_some_iff.1 hc
    have hfirst := Behavior.map_first_watch (handling tick) t.value.behavior t.children x
    rw [← hfirst, List.getElem?_map, Option.map_eq_some_iff] at hd
    obtain ⟨w, hw, rfl⟩ := hd
    obtain ⟨c', hc', he⟩ := entered_leads ih w.leads hc
    refine ⟨c', ?_, ?_⟩
    · rw [Rose.at?, Option.bind_eq_bind, (watch_at hw).2, Option.bind_some]
      exact hc'
    · rw [endingsAt, callsAt, hw, List.filterMap_flatMap]
      exact he

end Tree

end Conduct
