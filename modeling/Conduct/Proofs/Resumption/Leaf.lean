import Conduct.Proofs.Resumption.Runs
import Mathlib.Data.Nat.Nth

/-! Leaves that play streams of statuses.

The ticks of a leaf report the entries of a stream one after the other. A run of it ends with the
first entry that is not running. Main statements: `Tree.Leaf.run` and `Tree.plays_player`.
-/

set_option autoImplicit false

namespace Conduct

variable {H : Host}

/-! ## Streams without running entries -/

/-- The other stream has the entries of this one that are not running, in their order. -/
def Skips (stream unpaused : Nat → Status) : Prop :=
  ∀ n, stream n ≠ .running → unpaused (Nat.count (fun i => stream i ≠ .running) n) = stream n

section Streams

variable {stream unpaused : Nat → Status}

theorem skips_of_running (h₀ : stream 0 = .running) :
    Skips stream unpaused ↔ Skips (fun n => stream (n + 1)) unpaused := by
  have hcount : ∀ n, Nat.count (fun i => stream i ≠ .running) (n + 1) =
      Nat.count (fun i => stream (i + 1) ≠ .running) n := by
    intro n
    rw [Nat.count_succ', if_neg (not_not_intro h₀), Nat.add_zero]
  constructor
  · intro h n hn
    have he := h (n + 1) hn
    rwa [hcount] at he
  · intro h n hn
    cases n with
    | zero => exact absurd h₀ hn
    | succ n =>
      rw [hcount]
      exact h n hn

theorem skips_of_ne_running (h₀ : stream 0 ≠ .running) :
    Skips stream unpaused ↔ unpaused 0 = stream 0 ∧
      Skips (fun n => stream (n + 1)) fun n => unpaused (n + 1) := by
  have hcount : ∀ n, Nat.count (fun i => stream i ≠ .running) (n + 1) =
      Nat.count (fun i => stream (i + 1) ≠ .running) n + 1 := by
    intro n
    rw [Nat.count_succ', if_pos h₀]
  constructor
  · intro h
    refine ⟨by simpa using h 0 h₀, fun n hn => ?_⟩
    have he := h (n + 1) hn
    rwa [hcount] at he
  · rintro ⟨hentry, h⟩ n hn
    cases n with
    | zero => simpa using hentry
    | succ n =>
      rw [hcount]
      exact h n hn

end Streams

namespace Tree

/-! ## Leaves -/

/-- What a tree becomes by a number of ticks and any resets. -/
inductive Becomes (t : Tree H) : Nat → Tree H → Prop
  | start : Becomes t 0 t
  | tick {n : Nat} {u : Tree H} (hu : Becomes t n u) (x : Stage H) :
      Becomes t (n + 1) (tick u x).state
  | reset {n : Nat} {u : Tree H} (hu : Becomes t n u) : Becomes t n u.reset

/-- The ticks of a tree report the entries of a stream, whatever they find on the stage and whether
or not the tree is reset between them. -/
def Plays (t : Tree H) (stream : Nat → Status) : Prop :=
  ∀ n u, t.Becomes n u → ∀ x, (tick u x).outcome = .ok (stream n)

/-- A node that takes no children. -/
structure Leaf (t : Tree H) : Prop where
  closed : t.value.behavior.limit.isClosed = true
  children : t.children = []

variable {t u t' : Tree H} {stream unpaused : Nat → Status} {r : Status}
  {es : List (String × Status)}

theorem Plays.outcome (h : t.Plays stream) (x : Stage H) : (tick t x).outcome = .ok (stream 0) :=
  h 0 t .start x

theorem Plays.tick (h : t.Plays stream) (x : Stage H) :
    (tick t x).state.Plays fun n => stream (n + 1) := by
  intro n u hu
  have hlater : t.Becomes (n + 1) u := by
    induction hu with
    | start => exact .tick .start x
    | tick _ y ih => exact .tick ih y
    | reset _ ih => exact .reset ih
  exact h (n + 1) u hlater

theorem Plays.reset (h : t.Plays stream) : t.reset.Plays stream := by
  intro n u hu
  have hlater : t.Becomes n u := by
    induction hu with
    | start => exact .reset .start
    | tick _ y ih => exact .tick ih y
    | reset _ ih => exact .reset ih
  exact h n u hlater

theorem limit_tick (t : Tree H) (x : Stage H) :
    (tick t x).state.value.behavior.limit = t.value.behavior.limit := by
  rw [behavior_tick]
  generalize t.value.behavior = b
  cases b <;> rfl

theorem Leaf.tick (h : t.Leaf) (x : Stage H) : (tick t x).state.Leaf where
  closed := by rw [limit_tick, h.closed]
  children := by
    have hmap := Behavior.map_tick keeps_id t.value.behavior t.children x
    rw [← children_tick, h.children, List.map_nil, List.map_eq_nil_iff] at hmap
    exact hmap

theorem Leaf.reset (h : t.Leaf) : t.reset.Leaf := by
  obtain ⟨n, cs⟩ := t
  obtain ⟨hclosed, hcs⟩ := h
  cases hcs
  exact ⟨by simpa [Tree.reset, Node.reset, Rose.value] using hclosed, rfl⟩

/-! ## What the leaves come to in a tick -/

variable {x : Stage H}

theorem visits_eq (ho : (tick t x).outcome = .ok r) :
    (tick t x).stage.visits = ⟨t.id, t.value.behavior.limit.isClosed, x.flags, r⟩ ::
      (t.value.behavior.tick (handling tick) t.children x).stage.visits := by
  obtain ⟨n, cs⟩ := t
  rw [tick_node] at ho ⊢
  simp only [Node.tick, Rose.value, Rose.children] at ho ⊢
  cases hb : (n.behavior.tick (handling tick) cs x).outcome with
  | error p =>
    simp only [hb] at ho
    cases ho
  | ok reported =>
    simp only [hb] at ho ⊢
    cases ho
    exact visits_close _ _ _ _

theorem endings_of_open (ho : (tick t x).outcome = .ok r)
    (hopen : t.value.behavior.limit.isClosed = false) : (tick t x).stage.endings =
      (t.value.behavior.tick (handling tick) t.children x).stage.endings := by
  simp only [Stage.endings, visits_eq ho, hopen, List.filterMap_cons, Visit.ending?,
    Bool.false_and, Bool.false_eq_true, if_false]

theorem visits_childless (b : Behavior H) (h : Handling H (Tree H)) (x : Stage H) :
    (b.tick h [] x).stage.visits = x.visits := by
  have hlasting : Stage.Lasting fun y : Stage H => y.visits = x.visits :=
    ⟨fun _ hy => hy, fun _ hy => hy⟩
  have hagree : h.Agree (fun _ _ => False) (Stage.Both fun y => y.visits = x.visits) h :=
    { id := False.elim
      tick := fun hc => hc.elim
      reset := False.elim
      notice := fun hc => hc.elim
      write := by
        rintro y z category message node ⟨rfl, hy⟩
        exact ⟨rfl, hy⟩ }
  exact (Behavior.tick_agree hlasting hagree b .nil rfl).stage.2

theorem Leaf.adds (h : t.Leaf) (ho : (Tree.tick t x).outcome = .ok r) :
    x.Adds (Tree.tick t x).stage (if r = .running then [] else [(t.id, r)]) := by
  have hterminal : r.isTerminal = !(r = .running) := by
    cases r with
    | ready => exact absurd ho (tick_ne_ready t x)
    | _ => rfl
  unfold Stage.Adds Stage.endings
  rw [visits_eq ho, h.children, visits_childless, h.closed, List.filterMap_cons]
  simp only [Visit.ending?, hterminal]
  by_cases hr : r = .running
  · simp [hr]
  · simp [hr]

/-! ## Runs of leaves -/

/-- A run of a leaf ends with the first entry that is not running, and that is all it comes to. -/
theorem Leaf.run (ht : t.Leaf) (hp : t.Plays stream) (hs : Skips stream unpaused)
    (hrun : Runs Tree.tick t r es t') : es = [(t.id, r)] ∧ unpaused 0 = r ∧ t'.Leaf ∧ t'.id = t.id ∧
      ∃ stream', t'.Plays stream' ∧ Skips stream' fun n => unpaused (n + 1) := by
  induction hrun generalizing stream with
  | @ends t x r es ho hr he =>
    have hadds := ht.adds ho
    rw [if_neg hr] at hadds
    have h₀ : stream 0 = r := Except.ok.inj ((hp.outcome x).symm.trans ho)
    obtain ⟨hentry, hrest⟩ := (skips_of_ne_running (h₀ ▸ hr)).1 hs
    exact ⟨he.unique hadds, hentry.trans h₀, ht.tick x, id_tick t x, _, hp.tick x, hrest⟩
  | @waits t t' x r es ds ho he rest ih =>
    have hadds := ht.adds ho
    rw [if_pos rfl] at hadds
    have h₀ : stream 0 = .running := Except.ok.inj ((hp.outcome x).symm.trans ho)
    obtain ⟨hes, hentry, hleaf, hid, hrest⟩ := ih (ht.tick x) (hp.tick x)
      ((skips_of_running h₀).1 hs)
    rw [id_tick] at hes hid
    exact ⟨by rw [hes, he.unique hadds, List.append_nil], hentry, hleaf, hid, hrest⟩

/-! ## Leaves for any stream -/

/-- A behavior of the host that plays a stream. -/
def playing (stream : Nat → Status) : Extension H where
  answer n _ scene := (.value (stream n), scene)

/-- A leaf that plays a stream. -/
def player (id : String) (stream : Nat → Status) : Tree H :=
  .node (.fresh id .action id {} .nil (.extension (playing stream) 0)) []

theorem leaf_player (id : String) (stream : Nat → Status) : (player (H := H) id stream).Leaf :=
  ⟨rfl, rfl⟩

theorem plays_player (id : String) (hready : ∀ n, stream n ≠ .ready) :
    (player (H := H) id stream).Plays stream := by
  have hstate : ∀ n u, (player (H := H) id stream).Becomes n u →
      u.value.behavior = .extension (playing stream) n ∧ u.children = [] := by
    intro n u hu
    induction hu with
    | start => exact ⟨rfl, rfl⟩
    | tick _ x ih =>
      rw [behavior_tick, children_tick, ih.1, ih.2]
      exact ⟨rfl, rfl⟩
    | @reset n u _ ih =>
      rw [value_reset, children_reset, ih.2]
      exact ⟨congrArg Behavior.reset ih.1, rfl⟩
  intro n u hu x
  have houtcome : (tick u x).outcome = .ok (stream n).settled := by
    rw [outcome_tick, (hstate n u hu).1, (hstate n u hu).2]
    rfl
  have hsettled : (stream n).settled = stream n := by
    have := hready n
    cases hn : stream n with
    | ready => exact absurd hn this
    | _ => rfl
  rw [houtcome, hsettled]

theorem exists_skips (hready : ∀ n, stream n ≠ .ready) :
    ∃ unpaused, Skips stream unpaused ∧ ∀ n, unpaused n ≠ .ready :=
  ⟨fun n => stream (Nat.nth (fun i => stream i ≠ .running) n),
    fun _ hn => congrArg stream (Nat.nth_count hn), fun _ => hready _⟩

end Tree

end Conduct
