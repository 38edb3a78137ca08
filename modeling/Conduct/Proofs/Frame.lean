import Conduct.Proofs.Everywhere
import Conduct.Tree.Edit
import Conduct.Tree.Unfolding

/-! What ticks and resets leave alone.

A control node hands its children back in their places, ticked or reset. So whatever ticks and resets
keep of a child, a tick of its parent keeps of all children. What a tree was built from is kept by all
of them. Main statements: `Behavior.map_tick`, `Tree.anew_tick` and `Tree.visits_tick`.
-/

set_option autoImplicit false

namespace Conduct

variable {H : Host} {γ α : Type}

/-- Ticks and resets of children keep something of them. -/
structure Handling.Keeps (h : Handling H γ) (f : γ → α) : Prop where
  tick : ∀ c stage, f (h.tick c stage).state = f c
  reset : ∀ c, f (h.reset c) = f c

variable {h : Handling H γ} {f : γ → α}

/-! ## Children stay in their places -/

theorem forall₂_getElem? {β : Type} {R : α → β → Prop} {as : List α} {bs : List β} {place : Nat}
    {a : α} (h : List.Forall₂ R as bs) (ha : as[place]? = some a) :
    ∃ b, bs[place]? = some b ∧ R a b := by
  induction h generalizing place with
  | nil => cases ha
  | @cons a' b as bs hab _ ih =>
    cases place with
    | zero =>
      cases ha
      exact ⟨b, rfl, hab⟩
    | succ place => exact ih ha

theorem exists_forall₂_iff {β : Type} {R : α → β → Prop} {as : List α} :
    (∃ bs, List.Forall₂ R as bs) ↔ ∀ a ∈ as, ∃ b, R a b := by
  induction as with
  | nil => exact iff_of_true ⟨[], .nil⟩ fun a ha => absurd ha List.not_mem_nil
  | cons a as ih =>
    rw [List.forall_mem_cons, ← ih]
    constructor
    · rintro ⟨_, h⟩
      obtain ⟨b, bs, hb, hbs, -⟩ := List.forall₂_cons_left_iff.1 h
      exact ⟨⟨b, hb⟩, bs, hbs⟩
    · rintro ⟨⟨b, hb⟩, bs, hbs⟩
      exact ⟨b :: bs, .cons hb hbs⟩

/-- Whether a sequence leaves its other children out after this report. -/
def Sequence.Settings.stops (s : Settings) : Status → Bool
  | .success => s.stopOnFirstSuccess
  | .failure => s.abortOnFailure
  | _ => true

theorem Sequence.map_walk (k : h.Keeps f) (s : Settings) (run : Run) (index : Nat) (cs : List γ)
    (stage : Stage H) : (walk h s run index cs stage).state.2.map f = cs.map f := by
  induction cs generalizing run index stage with
  | nil => rfl
  | cons c cs ih =>
    simp only [walk]
    split
    · simp only [Turn.push, Turn.map, List.map_cons, ih]
    · split
      · simp only [List.map_cons, k.tick]
      · simp only [List.map_cons, k.tick]
      · split
        · simp only [List.map_cons, k.tick]
        · simp only [Turn.push, Turn.map, List.map_cons, ih, k.tick]
      · split
        · simp only [List.map_cons, k.tick]
        · simp only [Turn.push, Turn.map, List.map_cons, ih, k.tick]
      · simp only [List.map_cons, k.tick]
      · simp only [List.map_cons, k.tick]

theorem Selector.split_at {id : String} {cs after : List γ} {c : γ}
    (hd : (cs.dropWhile fun c => h.id c != id) = c :: after) :
    cs = (cs.takeWhile fun c => h.id c != id) ++ c :: after ∧ h.id c = id := by
  refine ⟨?_, ?_⟩
  · rw [← hd, List.takeWhile_append_dropWhile]
  · have hne : (cs.dropWhile fun c => h.id c != id) ≠ [] := by
      rw [hd]
      exact List.cons_ne_nil _ _
    have hhead := List.head_dropWhile_not (fun c => h.id c != id) hne
    simpa [hd] using hhead

/-- A list of children with one of them exchanged. -/
theorem map_exchanged {β : Type} (g : γ → β) {cs before after : List γ} {c d : γ}
    (hcs : cs = before ++ c :: after) (hd : g d = g c) : (before ++ d :: after).map g = cs.map g := by
  rw [hcs, List.map_append, List.map_cons, List.map_append, List.map_cons, hd]

theorem Selector.map_walk (k : h.Keeps f) (run : Run) (ids : List String) (cs : List γ)
    (stage : Stage H) : (walk h run ids cs stage).state.2.map f = cs.map f := by
  induction ids generalizing run cs stage with
  | nil => rfl
  | cons id ids ih =>
    simp only [walk]
    generalize hd : (cs.dropWhile fun c => h.id c != id) = rest
    cases rest with
    | nil => exact ih run cs stage
    | cons c after =>
      obtain ⟨hcs, -⟩ := split_at hd
      have hnew := map_exchanged f hcs (k.tick c stage)
      simp only
      split
      · exact ih run cs stage
      · split
        · exact hnew
        · exact hnew
        · exact hnew
        · rw [ih, hnew]
        · exact hnew
        · exact hnew

theorem Selector.map_tick (k : h.Keeps f) (s : Settings) (run : Run) (g : Random.Generator)
    (cs : List γ) (stage : Stage H) : (tick h s run g cs stage).state.2.map f = cs.map f :=
  map_walk k _ _ cs stage

theorem Parallel.map_advance (k : h.Keeps f) (budget : Option Nat) (results : Results)
    (cs : List γ) (stage : Stage H) : (advance h budget results cs stage).state.2.map f = cs.map f := by
  induction cs generalizing budget results stage with
  | nil => rfl
  | cons c cs ih =>
    simp only [advance]
    split
    · simp only [Turn.push, Turn.map, List.map_cons, ih]
    · split
      · simp only [List.map_cons, k.tick]
      · simp only [Turn.push, Turn.map, List.map_cons, ih, k.tick]

theorem Parallel.map_cancel (k : h.Keeps f) (results : Results) (cs : List γ) (stage : Stage H) :
    (cancel h results cs stage).1.map f = cs.map f := by
  induction cs generalizing stage with
  | nil => rfl
  | cons c cs ih =>
    simp only [cancel]
    split
    · simp only [List.map_cons, ih, k.reset]
    · simp only [List.map_cons, ih]

theorem Parallel.map_finish (k : h.Keeps f) (s : Settings) (results : Results) (cs : List γ)
    (stage : Stage H) (status : Status) :
    (finish h s results cs stage status).state.2.map f = cs.map f := by
  unfold finish
  split
  · exact map_cancel k results cs stage
  · rfl

theorem Parallel.map_tick (k : h.Keeps f) (s : Settings) (results : Results) (cs : List γ)
    (stage : Stage H) : (tick h s results cs stage).state.2.map f = cs.map f := by
  have hadvance := map_advance k s.maxConcurrency results cs stage
  simp only [tick]
  split
  · exact hadvance
  · unfold settle
    split
    · rw [map_finish k, hadvance]
    · dsimp only
      split
      · rw [map_finish k, hadvance]
      · exact hadvance

theorem Repeater.keeps_prepare (k : h.Keeps f) (s : Settings) (run : Run) (c : γ)
    (stage : Stage H) : f (prepare h s run c stage).1 = f c := by
  unfold prepare
  split
  · exact k.reset c
  · rfl

theorem Repeater.keeps_loop (k : h.Keeps f) (s : Settings) (left : Nat) (run : Run) (c : γ)
    (stage : Stage H) : f (loop h s left run c stage).state.2 = f c := by
  induction left generalizing run c stage with
  | zero => rfl
  | succ left ih =>
    have hticked : f (h.tick (prepare h s run c stage).1 (prepare h s run c stage).2).state = f c := by
      rw [k.tick, keeps_prepare k]
    simp only [loop]
    split
    · rfl
    · split
      · exact hticked
      · exact hticked
      · exact hticked
      · exact hticked
      · split
        · exact hticked
        · rw [ih, hticked]

theorem Repeater.map_tick (k : h.Keeps f) (s : Settings) (run : Run) (cs : List γ)
    (stage : Stage H) : (tick h s run cs stage).state.2.map f = cs.map f := by
  cases cs with
  | nil => rfl
  | cons c cs => simp only [tick, Turn.map, List.map_cons, keeps_loop k]

theorem Inverter.map_tick (k : h.Keeps f) (s : Settings) (cs : List γ) (stage : Stage H) :
    (tick h s cs stage).state.map f = cs.map f := by
  cases cs with
  | nil => rfl
  | cons c cs => simp only [tick, List.map_cons, k.tick]

theorem Root.map_tick (k : h.Keeps f) (s : Settings) (started : Option UInt64) (cs : List γ)
    (stage : Stage H) : (tick h s started cs stage).state.2.map f = cs.map f := by
  cases cs with
  | nil => rfl
  | cons c cs =>
    simp only [tick]
    split
    · simp only [giveUp, List.map_cons, k.reset, k.tick]
    · split
      · simp only [giveUp, List.map_cons, k.reset, k.tick]
      · simp only [List.map_cons, k.tick]

theorem Extension.map_tickAll (k : h.Keeps f) (cs : List γ) (stage : Stage H) :
    (tickAll h cs stage).state.2.map f = cs.map f := by
  induction cs generalizing stage with
  | nil => rfl
  | cons c cs ih =>
    simp only [tickAll]
    split
    · simp only [List.map_cons, k.tick]
    · simp only [Turn.push, Turn.map, List.map_cons, ih, k.tick]

theorem Extension.state_reply (e : Extension H) (played : Nat) (cs : List γ) (stage : Stage H) :
    (e.reply played cs stage).state = (played + 1, cs) := by
  unfold reply
  dsimp only
  split
  · rfl
  · rfl
  · rfl

theorem Extension.map_tick (k : h.Keeps f) (e : Extension H) (played : Nat) (cs : List γ)
    (stage : Stage H) : (tick h e played cs stage).state.2.map f = cs.map f := by
  simp only [tick]
  split
  · split
    · exact map_tickAll k cs _
    · rw [state_reply, map_tickAll k]
  · rw [state_reply]

/-- What ticks and resets keep of children, a tick of their parent keeps of each of them. -/
theorem Behavior.map_tick (k : h.Keeps f) (b : Behavior H) (cs : List γ) (stage : Stage H) :
    (b.tick h cs stage).state.2.map f = cs.map f := by
  cases b with
  | root s started => exact Root.map_tick k s started cs stage
  | sequence s run => exact Sequence.map_walk k s run 0 cs stage
  | selector s run g => exact Selector.map_tick k s run g cs stage
  | parallel s results => exact Parallel.map_tick k s results cs stage
  | inverter s => exact Inverter.map_tick k s cs stage
  | repeater s run => exact Repeater.map_tick k s run cs stage
  | action s script run => rfl
  | condition s script path => rfl
  | extension e played => exact Extension.map_tick k e played cs stage

/-! ## What a tree was built from -/

/-- The behavior as it is when it is built. -/
def Behavior.anew : Behavior H → Behavior H
  | .selector s _ _ => .selector s {} s.generator
  | .extension e _ => .extension e 0
  | b => b.reset

@[simp] theorem Behavior.anew_reset (b : Behavior H) : b.reset.anew = b.anew := by cases b <;> rfl

@[simp] theorem Behavior.reset_anew (b : Behavior H) : b.anew.reset = b.anew := by cases b <;> rfl

theorem Behavior.anew_tick (b : Behavior H) (cs : List γ) (stage : Stage H) :
    (b.tick h cs stage).state.1.anew = b.anew := by cases b <;> rfl

/-- The kind of node that the behavior belongs to, if the host did not provide it. -/
def Behavior.kind? : Behavior H → Option Kind
  | .root _ _ => some .root
  | .sequence _ _ => some .sequence
  | .selector _ _ _ => some .selector
  | .parallel _ _ => some .parallel
  | .inverter _ => some .inverter
  | .repeater _ _ => some .repeater
  | .action _ _ _ => some .action
  | .condition _ _ _ => some .condition
  | .extension _ _ => none

@[simp] theorem Behavior.kind?_anew (b : Behavior H) : b.anew.kind? = b.kind? := by cases b <;> rfl

/-- The node as it is when it is built. -/
def Node.anew (n : Node H) : Node H :=
  .fresh n.id n.kind n.name n.layout n.properties n.behavior.anew

namespace Tree

/-- The tree as it is when it is built. -/
def anew (t : Tree H) : Tree H := Rose.map Node.anew t

@[simp] theorem anew_node (n : Node H) (cs : List (Tree H)) :
    anew (.node n cs) = .node n.anew (cs.map anew) := Rose.map_node Node.anew n cs

theorem anew_reset (t : Tree H) : t.reset.anew = t.anew := by
  have hnode : (fun n : Node H => n.reset.anew) = Node.anew := by
    funext n
    simp only [Node.anew, Node.reset, Behavior.anew_reset]
  rw [reset, anew, Rose.map_map, hnode, anew]

theorem id_anew (t : Tree H) : t.anew.id = t.id := by
  obtain ⟨n, cs⟩ := t
  rw [anew_node]
  rfl

theorem anew_tickWithin (l : Nat) (t : Tree H) (stage : Stage H) :
    (tickWithin l t stage).state.anew = t.anew := by
  induction l generalizing t stage with
  | zero => rfl
  | succ l ih =>
    obtain ⟨n, cs⟩ := t
    have hkeeps : (handling (tickWithin (H := H) l)).Keeps anew := ⟨ih, anew_reset⟩
    have hb := Behavior.anew_tick (h := handling (tickWithin l)) n.behavior cs stage
    have hcs := Behavior.map_tick hkeeps n.behavior cs stage
    simp only [tickWithin, Node.tick]
    split
    · simp only [anew_node, Node.anew, hb, hcs]
    · simp only [anew_node, Node.anew, Node.account, hb, hcs]

/-- A tick keeps what a tree was built from. -/
theorem anew_tick (t : Tree H) (stage : Stage H) : (tick t stage).state.anew = t.anew :=
  anew_tickWithin t.height t stage

theorem id_tick (t : Tree H) (stage : Stage H) : (tick t stage).state.id = t.id := by
  rw [← id_anew, anew_tick, id_anew]

theorem id_reset (t : Tree H) : t.reset.id = t.id := by
  rw [← id_anew, anew_reset, id_anew]

theorem keeps_id : (handling (tick (H := H))).Keeps id := ⟨id_tick, id_reset⟩

theorem record_anew (t : Tree H) : t.anew.record = t.record := Rose.map_map Node.entry Node.anew t

theorem record_tick (t : Tree H) (stage : Stage H) : (tick t stage).state.record = t.record := by
  rw [← record_anew, anew_tick, record_anew]

theorem record_reset (t : Tree H) : t.reset.record = t.record := by
  rw [← record_anew, anew_reset, record_anew]

/-! ## What a reset makes of a tree -/

theorem value_reset (t : Tree H) : t.reset.value = t.value.reset := by
  cases t
  rfl

theorem children_reset (t : Tree H) : t.reset.children = t.children.map reset := by
  obtain ⟨n, cs⟩ := t
  rw [reset, Rose.map_node]
  rfl

/-! ## What edits of the children do, and what they leave alone -/

theorem checkDistinct_eq_ok_iff {t incoming : Tree H} :
    checkDistinct t incoming = .ok () ↔ ∀ id ∈ incoming.ids, id ∉ t.ids := by
  have hclash : clash? t incoming = none ↔ ∀ id ∈ incoming.ids, id ∉ t.ids := by
    simp only [clash?, List.find?_eq_none, List.contains_iff_mem]
  rw [← hclash]
  unfold checkDistinct
  cases clash? t incoming with
  | none => simp
  | some id => simp

/-- A child goes in where children are allowed and its ids are new, and nowhere else. -/
theorem insertChild_eq_ok_iff {parent child grown : Tree H} {index : Nat} :
    parent.insertChild index child = .ok grown ↔
      parent.value.behavior.limit.isClosed = false ∧ (∀ id ∈ child.ids, id ∉ parent.ids) ∧
        parent.withChildren (parent.children.take index ++ child :: parent.children.drop index) =
          grown := by
  rw [← checkDistinct_eq_ok_iff]
  unfold insertChild
  cases parent.value.behavior.limit.isClosed with
  | true => simp
  | false =>
    cases checkDistinct parent child with
    | error e => simp [bind, Except.bind]
    | ok u => simp [bind, Except.bind]

theorem addChild_eq_ok_iff {n : Node H} {cs : List (Tree H)} {child grown : Tree H} :
    addChild (.node n cs) child = .ok grown ↔
      n.behavior.limit.isClosed = false ∧ (∀ id ∈ child.ids, id ∉ ids (.node n cs)) ∧
        .node n (cs ++ [child]) = grown := by
  unfold addChild
  rw [insertChild_eq_ok_iff]
  simp only [Rose.children, Rose.value, Rose.withChildren, List.take_length, List.drop_length]

theorem insertChild_eq {t t' child : Tree H} {index : Nat}
    (h : t.insertChild index child = .ok t') : ∃ ds, t' = t.withChildren ds := by
  obtain ⟨-, -, rfl⟩ := insertChild_eq_ok_iff.1 h
  exact ⟨_, rfl⟩

theorem removeChild?_eq {t t' child : Tree H} {id : String}
    (h : t.removeChild? id = some (child, t')) : ∃ ds, t' = t.withChildren ds := by
  simp only [removeChild?, Option.map_eq_some_iff, Prod.mk.injEq] at h
  obtain ⟨_, -, -, rfl⟩ := h
  exact ⟨_, rfl⟩

/-! ## What a tick reports and leaves on the stage -/

theorem settled_tick {t : Tree H} {stage : Stage H} {status : Status}
    (ht : (tick t stage).outcome = .ok status) : status.settled = status := by
  obtain ⟨n, cs⟩ := t
  rw [tick_node] at ht
  simp only [Node.tick] at ht
  split at ht
  · cases ht
  · cases ht
    next reported _ => cases reported <;> rfl

theorem settled_eq_running {r : Status} : r.settled = .running ↔ r = .running := by
  cases r <;> simp [Status.settled]

theorem behavior_tick (t : Tree H) (stage : Stage H) :
    (tick t stage).state.value.behavior =
      (t.value.behavior.tick (handling tick) t.children stage).state.1 := by
  obtain ⟨n, cs⟩ := t
  rw [tick_node]
  simp only [Node.tick]
  split
  · rfl
  · rfl

theorem children_tick (t : Tree H) (stage : Stage H) :
    (tick t stage).state.children =
      (t.value.behavior.tick (handling tick) t.children stage).state.2 := by
  obtain ⟨n, cs⟩ := t
  rw [tick_node]
  simp only [Node.tick]
  split
  · rfl
  · rfl

theorem outcome_tick (t : Tree H) (stage : Stage H) :
    (tick t stage).outcome =
      (t.value.behavior.tick (handling tick) t.children stage).outcome.map Status.settled := by
  obtain ⟨n, cs⟩ := t
  rw [tick_node]
  simp only [Node.tick, Rose.value, Rose.children]
  split
  · next he => rw [he, Except.map]
  · next he => rw [he, Except.map]

theorem tick_repeater {t : Tree H} {s : Repeater.Settings} {run : Repeater.Run}
    (hb : t.value.behavior = .repeater s run) (stage : Stage H) :
    (tick t stage).outcome =
        (Repeater.tick (handling tick) s run t.children stage).outcome.map Status.settled ∧
      (tick t stage).state.value.behavior =
        .repeater s (Repeater.tick (handling tick) s run t.children stage).state.1 := by
  rw [outcome_tick, behavior_tick, hb]
  exact ⟨rfl, rfl⟩

/-- A tick of a root is completed, whatever happens below it. -/
theorem completes_of_root {t : Tree H} {s : Root.Settings} {started : Option UInt64}
    (hn : t.value.behavior = .root s started) (stage : Stage H) :
    ∃ r, (tick t stage).outcome = .ok r := by
  rw [outcome_tick, hn]
  simp only [Behavior.tick, Turn.map, Root.tick]
  split
  · exact ⟨_, rfl⟩
  · split
    · exact ⟨_, rfl⟩
    · split
      · exact ⟨_, rfl⟩
      · exact ⟨_, rfl⟩

/-- A completed tick takes back the flags that were raised in it. -/
theorem flags_tick {t : Tree H} {stage : Stage H} {r : Status}
    (ht : (tick t stage).outcome = .ok r) : (tick t stage).stage.flags = stage.flags := by
  obtain ⟨n, cs⟩ := t
  rw [tick_node] at ht ⊢
  simp only [Node.tick] at ht ⊢
  split at ht
  · cases ht
  · rfl

/-- No completed tick leaves the tree ready. -/
theorem tick_ne_ready (t : Tree H) (stage : Stage H) : (tick t stage).outcome ≠ .ok .ready := by
  intro ht
  cases settled_tick ht

theorem visits_close (stage : Stage H) (before : Flags) (n : Node H) (status : Status) :
    (stage.close before n status).visits =
      ⟨n.id, n.behavior.limit.isClosed, before, status⟩ :: stage.visits := by
  unfold Stage.close
  split
  · rfl
  · rfl

/-- What the stage held when it was entered stays on it. -/
theorem lasting_suffix (visits : List Visit) :
    Stage.Lasting fun stage : Stage H => visits <:+ stage.visits :=
  ⟨fun _ h => h, fun _ h => h⟩

theorem visits_tickWithin (l : Nat) (t : Tree H) (stage : Stage H) (visits : List Visit)
    (hv : visits <:+ stage.visits) : visits <:+ (tickWithin l t stage).stage.visits := by
  induction l generalizing t stage with
  | zero => exact hv
  | succ l ih =>
    obtain ⟨n, cs⟩ := t
    have hagree : (handling (tickWithin (H := H) l)).Agree (fun c d => c = d ∧ True)
        (Stage.Both fun stage => visits <:+ stage.visits) (handling (tickWithin l)) :=
      { id := fun hc => congrArg Tree.id hc.1
        tick := by
          rintro c d x y ⟨rfl, -⟩ ⟨rfl, hx⟩
          exact ⟨rfl, ⟨rfl, trivial⟩, rfl, ih c x hx⟩
        reset := fun hc => ⟨congrArg Tree.reset hc.1, trivial⟩
        notice := by
          rintro c d x y ⟨rfl, -⟩ ⟨rfl, hx⟩
          exact ⟨rfl, hx⟩
        write := by
          rintro x y category message node ⟨rfl, hx⟩
          exact ⟨rfl, hx⟩ }
    obtain ⟨-, -, hg⟩ :=
      Node.tick_agree (lasting_suffix visits) hagree n cs stage (fun _ _ => trivial) hv
    simp only [tickWithin, Node.tick]
    split
    · exact hg
    · rw [visits_close]
      exact hg.trans (List.suffix_cons _ _)

/-- Ticks only add to the visits. -/
theorem visits_tick (t : Tree H) (stage : Stage H) :
    stage.visits <:+ (tick t stage).stage.visits :=
  visits_tickWithin t.height t stage stage.visits List.suffix_rfl

end Tree

end Conduct
