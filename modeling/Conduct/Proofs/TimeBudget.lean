import Conduct.Proofs.Frame
import Conduct.Rehearsal.World
import Conduct.Tree.Edit

/-! The time that a run of a root may take.

The annals of a root tell from its history alone when the run under way started. They also tell of a
run that a tick found without a child: that tick fails, and so the run is over, but a root measures
the next run from the start of that one. Main statements: `Dated.behavior`, what a root remembers is
the time that its annals are measured from, and `Dated.verdict`, when a tick is over the budget.
-/

set_option autoImplicit false

namespace Conduct.Root

open Rehearsal (clock)

variable {H : Host}

/-- What the history of a root comes to. -/
structure Annals where
  /-- The time of the first tick of the run under way. -/
  start : Option UInt64 := none
  /-- The start of a run that ended for want of a child, while no run has ended otherwise since. -/
  left : Option UInt64 := none

/-- The time that the run under way is measured from. -/
def Annals.measured (a : Annals) : Option UInt64 :=
  match a.left with
  | some old => some old
  | none => a.start

/-- The annals after a tick at a time. -/
def Annals.ticked (a : Annals) (childless : Bool) (now : UInt64) (status : Status) : Annals :=
  if childless then ⟨none, a.measured⟩
  else if status.isTerminal then {}
  else ⟨some (a.start.getD now), a.left⟩

theorem Annals.measured_childless (a : Annals) (now : UInt64) (status : Status) :
    (a.ticked true now status).measured = a.measured := by
  obtain ⟨start, left⟩ := a
  cases left with
  | none => cases start <;> rfl
  | some old => rfl

theorem Annals.measured_ended (a : Annals) (now : UInt64) {status : Status}
    (h : status.isTerminal = true) : (a.ticked false now status).measured = none := by
  simp only [ticked, h, if_true, Bool.false_eq_true, if_false, measured]

theorem Annals.measured_paused (a : Annals) (now : UInt64) {status : Status}
    (h : status.isTerminal = false) :
    (a.ticked false now status).measured = some (a.measured.getD now) := by
  obtain ⟨start, left⟩ := a
  cases left with
  | none => simp only [ticked, h, Bool.false_eq_true, if_false, measured]
  | some old => simp only [ticked, h, Bool.false_eq_true, if_false, measured, Option.getD_some]

/-- A root with the given settings that has the given annals. -/
inductive Dated : Settings → Tree H → Annals → Prop
  | made {s : Settings} {n : Node H} {cs : List (Tree H)} (h : n.behavior = .root s none) :
      Dated s (.node n cs) {}
  | reset {s : Settings} {t : Tree H} {a : Annals} (d : Dated s t a) : Dated s t.reset {}
  /-- Children come and go, and change. -/
  | edited {s : Settings} {n : Node H} {cs : List (Tree H)} {a : Annals} (d : Dated s (.node n cs) a)
      (ds : List (Tree H)) : Dated s (.node n ds) a
  | ticked {s : Settings} {t : Tree H} {a : Annals} (d : Dated s t a) (stage : Stage H)
      {status : Status} (h : (t.tick stage).outcome = .ok status) :
      Dated s (t.tick stage).state (a.ticked t.children.isEmpty stage.now status)

/-! ## Edits are changes of the children -/

theorem Dated.insertChild {s : Settings} {t t' child : Tree H} {a : Annals} {index : Nat}
    (d : Dated s t a) (h : t.insertChild index child = .ok t') : Dated s t' a := by
  obtain ⟨n, cs⟩ := t
  obtain ⟨ds, rfl⟩ := Tree.insertChild_eq h
  exact d.edited ds

theorem Dated.removeChild? {s : Settings} {t t' child : Tree H} {a : Annals} {id : String}
    (d : Dated s t a) (h : t.removeChild? id = some (child, t')) : Dated s t' a := by
  obtain ⟨n, cs⟩ := t
  obtain ⟨ds, rfl⟩ := Tree.removeChild?_eq h
  exact d.edited ds

theorem Dated.setProperties {catalog : Catalog H} {t t' : Tree H} {properties : Properties}
    (hkind : t.value.kind = .root) (hc : catalog.builders.lookup .root = none)
    (h : t.setProperties catalog properties = .ok t') : ∃ s, Dated s t' {} := by
  obtain ⟨n, cs⟩ := t
  have hbuild : ∀ b, catalog.build .root properties = .ok b → ∃ s, b = .root s none := by
    intro b hb
    simp only [Catalog.build, hc, Catalog.buildUsual] at hb
    cases hs : Catalog.settings .root Settings.known {} properties with
    | error e => rw [hs] at hb; cases hb
    | ok s =>
      rw [hs] at hb
      cases hb
      exact ⟨s, rfl⟩
  have hkind : n.kind = .root := hkind
  unfold Tree.setProperties at h
  rw [show (Rose.node n cs).value.kind = .root from hkind] at h
  cases hb : catalog.build .root properties with
  | error e => rw [hb] at h; cases h
  | ok b =>
    obtain ⟨s, rfl⟩ := hbuild b hb
    rw [hb] at h
    cases h
    exact ⟨s, .made rfl⟩

/-! ## One tick -/

/-- The time is up: more of it has passed since the start than the budget allows. -/
def Overrun (s : Settings) (started now : UInt64) : Prop :=
  ∃ budget, s.maxExecutionTime = some budget ∧ started.toNat + budget.toNat < now.toNat

theorem overdue_iff (s : Settings) (started now : UInt64) :
    overdue s started now = true ↔ Overrun s started now := by
  unfold overdue Overrun
  cases s.maxExecutionTime with
  | none => simp
  | some budget =>
    simp only [decide_eq_true_eq, UInt64.lt_iff_toNat_lt, Clock.toNat_elapsed, Option.some.injEq,
      exists_eq_left']
    omega

theorem tick_childless {s : Settings} {n : Node H} {started : Option UInt64}
    (hn : n.behavior = .root s started) (stage : Stage H) :
    (Tree.tick (.node n []) stage).outcome = .ok .failure ∧
      (Tree.tick (.node n []) stage).state =
        .node (n.account (.root s started) .failure stage.now) [] := by
  rw [Tree.tick_node]
  simp only [Node.tick, hn, Behavior.tick, tick, Turn.map]
  exact ⟨rfl, rfl⟩

theorem tick_panicked {s : Settings} {n : Node H} {started : Option UInt64}
    (hn : n.behavior = .root s started) {child : Tree H} {rest : List (Tree H)} {stage : Stage H}
    {p : Panic} (hc : (child.tick (stage.raise s.flags)).outcome = .error p) :
    (Tree.tick (.node n (child :: rest)) stage).outcome = .ok .error ∧
      (Tree.tick (.node n (child :: rest)) stage).state.children =
        (child.tick (stage.raise s.flags)).state.reset :: rest ∧
      (Tree.tick (.node n (child :: rest)) stage).state.value.behavior = .root s none := by
  rw [Tree.tick_node]
  simp only [Node.tick, hn, Behavior.tick, tick, Turn.map, Tree.handling, hc]
  exact ⟨rfl, rfl, rfl⟩

theorem tick_overdue {s : Settings} {n : Node H} {started : Option UInt64}
    (hn : n.behavior = .root s started) {child : Tree H} {rest : List (Tree H)} {stage : Stage H}
    {status : Status} (hc : (child.tick (stage.raise s.flags)).outcome = .ok status)
    (hl : Overrun s (started.getD stage.now) (child.tick (stage.raise s.flags)).stage.now) :
    (Tree.tick (.node n (child :: rest)) stage).outcome = .ok .error ∧
      (Tree.tick (.node n (child :: rest)) stage).state.children =
        (child.tick (stage.raise s.flags)).state.reset :: rest ∧
      (Tree.tick (.node n (child :: rest)) stage).state.value.behavior = .root s none := by
  have hover := (overdue_iff _ _ _).2 hl
  have hnow : (stage.raise s.flags).now = stage.now := rfl
  rw [Tree.tick_node]
  simp only [Node.tick, hn, Behavior.tick, tick, Turn.map, Tree.handling, hc, hnow, hover, if_true]
  exact ⟨rfl, rfl, rfl⟩

theorem tick_in_time {s : Settings} {n : Node H} {started : Option UInt64}
    (hn : n.behavior = .root s started) {child : Tree H} {rest : List (Tree H)} {stage : Stage H}
    {status : Status} (hc : (child.tick (stage.raise s.flags)).outcome = .ok status)
    (hl : ¬ Overrun s (started.getD stage.now) (child.tick (stage.raise s.flags)).stage.now) :
    (Tree.tick (.node n (child :: rest)) stage).outcome = .ok status ∧
      (Tree.tick (.node n (child :: rest)) stage).state.children =
        (child.tick (stage.raise s.flags)).state :: rest ∧
      (Tree.tick (.node n (child :: rest)) stage).state.value.behavior =
        .root s (if status.isTerminal then none else some (started.getD stage.now)) := by
  have hover : overdue s (started.getD stage.now) (child.tick (stage.raise s.flags)).stage.now =
      false := by
    rw [← overdue_iff, Bool.not_eq_true] at hl
    exact hl
  have hnow : (stage.raise s.flags).now = stage.now := rfl
  have hsettled := Tree.settled_tick hc
  rw [Tree.tick_node]
  simp only [Node.tick, hn, Behavior.tick, tick, Turn.map, Tree.handling, hc, hnow, hover,
    Bool.false_eq_true, if_false, hsettled]
  exact ⟨trivial, rfl, rfl⟩

/-! ## Histories -/

theorem Dated.behavior {s : Settings} {t : Tree H} {a : Annals} (d : Dated s t a) :
    t.value.behavior = .root s a.measured := by
  induction d with
  | made h => exact h
  | @reset t a d ih =>
    obtain ⟨n, cs⟩ := t
    have hn : n.behavior = .root s a.measured := ih
    simp only [Tree.reset, Rose.map, Rose.value, Node.reset, hn, Behavior.reset]
    rfl
  | edited d ds ih => exact ih
  | @ticked t a d stage status h ih =>
    obtain ⟨n, cs⟩ := t
    have hn : n.behavior = .root s a.measured := ih
    cases cs with
    | nil =>
      rw [(tick_childless hn stage).2, Rose.children, List.isEmpty_nil, Annals.measured_childless]
      rfl
    | cons child rest =>
      rw [Rose.children, List.isEmpty_cons]
      cases hc : (Tree.tick child (stage.raise s.flags)).outcome with
      | error p =>
        obtain ⟨ho, -, hb⟩ := tick_panicked hn hc
        rw [ho] at h
        cases h
        rw [hb, a.measured_ended stage.now rfl]
      | ok reported =>
        by_cases hl : Overrun s (a.measured.getD stage.now)
            (Tree.tick child (stage.raise s.flags)).stage.now
        · obtain ⟨ho, -, hb⟩ := tick_overdue hn hc hl
          rw [ho] at h
          cases h
          rw [hb, a.measured_ended stage.now rfl]
        · obtain ⟨ho, -, hb⟩ := tick_in_time hn hc hl
          rw [ho] at h
          cases h
          rw [hb]
          cases hterm : status.isTerminal with
          | true => rw [a.measured_ended stage.now hterm, if_pos rfl]
          | false => rw [a.measured_paused stage.now hterm, if_neg Bool.false_ne_true]

/-- A tick of a root whose child does not panic is over the budget exactly when the budget has passed
since the time that its annals are measured from: the start of the run under way, or of a run that
was left without a child. Every tick with a child that ends a run forgets that time, a tick without
one does not. -/
theorem Dated.verdict {s : Settings} {t : Tree H} {a : Annals} (d : Dated s t a) (stage : Stage H) :
    (t.children = [] → (t.tick stage).outcome = .ok .failure ∧
      (t.tick stage).state.value.behavior = .root s a.measured) ∧
    ∀ (child : Tree H) rest, t.children = child :: rest →
      let below := child.tick (stage.raise s.flags)
      (∀ p, below.outcome = .error p → (t.tick stage).outcome = .ok .error ∧
        (t.tick stage).state.value.behavior = .root s none) ∧
      ∀ status, below.outcome = .ok status →
        (Overrun s (a.measured.getD stage.now) below.stage.now →
          (t.tick stage).outcome = .ok .error ∧
          (t.tick stage).state.children = below.state.reset :: rest ∧
          (t.tick stage).state.value.behavior = .root s none) ∧
        (¬ Overrun s (a.measured.getD stage.now) below.stage.now →
          (t.tick stage).outcome = .ok status ∧
          (t.tick stage).state.children = below.state :: rest ∧
          (status.isTerminal → (t.tick stage).state.value.behavior = .root s none)) := by
  obtain ⟨n, cs⟩ := t
  have hn : n.behavior = .root s a.measured := d.behavior
  refine ⟨?_, ?_⟩
  · rintro rfl
    obtain ⟨ho, hs⟩ := tick_childless hn stage
    rw [hs]
    exact ⟨ho, rfl⟩
  · rintro child rest rfl
    refine ⟨fun p hc => ?_, fun status hc => ⟨tick_overdue hn hc, fun hl => ?_⟩⟩
    · obtain ⟨ho, -, hb⟩ := tick_panicked hn hc
      exact ⟨ho, hb⟩
    · obtain ⟨ho, hs, hb⟩ := tick_in_time hn hc hl
      refine ⟨ho, hs, fun hterm => ?_⟩
      rw [hb, hterm]
      rfl

/-! ## A run that is measured from the start of an older one -/

section Left

/-- A child that always wants to be ticked again. -/
def busy : Tree Rehearsal.host :=
  .node (.fresh "a" .action "A" {} .nil (.action {} (some fun _ scene => (.value .running, scene)) {}))
    []

/-- A root with a budget, and its child. -/
def hurried : Tree Rehearsal.host :=
  .node (.fresh "r" .root "Root" {} .nil (.root { maxExecutionTime := some 50 } none)) [busy]

/-- A root that is paused in a run, loses its child and is ticked without it. -/
def bereft : Tree Rehearsal.host :=
  Tree.tick ((hurried.tick (clock 0)).state.withChildren []) (clock 0) |>.state

theorem bereft_dated : Dated { maxExecutionTime := some 50 } bereft ⟨none, some 0⟩ := by
  have hmade : Dated { maxExecutionTime := some 50 } hurried {} := .made rfl
  have hpaused := hmade.ticked (clock 0) rfl
  exact (hpaused.edited []).ticked (clock 0) rfl

/-- The run that starts at the time 100 takes no time at all and is over the budget. -/
theorem overrun_at_start :
    ∃ (t : Tree Rehearsal.host) (a : Annals) (child : Tree Rehearsal.host),
      Dated { maxExecutionTime := some 50 } t a ∧ a.start = none ∧ t.children = [child] ∧
      (child.tick (clock 100)).outcome = .ok .running ∧ (child.tick (clock 100)).stage.now = 100 ∧
      ¬ Overrun { maxExecutionTime := some 50 } (a.start.getD 100) 100 ∧
      (t.tick (clock 100)).outcome = .ok .error := by
  refine ⟨bereft.withChildren [busy], ⟨none, some 0⟩, busy, ?_, rfl, rfl, rfl, rfl, ?_, rfl⟩
  · exact bereft_dated.edited [busy]
  · rintro ⟨budget, hb, hl⟩
    simp only [Option.getD_none] at hl
    omega

/-- A run that started at the time 0 and is paused is over its budget at the time 100. -/
theorem verdict_hurried :
    Dated { maxExecutionTime := some 50 } (hurried.tick (clock 0)).state ⟨some 0, none⟩ ∧
      ((hurried.tick (clock 0)).state.tick (clock 100)).outcome = .ok .error ∧
      ((hurried.tick (clock 0)).state.tick (clock 100)).state.value.behavior =
        .root { maxExecutionTime := some 50 } none := by
  have hmade : Dated { maxExecutionTime := some 50 } hurried {} := .made rfl
  have d : Dated { maxExecutionTime := some 50 } (hurried.tick (clock 0)).state ⟨some 0, none⟩ :=
    hmade.ticked (clock 0) rfl
  have hlate : Overrun { maxExecutionTime := some 50 } 0 100 := ⟨50, rfl, by decide⟩
  obtain ⟨ho, -, hb⟩ := (((d.verdict (clock 100)).2 _ [] rfl).2 .running rfl).1 hlate
  exact ⟨d, ho, hb⟩

end Left

end Conduct.Root
