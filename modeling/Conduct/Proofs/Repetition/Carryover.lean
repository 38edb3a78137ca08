import Conduct.Proofs.Errors
import Mathlib.Data.List.Induction

/-! What a repeater carries from one run into another.

What a repeater remembers is what its children have reported since it last had nothing to remember. A
run that ends with a child is forgotten, whatever was edited in it. One that ends for want of a child
is not, so the next run goes on from there. Main statements: `Lived.behavior` and `Lived.carries`.
-/

set_option autoImplicit false

namespace Conduct.Repeater

open Rehearsal (clock)

variable {H : Host} {γ : Type} {s : Settings} {run : Run}

/-! ## What is remembered of a run -/

/-- What is remembered once this has happened to a child. -/
def Run.next (run : Run) : Event → Run
  | .ticked _ none => run
  | .ticked _ (some .running) => { run with inProgress := true }
  | .ticked _ (some status) => run.finishIteration status
  | .reset _ => run

/-- What is remembered of these events. -/
def remembered (es : List Event) : Run := es.foldl Run.next {}

theorem remembered_append (es news : List Event) :
    remembered (es ++ news) = news.foldl Run.next (remembered es) := List.foldl_append

theorem remembered_concat (es : List Event) (e : Event) :
    remembered (es ++ [e]) = (remembered es).next e := List.foldl_concat _ _ _ _

theorem Run.next_ne (id : String) (r : Status) : run.next (.ticked id (some r)) ≠ {} := by
  intro he
  cases r with
  | running => cases congrArg Run.inProgress he
  | ready | success | failure | error => cases congrArg Run.last he

theorem Run.next_eq_self {e : Event} (he : ∀ id r, e ≠ .ticked id (some r)) : run.next e = run := by
  cases e with
  | reset id => rfl
  | ticked id report =>
    cases report with
    | none => rfl
    | some r => exact absurd rfl (he id r)

/-- Something is remembered if and only if a child has reported something. -/
theorem remembered_eq_iff (es : List Event) :
    remembered es = {} ↔ ∀ id r, .ticked id (some r) ∉ es := by
  induction es using List.reverseRecOn with
  | nil => simp [remembered]
  | append_singleton es e ih =>
    rw [remembered_concat]
    by_cases he : ∀ id r, e ≠ .ticked id (some r)
    · rw [Run.next_eq_self he, ih]
      refine forall₂_congr fun id r => ?_
      simp [(he id r).symm]
    · push Not at he
      obtain ⟨id, r, rfl⟩ := he
      refine iff_of_false (Run.next_ne id r) fun hall => hall id r ?_
      exact List.mem_append_right _ (List.mem_singleton_self _)

/-- What is remembered of a run is not that its last iteration came to no verdict. -/
theorem last_remembered_ne (es : List Event) : (remembered es).last ≠ some .running := by
  induction es using List.reverseRecOn with
  | nil => simp [remembered]
  | append_singleton es e ih =>
    rw [remembered_concat]
    cases e with
    | reset id => exact ih
    | ticked id report =>
      rcases report with - | r
      · exact ih
      · cases r with
        | running => exact ih
        | ready | success | failure | error => simp [Run.next, Run.finishIteration]

/-! ## One tick -/

/-- A turn either ends the run and forgets it, or remembers what has happened in it. -/
def Keeps (run : Run) (x : Stage H.recorded) (turn : Turn H.recorded Status (Run × γ)) : Prop :=
  ∃ news, turn.stage.events = x.events ++ news ∧
    (∀ r, turn.outcome = .ok r → r ≠ .running → turn.state.1 = {}) ∧
    ((∀ r, turn.outcome = .ok r → r = .running) → turn.state.1 = news.foldl Run.next run)

theorem Keeps.after {run run' : Run} {es : List Event} {x y : Stage H.recorded}
    {turn : Turn H.recorded Status (Run × γ)} (hk : Keeps run' y turn)
    (he : y.events = x.events ++ es) (hrun : run' = es.foldl Run.next run) : Keeps run x turn := by
  obtain ⟨news, hnews, hended, hpaused⟩ := hk
  refine ⟨es ++ news, by rw [hnews, he, List.append_assoc], hended, fun hr => ?_⟩
  rw [hpaused hr, hrun, List.foldl_append]

theorem keeps_ended {x y : Stage H.recorded} {es : List Event} {r : Status} {c : γ}
    (he : y.events = x.events ++ es) (hr : r ≠ .running) : Keeps run x ⟨.ok r, ({}, c), y⟩ :=
  ⟨es, he, fun _ _ _ => rfl, fun hrunning => absurd (hrunning r rfl) hr⟩

theorem events_prepare_cases (h : Handling H γ) (s : Settings) (run : Run) (c : γ)
    (x : Stage H.recorded) : ∃ es, (prepare h.recorded s run c x).2.events = x.events ++ es ∧
      (es = [] ∨ es = [.reset (h.id c)]) := by
  unfold prepare
  split
  · exact ⟨_, rfl, .inr rfl⟩
  · exact ⟨[], (List.append_nil _).symm, .inl rfl⟩

theorem loop_keeps {h : Handling H γ} (hready : ∀ c x, (h.tick c x).outcome ≠ .ok .ready)
    {left : Nat} {run : Run} {c : γ} {x : Stage H.recorded} (hlast : run.last ≠ some .running) :
    Keeps run x (loop h.recorded s left run c x) := by
  have hfinal : ∀ run : Run, run.last ≠ some .running → finalStatus s run ≠ .running := by
    intro run hlast
    apply finalStatus_ne_running
    cases hl : run.last with
    | none => simp
    | some r =>
      rw [hl] at hlast
      simpa using hlast
  induction left generalizing run c x with
  | zero => exact keeps_ended (List.append_nil _).symm (hfinal run hlast)
  | succ left ih =>
    simp only [loop]
    split
    · exact keeps_ended (List.append_nil _).symm (hfinal run hlast)
    · obtain ⟨es, he, hes⟩ := events_prepare_cases h s run c x
      have hrun : run = es.foldl Run.next run := by
        rcases hes with rfl | rfl
        · rfl
        · rfl
      generalize prepare h.recorded s run c x = prepared at he
      obtain ⟨c', x'⟩ := prepared
      have hticked := h.events_recorded c' x'
      have ho := h.outcome_recorded c' x'
      refine Keeps.after ?_ he hrun
      cases hout : (h.tick c' x'.forget).outcome with
      | error p =>
        rw [hout] at ho hticked
        simp only [ho]
        exact ⟨_, hticked, fun _ hr => (by cases hr), fun _ => rfl⟩
      | ok r =>
        rw [hout] at ho hticked
        simp only [ho]
        cases r with
        | ready => exact absurd hout (hready c' x'.forget)
        | running =>
          refine ⟨_, hticked, ?_, fun _ => rfl⟩
          rintro r ⟨⟩ hr
          exact absurd rfl hr
        | error => exact keeps_ended hticked (by decide)
        | success | failure =>
          dsimp only
          split
          · exact keeps_ended hticked (hfinal _ (by simp [Run.finishIteration]))
          · exact (ih (by simp [Run.finishIteration])).after hticked rfl

/-! ## Histories -/

/-- A repeater with the given settings, and what has happened to its children since it last had
nothing to remember. -/
inductive Lived (s : Settings) : Tree H → List Event → Prop
  | made {t : Tree H} (h : t.value.behavior = .repeater s {}) : Lived s t []
  | reset {t : Tree H} {es : List Event} (d : Lived s t es) : Lived s t.reset []
  /-- Children come and go, and change. -/
  | edited {n : Node H} {cs : List (Tree H)} {es : List Event} (d : Lived s (.node n cs) es)
      (ds : List (Tree H)) : Lived s (.node n ds) es
  /-- A run comes to an end. -/
  | ended {t : Tree H} {es : List Event} (d : Lived s t es) {x : Stage H} {r : Status}
      (hc : t.children ≠ []) (h : (t.tick x).outcome = .ok r) (hr : r ≠ .running) :
      Lived s (t.tick x).state []
  /-- A run is paused or unwound, or there is no child. -/
  | ticked {t : Tree H} {es : List Event} (d : Lived s t es) {x : Stage H}
      (h : t.children = [] ∨ ∀ r, (t.tick x).outcome = .ok r → r = .running) :
      Lived s (t.tick x).state (es ++ t.value.behavior.events (Tree.handling Tree.tick) t.children x)

theorem Lived.insertChild {t t' child : Tree H} {es : List Event} {index : Nat} (d : Lived s t es)
    (h : t.insertChild index child = .ok t') : Lived s t' es := by
  obtain ⟨n, cs⟩ := t
  obtain ⟨ds, rfl⟩ := Tree.insertChild_eq h
  exact d.edited ds

theorem Lived.removeChild? {t t' child : Tree H} {es : List Event} {id : String} (d : Lived s t es)
    (h : t.removeChild? id = some (child, t')) : Lived s t' es := by
  obtain ⟨n, cs⟩ := t
  obtain ⟨ds, rfl⟩ := Tree.removeChild?_eq h
  exact d.edited ds

variable {t : Tree H} {es : List Event}

theorem tick_childless_eq (hb : t.value.behavior = .repeater s run) (hc : t.children = [])
    (x : Stage H) :
    (t.tick x).outcome = .ok .failure ∧ (t.tick x).state.value.behavior = .repeater s run ∧
      t.value.behavior.events (Tree.handling Tree.tick) t.children x = [] := by
  rw [Tree.outcome_tick, Tree.behavior_tick, hb, hc]
  exact ⟨rfl, rfl, rfl⟩

/-- A tick with a child ends the run and forgets it, or remembers what happened in the tick. -/
theorem behavior_tick_cons (hb : t.value.behavior = .repeater s run) (hc : t.children ≠ [])
    (hlast : run.last ≠ some .running) (x : Stage H) :
    (∀ r, (t.tick x).outcome = .ok r → r ≠ .running →
      (t.tick x).state.value.behavior = .repeater s {}) ∧
    ((∀ r, (t.tick x).outcome = .ok r → r = .running) →
      (t.tick x).state.value.behavior = .repeater s
        ((t.value.behavior.events (Tree.handling Tree.tick) t.children x).foldl Run.next run)) := by
  obtain ⟨c, cs, hc⟩ := List.exists_cons_of_ne_nil hc
  obtain ⟨news, hnews, hended, hpaused⟩ : Keeps run (x.recorded [])
      (tick (Tree.handling Tree.tick).recorded s run (c :: cs) (x.recorded [])) :=
    loop_keeps Tree.tick_ne_ready hlast
  obtain ⟨ho, hst, -⟩ := tick_recorded (Tree.handling Tree.tick) s run (c :: cs) x []
  rw [ho, hst] at hended hpaused
  have hevents : t.value.behavior.events (Tree.handling Tree.tick) t.children x = news := by
    rw [hb, hc]
    exact hnews
  obtain ⟨hout, hbehavior⟩ := Tree.tick_repeater hb x
  rw [hc] at hout hbehavior
  rw [hout, hbehavior, hevents]
  constructor
  · intro r hr hne
    cases ho : (tick (Tree.handling Tree.tick) s run (c :: cs) x).outcome with
    | error p =>
      rw [ho] at hr
      cases hr
    | ok r' =>
      rw [ho] at hr
      cases hr
      rw [hended r' ho (mt Tree.settled_eq_running.2 hne)]
  · intro hr
    rw [hpaused fun r' hr' => Tree.settled_eq_running.1 (hr _ (by rw [hr']; rfl))]

/-- A repeater remembers what has been reported since it last had nothing to remember. -/
theorem Lived.behavior (d : Lived s t es) : t.value.behavior = .repeater s (remembered es) := by
  induction d with
  | made h => exact h
  | @reset t es d ih =>
    rw [Tree.value_reset]
    simp only [Node.reset, ih, Behavior.reset]
    rfl
  | edited d ds ih => exact ih
  | ended d hc h hr ih => exact (behavior_tick_cons ih hc (last_remembered_ne _) _).1 _ h hr
  | @ticked t es d x h ih =>
    by_cases hc : t.children = []
    · obtain ⟨-, hb, hevents⟩ := tick_childless_eq ih hc x
      rw [hb, hevents, List.append_nil]
    · rw [remembered_append]
      exact (behavior_tick_cons ih hc (last_remembered_ne _) x).2 (h.resolve_left hc)

/-- Whatever has been done to a repeater, a tick with a terminal status leaves it with nothing to
remember if it has a child, or if nothing has been reported by a child since it was last so, and only
then. Without a child it fails and goes on to remember all of that. -/
theorem Lived.carries (d : Lived s t es) {x : Stage H} {r : Status}
    (h : (t.tick x).outcome = .ok r) (hr : r.isTerminal) :
    ((t.tick x).state.value.behavior = .repeater s {} ↔
      t.children ≠ [] ∨ ∀ id r, .ticked id (some r) ∉ es) ∧
    (t.children = [] →
      r = .failure ∧ (t.tick x).state.value.behavior = .repeater s (remembered es)) := by
  by_cases hc : t.children = []
  · obtain ⟨ho, hb, -⟩ := tick_childless_eq d.behavior hc x
    rw [ho] at h
    cases h
    refine ⟨?_, fun _ => ⟨rfl, hb⟩⟩
    rw [hb, or_iff_right (not_not_intro hc), ← remembered_eq_iff]
    simp
  · have hne : r ≠ .running := by
      rintro rfl
      cases hr
    have hb := (behavior_tick_cons d.behavior hc (last_remembered_ne es) x).1 r h hne
    exact ⟨iff_of_true hb (.inl hc), fun hnil => absurd hnil hc⟩

/-! ## A run that goes on from one that failed -/

section Bereft

def twoTimes : Settings where
  repeatCount := 2

/-- An action that succeeds, except the second time, when it is running. -/
def faltering : Tree Rehearsal.host :=
  .node (.fresh "a" .action "A" {} .nil
    (.action {} (some fun _ scene =>
      (.value (if scene.host.calls.length = 1 then .running else .success),
        { scene with host := scene.host.call "a" })) {})) []

def insisting : Tree Rehearsal.host :=
  .node (.fresh "r" .repeater "R" {} .nil (.repeater twoTimes {})) [faltering]

/-- A repeater is paused in its second iteration and loses its child, and so it fails. It gets the
child back and does one iteration where two are asked for. -/
theorem counts_on : ∃ child bereft restored,
    (insisting.tick (clock 0)).state.removeChild? "a" = some (child, bereft) ∧
    (bereft.tick (clock 0)).outcome = .ok .failure ∧
    (bereft.tick (clock 0)).state.value.behavior ≠ .repeater twoTimes {} ∧
    (bereft.tick (clock 0)).state.insertChild 0 child = .ok restored ∧
    (restored.tick (clock 0)).outcome = .ok .success ∧
    restored.value.behavior.events (Tree.handling Tree.tick) restored.children (clock 0) =
      [.ticked "a" (some .success)] := by
  refine ⟨_, _, _, rfl, rfl, ?_, rfl, rfl, rfl⟩
  intro hb
  cases hb

/-- What the repeater goes on to remember when it fails. -/
theorem carries_bereft : ∃ bereft es, Lived twoTimes bereft es ∧
    (bereft.tick (clock 0)).outcome = .ok .failure ∧
    (bereft.tick (clock 0)).state.value.behavior = .repeater twoTimes
      { iteration := 1, inProgress := true, last := some .success, seenSuccess := true } := by
  have hmade : Lived twoTimes insisting [] := .made rfl
  have hpaused := hmade.ticked (x := clock 0) (.inr fun r hr => by cases hr; rfl)
  have hbereft := hpaused.removeChild? (rfl : Tree.removeChild? _ "a" = some (_, _))
  exact ⟨_, _, hbereft, rfl, ((Lived.carries hbereft (x := clock 0) rfl rfl).2 rfl).2⟩

end Bereft

end Conduct.Repeater
