import Conduct.Proofs.Errors
import Conduct.Proofs.Repetition.Story

/-! Repeaters repeat as they are told.

A run of a repeater goes on until its first child has come to as many verdicts as the settings ask
for, or to one that ends it, and no tick of the child comes after that. What is reported follows from
the verdicts alone. A child that is running pauses the run and nothing else. Main statement:
`Tree.Repeating.repeats`.
-/

set_option autoImplicit false

namespace Conduct

variable {H : Host} {γ : Type}

namespace Repeater

variable {s : Settings} {id : String} {its : List Iteration} {within : Option Nat}

/-! ## Runs that go on -/

/-- A run goes on after these iterations, or has not noticed yet that it is over; if it is in the
middle of another iteration, it does go on. -/
structure Ongoing (s : Settings) (its : List Iteration) (within : Option Nat) : Prop where
  passed : ∀ i ∈ its, (i.verdict = .success ∨ i.verdict = .failure) ∧ ¬ s.Ends i.verdict
  early : ∀ k < its.length, ¬ s.Stops ((verdicts its).take k)
  begun : within.isSome → ¬ s.Stops (verdicts its)

/-- How a run stands after these events, with what the repeater reports and remembers. -/
inductive Stands (s : Settings) (id : String) (es : List Event) : Status → Run → Prop
  | paused {its : List Iteration} {pauses : Nat} (hon : Ongoing s its (some (pauses + 1)))
      (hes : es = storyWithin s id its (pauses + 1)) :
      Stands s id es .running (.after (verdicts its) true)
  | ended {its : List Iteration} {r : Status} (hterminal : ∀ i ∈ its, i.verdict.isTerminal)
      (hearly : ∀ k < its.length, ¬ s.Stops ((verdicts its).take k))
      (hstops : s.Stops (verdicts its)) (hr : r = s.verdict (verdicts its))
      (hes : es = story s id its) : Stands s id es r {}

theorem Stands.reported {es : List Event} {r : Status} {run : Run} (h : Stands s id es r run) :
    (run.inProgress = false → r ≠ .running) ∧ r.settled = r := by
  cases h with
  | paused hon hes => exact ⟨nofun, rfl⟩
  | ended hterminal hearly hstops hr hes =>
    have hverdict : (s.verdict (verdicts _)).isTerminal :=
      isTerminal_verdict s (List.forall_mem_map.2 hterminal)
    rw [← hr] at hverdict
    cases r with
    | ready | running => cases hverdict
    | success | failure | error => exact ⟨nofun, rfl⟩

theorem ongoing_nil (s : Settings) : Ongoing s [] none where
  passed := by simp
  early := by simp
  begun := by simp

namespace Ongoing

theorem begin (hon : Ongoing s its within) (hlt : its.length < s.maxIterations.toNat)
    (hcount : countReached s (Run.after (verdicts its) within.isSome) = false) (pauses : Nat) :
    Ongoing s its (some pauses) where
  passed := hon.passed
  early := hon.early
  begun _ := by
    rintro (hreached | hmax | ⟨r, hlast, hends⟩)
    · have htrue := (countReached_after (verdicts its) within.isSome (by simp; omega)
        (by simpa using hon.early)).2 hreached
      rw [hcount] at htrue
      cases htrue
    · rw [length_verdicts] at hmax
      omega
    · obtain ⟨i, hi, rfl⟩ := List.mem_map.1 (List.mem_of_getLast? hlast)
      exact (hon.passed i hi).2 hends

/-- What was so of the shorter runs is so of those that one more iteration makes shorter. -/
theorem early_concat {pauses : Nat} (hon : Ongoing s its (some pauses)) (i : Iteration) :
    ∀ k < (its ++ [i]).length, ¬ s.Stops ((verdicts (its ++ [i])).take k) := by
  intro k hk
  rw [List.length_append, List.length_singleton] at hk
  rw [verdicts_concat, List.take_append_of_le_length (by simp; omega)]
  rcases Nat.lt_succ_iff_lt_or_eq.1 hk with hlt | rfl
  · exact hon.early k hlt
  · rw [List.take_of_length_le (by simp)]
    exact hon.begun rfl

theorem finish {pauses : Nat} {r : Status} (hon : Ongoing s its (some pauses))
    (hr : r = .success ∨ r = .failure) (hends : ¬ s.Ends r) :
    Ongoing s (its ++ [⟨pauses, r⟩]) none where
  passed := List.forall_mem_append.2 ⟨hon.passed, by simpa using ⟨hr, hends⟩⟩
  early := hon.early_concat _
  begun := by simp

theorem terminal (hon : Ongoing s its within) : ∀ i ∈ its, i.verdict.isTerminal := by
  intro i hi
  rcases (hon.passed i hi).1 with hr | hr
  · rw [hr]
    rfl
  · rw [hr]
    rfl

/-- The run is over before another iteration begins. -/
theorem concluded (hon : Ongoing s its none) (hstops : s.Stops (verdicts its)) (within : Bool) :
    Stands s id (story s id its) (finalStatus s (Run.after (verdicts its) within)) {} := by
  have hcalm : ∀ r ∈ verdicts its, r ≠ .error ∧ ¬ s.Ends r := by
    intro r hr
    obtain ⟨i, hi, rfl⟩ := List.mem_map.1 hr
    obtain ⟨hr, hends⟩ := hon.passed i hi
    refine ⟨?_, hends⟩
    rcases hr with hr | hr
    · simp [hr]
    · simp [hr]
  rw [finalStatus_after within (fun r hr => (hcalm r (List.dropLast_subset _ hr)).2)
    fun herror => (hcalm _ (List.mem_of_getLast? herror)).1 rfl]
  exact .ended hon.terminal hon.early hstops rfl rfl

/-- The run is over with the verdict of an iteration. -/
theorem ended {pauses : Nat} {r : Status} (hon : Ongoing s its (some pauses)) (id : String)
    (hr : r.isTerminal) (hends : s.Ends r) :
    Stands s id (story s id (its ++ [⟨pauses, r⟩])) (s.verdict (verdicts its ++ [r])) {} := by
  have hverdicts := verdicts_concat its ⟨pauses, r⟩
  refine .ended (List.forall_mem_append.2 ⟨hon.terminal, by simpa using hr⟩) (hon.early_concat _) ?_
    (by rw [hverdicts]) rfl
  rw [hverdicts]
  exact .inr (.inr ⟨r, List.getLast?_concat, hends⟩)

/-- The loop breaks after an iteration. -/
theorem breaks {pauses : Nat} {r : Status} (hon : Ongoing s its (some pauses)) (id : String)
    (hr : r = .success ∨ r = .failure) (hends : s.Ends r) (within : Bool) :
    Stands s id (story s id (its ++ [⟨pauses, r⟩]))
      (finalStatus s ((Run.after (verdicts its) within).finishIteration r)) {} := by
  have hcalm : ∀ r ∈ verdicts its, ¬ s.Ends r :=
    List.forall_mem_map.2 fun i hi => (hon.passed i hi).2
  have hterminal : r.isTerminal := by rcases hr with rfl | rfl <;> rfl
  have herror : (verdicts its ++ [r]).getLast? ≠ some .error := by
    rw [List.getLast?_concat]
    rcases hr with rfl | rfl <;> simp
  rw [Run.finishIteration_after, finalStatus_after false (by rwa [List.dropLast_concat]) herror]
  exact hon.ended id hterminal hends

end Ongoing

/-! ## The loop -/

/-- What a turn that begins after these events makes of the run. -/
def Tells (s : Settings) (id : String) (before : List Event) (x : Stage H.recorded)
    (turn : Turn H.recorded Status (Run × γ)) : Prop :=
  ∃ news, turn.stage.events = x.events ++ news ∧
    (turn.outcome = .ok .running ↔ .ticked id (some .running) ∈ news) ∧
    (∀ p, turn.outcome = .error p → .ticked id none ∈ news) ∧
    ∀ r, turn.outcome = .ok r → Stands s id (before ++ news) r turn.state.1

theorem Tells.ended {before : List Event} {x y : Stage H.recorded} {e : Event} {r : Status}
    {run : Run} {c : γ} (he : y.events = x.events ++ [e])
    (hrunning : r = .running ↔ e = .ticked id (some .running))
    (hstands : Stands s id (before ++ [e]) r run) :
    Tells s id before x ⟨.ok r, (run, c), y⟩ := by
  refine ⟨[e], he, ?_, nofun, ?_⟩
  · simpa [eq_comm] using hrunning
  · rintro r' ⟨⟩
    exact hstands

theorem Tells.after {before es : List Event} {x y : Stage H.recorded}
    {turn : Turn H.recorded Status (Run × γ)} (ht : Tells s id (before ++ es) y turn)
    (he : y.events = x.events ++ es) (hes : .ticked id (some .running) ∉ es) :
    Tells s id before x turn := by
  obtain ⟨news, hnews, hrunning, hpanic, hstands⟩ := ht
  refine ⟨es ++ news, ?_, ?_, fun p hp => List.mem_append_right _ (hpanic p hp), fun r hr => ?_⟩
  · rw [hnews, he, List.append_assoc]
  · rw [hrunning, List.mem_append, or_iff_right hes]
  · rw [← List.append_assoc]
    exact hstands r hr

/-- The run is over if it should be, and nothing more is done. -/
theorem Ongoing.tells (hon : Ongoing s its within) (hstops : s.Stops (verdicts its)) (c : γ)
    (x : Stage H.recorded) : Tells s id (soFar s id its within) x
      ⟨.ok (finalStatus s (Run.after (verdicts its) within.isSome)), ({}, c), x⟩ := by
  cases within with
  | some pauses => exact absurd hstops (hon.begun rfl)
  | none =>
    have hover : Stands s id (story s id its) (finalStatus s (Run.after (verdicts its) false)) {} :=
      hon.concluded hstops false
    refine ⟨[], (List.append_nil _).symm, ?_, nofun, ?_⟩
    · simpa using hover.reported.1 rfl
    · rintro r ⟨⟩
      rwa [List.append_nil]

/-- At the start of an iteration the child is reset, if it is told to be and this is not the first
one; in the middle of an iteration it is not. -/
theorem events_prepare (h : Handling H γ) (hle : its.length ≤ s.maxIterations.toNat)
    (within : Option Nat) (c : γ) (x : Stage H.recorded) :
    ∃ es, (prepare h.recorded s (Run.after (verdicts its) within.isSome) c x).2.events =
        x.events ++ es ∧
      soFar s (h.id c) its within ++ es = storyWithin s (h.id c) its (within.getD 0) ∧
      .ticked (h.id c) (some .running) ∉ es := by
  have hiteration : 0 < (Run.after (verdicts its) within.isSome).iteration ↔ its ≠ [] := by
    rw [UInt32.lt_iff_toNat_lt, Run.toNat_iteration_after (s := s) _ (by simpa using hle),
      length_verdicts]
    exact List.length_pos_iff
  have hwithin : (Run.after (verdicts its) within.isSome).inProgress = within.isSome := rfl
  unfold prepare
  simp only [hiteration, hwithin]
  cases within with
  | some pauses =>
    refine ⟨[], ?_, List.append_nil _, List.not_mem_nil⟩
    simp
  | none =>
    refine ⟨if its = [] then [] else s.between (h.id c), ?_, story_begin, ?_⟩
    · by_cases hnil : its = []
      · simp [hnil]
      · by_cases hreset : s.resetChild
        · simp only [hnil, hreset, Settings.between, Option.isSome_none, ne_eq, not_false_eq_true,
            and_self, if_true, if_false]
          rfl
        · simp [hnil, hreset, Settings.between]
    · unfold Settings.between
      split
      · exact List.not_mem_nil
      · split
        · simp
        · exact List.not_mem_nil

theorem loop_tells {h : Handling H γ} (k : h.Keeps h.id)
    (hready : ∀ c x, (h.tick c x).outcome ≠ .ok .ready) {left : Nat} {c : γ} {x : Stage H.recorded}
    (hon : Ongoing s its within) (hleft : left + its.length = s.maxIterations.toNat) :
    Tells s (h.id c) (soFar s (h.id c) its within) x
      (loop h.recorded s left (Run.after (verdicts its) within.isSome) c x) := by
  induction left generalizing its within c x with
  | zero => exact hon.tells (.inr (.inl (by simp; omega))) c x
  | succ left ih =>
    simp only [loop]
    split
    · next hcount =>
      have hreached := (countReached_after (verdicts its) within.isSome (by simp; omega)
        (by simpa using hon.early)).1 hcount
      exact hon.tells (.inl hreached) c x
    · next hcount =>
      obtain ⟨es, he, hstory, hes⟩ := events_prepare h (s := s) (by omega : its.length ≤ _) within c x
      have hid := keeps_prepare (h := h.recorded) (f := h.id) ⟨fun c y => k.tick c y.forget, k.reset⟩ s
        (Run.after (verdicts its) within.isSome) c x
      have hbegun := hon.begin (by omega) (by simpa using hcount) (within.getD 0)
      generalize within.getD 0 = pauses at hstory hbegun
      generalize prepare h.recorded s (Run.after (verdicts its) within.isSome) c x = prepared
        at he hid
      obtain ⟨c', x'⟩ := prepared
      dsimp only at he hid ⊢
      refine Tells.after ?_ he hes
      rw [hstory, ← hid]
      have hticked := h.events_recorded c' x'
      have ho := h.outcome_recorded c' x'
      cases hout : (h.tick c' x'.forget).outcome with
      | error p =>
        rw [hout] at ho hticked
        simp only [ho]
        exact ⟨_, hticked, by simp [Except.toOption], fun _ _ => List.mem_singleton_self _,
          fun _ hr => (by cases hr)⟩
      | ok r =>
        rw [hout] at ho hticked
        simp only [ho]
        cases r with
        | ready => exact absurd hout (hready c' x'.forget)
        | running =>
          refine Tells.ended hticked (by simp [Except.toOption]) ?_
          rw [Except.toOption, storyWithin_pause]
          exact .paused ⟨hbegun.passed, hbegun.early, hbegun.begun⟩ rfl
        | error =>
          refine Tells.ended hticked (by simp [Except.toOption]) ?_
          rw [Except.toOption, storyWithin_finish]
          have hended := hbegun.ended (h.id c') (r := .error) rfl (.inl rfl)
          simpa [Settings.verdict] using hended
        | success | failure =>
          dsimp only
          split
          · next hbreaks =>
            have hends := (breaksOn_iff (by simp)).1 hbreaks
            have hbreaks := hbegun.breaks (h.id c') (by simp) hends within.isSome
            refine Tells.ended hticked ?_ ?_
            · simpa [Except.toOption] using hbreaks.reported.1 rfl
            · rwa [Except.toOption, storyWithin_finish]
          · next hbreaks =>
            have hends := mt (breaksOn_iff (by simp)).2 hbreaks
            refine Tells.after ?_ hticked (by simp [Except.toOption])
            rw [Except.toOption, storyWithin_finish, Run.finishIteration_after, ← k.tick c' x'.forget]
            have hon := hbegun.finish (by simp) hends
            have htells := ih (c := (h.tick c' x'.forget).state)
              (x := (h.recorded.tick c' x').stage) hon (by simp; omega)
            rwa [verdicts_concat] at htells

theorem Ongoing.length_le (hon : Ongoing s its within) :
    its.length ≤ s.maxIterations.toNat := by
  by_contra hlt
  refine hon.early s.maxIterations.toNat (by omega) (.inr (.inl ?_))
  rw [List.length_take, length_verdicts]
  omega

/-- A tick of a repeater that has a child. -/
theorem tick_tells {h : Handling H γ} (k : h.Keeps h.id)
    (hready : ∀ c x, (h.tick c x).outcome ≠ .ok .ready) (hon : Ongoing s its within) (c : γ)
    (cs : List γ) (x : Stage H) :
    Tells s (h.id c) (soFar s (h.id c) its within) (x.recorded [])
      (tick h.recorded s (Run.after (verdicts its) within.isSome) (c :: cs) (x.recorded [])) := by
  have hle := hon.length_le
  have hiteration := Run.toNat_iteration_after (s := s) within.isSome
    (by simpa using hle : (verdicts its).length ≤ _)
  rw [length_verdicts] at hiteration
  exact loop_tells k hready hon (by omega)

end Repeater

namespace Tree

open Repeater (Iteration Ongoing Stands soFar story storyWithin verdicts)

variable {s : Repeater.Settings} {id : String} {t : Tree H} {es : List Event}

/-- A repeater with the given settings and first child in a run: all ticks of it so far have paused
it, and these are the events of the run. A panic is no part of a run, since the root that catches it
resets the repeater. -/
inductive Repeating (s : Repeater.Settings) (id : String) : Tree H → List Event → Prop
  | fresh {t c : Tree H} {cs : List (Tree H)} (hb : t.value.behavior = .repeater s {})
      (hc : t.children = c :: cs) (hid : c.id = id) : Repeating s id t []
  | paused {t : Tree H} {es : List Event} (d : Repeating s id t es) {x : Stage H}
      (h : (t.tick x).outcome = .ok .running) :
      Repeating s id (t.tick x).state
        (es ++ t.value.behavior.events (handling tick) t.children x)

/-- What one tick makes of a run. -/
theorem tick_stands {its : List Iteration} {within : Option Nat} {c : Tree H} {cs : List (Tree H)}
    (hb : t.value.behavior = .repeater s (.after (verdicts its) within.isSome))
    (hc : t.children = c :: cs) (hon : Ongoing s its within) (x : Stage H) :
    ((t.tick x).outcome = .ok .running ↔
      .ticked c.id (some .running) ∈ t.value.behavior.events (handling tick) t.children x) ∧
    (∀ p, (t.tick x).outcome = .error p →
      .ticked c.id none ∈ t.value.behavior.events (handling tick) t.children x) ∧
    ∀ r, (t.tick x).outcome = .ok r → ∃ run,
      (t.tick x).state.value.behavior = .repeater s run ∧
      Stands s c.id (soFar s c.id its within ++
        t.value.behavior.events (handling tick) t.children x) r run := by
  obtain ⟨news, hnews, hrunning, hpanic, hstands⟩ :=
    Repeater.tick_tells keeps_id tick_ne_ready hon c cs x
  obtain ⟨ho, hst, -⟩ := Repeater.tick_recorded (handling tick) s
    (.after (verdicts its) within.isSome) (c :: cs) x []
  have hevents : t.value.behavior.events (handling tick) t.children x = news := by
    rw [hb, hc]
    exact hnews
  rw [ho] at hrunning hpanic hstands
  rw [hst] at hstands
  obtain ⟨hout, hbehavior⟩ := tick_repeater hb x
  rw [hevents, hout, hbehavior, hc]
  cases hout : (Repeater.tick (handling tick) s (.after (verdicts its) within.isSome) (c :: cs)
      x).outcome with
  | error p =>
    rw [hout] at hrunning hpanic
    refine ⟨?_, fun _ _ => hpanic p rfl, nofun⟩
    exact ⟨nofun, fun he => by cases hrunning.2 he⟩
  | ok r =>
    have hr := hstands r hout
    rw [hout] at hrunning
    simp only [Except.map, hr.reported.2]
    refine ⟨hrunning, nofun, ?_⟩
    rintro r' ⟨⟩
    exact ⟨_, rfl, hr⟩

theorem Repeating.ongoing (d : Repeating s id t es) : ∃ its within, ∃ (c : Tree H) (cs : _),
    t.value.behavior = .repeater s (.after (verdicts its) within.isSome) ∧ t.children = c :: cs ∧
      Tree.id c = id ∧ Ongoing s its within ∧ es = soFar s id its within := by
  induction d with
  | @fresh t c cs hb hc hid => exact ⟨[], none, c, cs, hb, hc, hid, Repeater.ongoing_nil s, rfl⟩
  | @paused t es d x h ih =>
    obtain ⟨its, within, c, cs, hb, hc, rfl, hon, rfl⟩ := ih
    obtain ⟨run, hb', hstands⟩ := (tick_stands hb hc hon x).2.2 .running h
    have hreported := hstands.reported.1
    have hids : (t.tick x).state.children.map Tree.id = (c :: cs).map Tree.id := by
      rw [children_tick, Behavior.map_tick keeps_id, hc]
    obtain ⟨c', cs', hc', hid, -⟩ := List.map_eq_cons_iff.1 hids
    cases hstands with
    | @paused its pauses hon hes =>
      exact ⟨its, some (pauses + 1), c', cs', hb', hc', hid, hon, hes⟩
    | ended hterminal hearly hstops hr hes => exact absurd rfl (hreported rfl)

/-- The events of a run are those of iterations of the first child, with a reset between two of them
if the settings want it. The run is over when it should be and not before, with the verdict that the
settings make of those of the child. A tick is running if and only if the child was in it. -/
theorem Repeating.repeats (d : Repeating s id t es) (x : Stage H) :
    ((t.tick x).outcome = .ok .running ↔
      .ticked id (some .running) ∈ t.value.behavior.events (handling tick) t.children x) ∧
    (∀ p, (t.tick x).outcome = .error p →
      .ticked id none ∈ t.value.behavior.events (handling tick) t.children x) ∧
    ∀ r, (t.tick x).outcome = .ok r → ∃ its : List Iteration,
      (∀ i ∈ its, i.verdict.isTerminal) ∧ (∀ k < its.length, ¬ s.Stops ((verdicts its).take k)) ∧
      ((r = .running ∧ ¬ s.Stops (verdicts its) ∧ ∃ pauses,
          es ++ t.value.behavior.events (handling tick) t.children x =
            storyWithin s id its (pauses + 1)) ∨
        (s.Stops (verdicts its) ∧ r = s.verdict (verdicts its) ∧
          es ++ t.value.behavior.events (handling tick) t.children x = story s id its)) := by
  obtain ⟨its, within, c, cs, hb, hc, rfl, hon, rfl⟩ := d.ongoing
  obtain ⟨hrunning, hpanic, hstands⟩ := tick_stands hb hc hon x
  refine ⟨hrunning, hpanic, fun r hr => ?_⟩
  obtain ⟨run, -, hstands⟩ := hstands r hr
  cases hstands with
  | @paused its pauses hon hes =>
    exact ⟨its, hon.terminal, hon.early, .inl ⟨rfl, hon.begun rfl, pauses, hes⟩⟩
  | @ended its _ hterminal hearly hstops hr hes =>
    exact ⟨its, hterminal, hearly, .inr ⟨hstops, hr, hes⟩⟩

section Twice

def twiceOver : Repeater.Settings where
  repeatCount := 2
  resetChild := true

/-- A repeater above an action that is running until a time has come. -/
def again : Tree Rehearsal.host :=
  .node (.fresh "r" .repeater "R" {} .nil (.repeater twiceOver {}))
    [.node (.fresh "a" .action "A" {} .nil
      (.action {} (some fun _ scene =>
        (.value (if scene.now < 5 then .running else .success), scene)) {})) []]

/-- The first iteration takes two ticks of the repeater, and the second one is done in the same tick
as the end of the first. -/
theorem repeats_twice : ∃ es its, Repeating twiceOver "a" (again.tick (Rehearsal.clock 0)).state es ∧
    ((again.tick (Rehearsal.clock 0)).state.tick (Rehearsal.clock 9)).outcome = .ok .success ∧
    twiceOver.Stops (verdicts its) ∧ .success = twiceOver.verdict (verdicts its) ∧
    story twiceOver "a" its = [.ticked "a" (some .running), .ticked "a" (some .success), .reset "a",
      .ticked "a" (some .success)] := by
  have d : Repeating twiceOver "a" again [] := .fresh rfl rfl rfl
  have dpaused := d.paused (x := Rehearsal.clock 0) rfl
  obtain ⟨-, -, hends⟩ := Repeating.repeats dpaused (Rehearsal.clock 9)
  obtain ⟨its, -, -, ⟨hr, -⟩ | ⟨hstops, hr, hes⟩⟩ := hends .success rfl
  · cases hr
  · exact ⟨_, its, dpaused, rfl, hstops, hr, hes.symm⟩

end Twice

end Tree

end Conduct
