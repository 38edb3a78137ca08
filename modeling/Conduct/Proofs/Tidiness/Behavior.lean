import Conduct.Proofs.Tidiness.Composite
import Conduct.Proofs.Tidiness.Parallel

/-! What a tick leaves of a run.

A tick of a behavior that is idle or paused leaves it paused if it reports running, and idle if it
reports anything else. Main statement: `Behavior.tick_tidy`.
-/

set_option autoImplicit false

namespace Conduct

variable {H : Host} {γ : Type} {h : Handling H γ} {status : γ → Status} {Shape Good : γ → Prop}
  {r : Status}

/-! ## Nodes with one child -/

namespace Repeater

theorem good_prepare (a : h.Tidy status Shape Good) (s : Settings) (run : Run) {c : γ}
    (stage : Stage H) (hc : Good c) : Good (prepare h s run c stage).1 := by
  unfold prepare
  split
  · exact (a.reset c (a.shape c hc)).1
  · exact hc

/-- What a loop leaves when it reports a status. -/
structure Left (status : γ → Status) (Good : γ → Prop) (s : Settings) (r : Status) (run : Run)
    (c : γ) : Prop where
  good : Good c
  idle : r ≠ .running → run = {} ∧ status c ≠ .running
  paused : r = .running → Goes s run

variable {s : Settings} {run : Run} {c : γ}

theorem Left.ended (hgood : Good c) (hc : status c ≠ .running)
    (hlast : run.last.getD .success ≠ .running) :
    Left status Good s (finalStatus s run) {} c where
  good := hgood
  idle _ := ⟨rfl, hc⟩
  paused hr := absurd hr (finalStatus_ne_running s hlast)

theorem loop_tidy (a : h.Tidy status Shape Good) (s : Settings) (left : Nat) (run : Run) (c : γ)
    (stage : Stage H) (hc : Good c)
    (hleft : left + run.iteration.toNat = s.maxIterations.toNat)
    (hlast : run.last.getD .success ≠ .running)
    (hwait : status c = .running → countReached s run = false ∧ 0 < left)
    (ho : (loop h s left run c stage).outcome = .ok r) :
    Left status Good s r (loop h s left run c stage).state.1
      (loop h s left run c stage).state.2 := by
  induction left generalizing run c stage with
  | zero =>
    simp only [loop] at ho ⊢
    cases ho
    exact .ended hc (fun hr => absurd (hwait hr).2 (Nat.lt_irrefl 0)) hlast
  | succ left ih =>
    simp only [loop] at ho ⊢
    by_cases hcount : countReached s run = true
    · rw [if_pos hcount] at ho ⊢
      cases ho
      refine .ended hc (fun hr => ?_) hlast
      rw [(hwait hr).1] at hcount
      cases hcount
    · rw [if_neg hcount] at ho ⊢
      have hprepared := good_prepare a s run stage hc
      generalize prepare h s run c stage = prepared at ho hprepared ⊢
      obtain ⟨c', stage'⟩ := prepared
      dsimp only at ho hprepared ⊢
      cases hout : (h.tick c' stage').outcome with
      | error p =>
        simp only [hout] at ho
        cases ho
      | ok reported =>
        obtain ⟨hgood, hstatus, hready⟩ := a.ticked c' stage' reported hprepared hout
        cases reported with
        | ready => exact absurd rfl hready
        | running =>
          simp only [hout] at ho ⊢
          cases ho
          have hcount' : countReached s { run with inProgress := true } = false := by
            simpa [countReached] using hcount
          have hlt : run.iteration.toNat < s.maxIterations.toNat := by omega
          exact ⟨hgood, fun hr => absurd rfl hr, fun _ => ⟨hcount', hlt, hlast⟩⟩
        | error =>
          simp only [hout] at ho ⊢
          cases ho
          have hdone : status (h.tick c' stage').state ≠ .running := by
            rw [hstatus]
            decide
          exact ⟨hgood, fun _ => ⟨rfl, hdone⟩, fun hr => absurd hr (by decide)⟩
        | success =>
          have hdone : status (h.tick c' stage').state ≠ .running := by
            rw [hstatus]
            decide
          by_cases hbreak : breaksOn s .success = true
          · simp only [hout, if_pos hbreak] at ho ⊢
            cases ho
            exact .ended hgood hdone (by simp [Run.finishIteration])
          · simp only [hout, if_neg hbreak] at ho ⊢
            exact ih (run.finishIteration .success) _ _ hgood (left_finishIteration _ hleft)
              (by simp [Run.finishIteration]) (fun hr => absurd hr hdone) ho
        | failure =>
          have hdone : status (h.tick c' stage').state ≠ .running := by
            rw [hstatus]
            decide
          by_cases hbreak : breaksOn s .failure = true
          · simp only [hout, if_pos hbreak] at ho ⊢
            cases ho
            exact .ended hgood hdone (by simp [Run.finishIteration])
          · simp only [hout, if_neg hbreak] at ho ⊢
            exact ih (run.finishIteration .failure) _ _ hgood (left_finishIteration _ hleft)
              (by simp [Run.finishIteration]) (fun hr => absurd hr hdone) ho

theorem tick_tidy (a : h.Tidy status Shape Good) (s : Settings) (run : Run) (cs : List γ)
    (stage : Stage H) (hgood : ∀ c ∈ cs, Good c)
    (hrun : run = {} ∧ Still status cs ∨ FirstOnly status cs ∧ Goes s run)
    (ho : (tick h s run cs stage).outcome = .ok r) :
    (∀ c ∈ (tick h s run cs stage).state.2, Good c) ∧
      (r ≠ .running → (tick h s run cs stage).state.1 = {} ∧
        Still status (tick h s run cs stage).state.2) ∧
      (r = .running → FirstOnly status (tick h s run cs stage).state.2 ∧
        Goes s (tick h s run cs stage).state.1) := by
  cases cs with
  | nil =>
    simp only [tick] at ho ⊢
    cases ho
    have hempty : run = {} := by
      rcases hrun with ⟨he, -⟩ | ⟨⟨c, rest, he, -⟩, -⟩
      · exact he
      · cases he
    exact ⟨hgood, fun _ => ⟨hempty, still_nil⟩, fun hr => absurd hr (by decide)⟩
  | cons c rest =>
    obtain ⟨hc, hrest⟩ := List.forall_mem_cons.1 hgood
    have hothers : Still status rest := by
      rcases hrun with ⟨-, hs⟩ | ⟨⟨d, ds, he, hs⟩, -⟩
      · exact (still_cons.1 hs).2
      · cases he
        exact hs
    have hwait : status c = .running →
        countReached s run = false ∧ 0 < s.maxIterations.toNat - run.iteration.toNat := by
      intro hr
      rcases hrun with ⟨-, hs⟩ | ⟨-, hgoes⟩
      · exact absurd hr (still_cons.1 hs).1
      · have hlt := hgoes.left
        exact ⟨hgoes.uncounted, by omega⟩
    have hleft : s.maxIterations.toNat - run.iteration.toNat + run.iteration.toNat =
        s.maxIterations.toNat := by
      rcases hrun with ⟨rfl, -⟩ | ⟨-, hgoes⟩
      · rfl
      · have hlt := hgoes.left
        omega
    have hlast : run.last.getD .success ≠ .running := by
      rcases hrun with ⟨rfl, -⟩ | ⟨-, hgoes⟩
      · simp
      · exact hgoes.last
    have hl := loop_tidy a s _ run c stage hc hleft hlast hwait ho
    refine ⟨List.forall_mem_cons.2 ⟨hl.good, hrest⟩, fun hr => ⟨(hl.idle hr).1, ?_⟩,
      fun hr => ⟨⟨_, rest, rfl, hothers⟩, hl.paused hr⟩⟩
    exact still_cons.2 ⟨(hl.idle hr).2, hothers⟩

end Repeater

theorem Inverter.tick_tidy (a : h.Tidy status Shape Good) {s : Settings}
    (hs : s.invertRunning = false) (cs : List γ) (stage : Stage H) (hgood : ∀ c ∈ cs, Good c)
    (hrun : Still status cs ∨ FirstOnly status cs) (ho : (tick h s cs stage).outcome = .ok r) :
    (∀ c ∈ (tick h s cs stage).state, Good c) ∧
      (r ≠ .running → Still status (tick h s cs stage).state) ∧
      (r = .running → FirstOnly status (tick h s cs stage).state) := by
  cases cs with
  | nil =>
    simp only [tick] at ho ⊢
    cases ho
    exact ⟨hgood, fun _ => still_nil, fun hr => absurd hr (by decide)⟩
  | cons c rest =>
    obtain ⟨hc, hrest⟩ := List.forall_mem_cons.1 hgood
    have hothers : Still status rest := by
      rcases hrun with hs | ⟨d, ds, he, hs⟩
      · exact (still_cons.1 hs).2
      · cases he
        exact hs
    simp only [tick] at ho ⊢
    cases hout : (h.tick c stage).outcome with
    | error p =>
      rw [hout] at ho
      cases ho
    | ok reported =>
      obtain ⟨hgood', hstatus, -⟩ := a.ticked c stage reported hc hout
      rw [hout] at ho
      cases ho
      refine ⟨List.forall_mem_cons.2 ⟨hgood', hrest⟩,
        fun hr => still_cons.2 ⟨fun hrun => hr ?_, hothers⟩, fun _ => ⟨_, rest, rfl, hothers⟩⟩
      rw [← hstatus, hrun]
      simp only [turnRound, hs, Bool.false_eq_true, if_false]

theorem Root.tick_tidy (a : h.Tidy status Shape Good) (s : Settings) (started : Option UInt64)
    (cs : List γ) (stage : Stage H) (hgood : ∀ c ∈ cs, Good c)
    (hrun : started = none ∧ Still status cs ∨ FirstOnly status cs)
    (ho : (tick h s started cs stage).outcome = .ok r) :
    (∀ c ∈ (tick h s started cs stage).state.2, Good c) ∧
      (r ≠ .running → (tick h s started cs stage).state.1 = none ∧
        Still status (tick h s started cs stage).state.2) ∧
      (r = .running → FirstOnly status (tick h s started cs stage).state.2) := by
  cases cs with
  | nil =>
    simp only [tick] at ho ⊢
    cases ho
    have hnone : started = none := by
      rcases hrun with ⟨he, -⟩ | ⟨c, rest, he, -⟩
      · exact he
      · cases he
    exact ⟨hgood, fun _ => ⟨hnone, still_nil⟩, fun hr => absurd hr (by decide)⟩
  | cons c rest =>
    obtain ⟨hc, hrest⟩ := List.forall_mem_cons.1 hgood
    have hothers : Still status rest := by
      rcases hrun with ⟨-, hs⟩ | ⟨d, ds, he, hs⟩
      · exact (still_cons.1 hs).2
      · cases he
        exact hs
    have hunwound := a.unwound c (stage.raise s.flags) hc
    obtain ⟨hreset, hstill⟩ := a.reset _ hunwound
    have hgiven : (∀ d ∈ h.reset (h.tick c (stage.raise s.flags)).state :: rest, Good d) ∧
        Still status (h.reset (h.tick c (stage.raise s.flags)).state :: rest) :=
      ⟨List.forall_mem_cons.2 ⟨hreset, hrest⟩, still_cons.2 ⟨hstill, hothers⟩⟩
    simp only [tick] at ho ⊢
    cases hout : (h.tick c (stage.raise s.flags)).outcome with
    | error p =>
      simp only [hout, giveUp] at ho ⊢
      cases ho
      exact ⟨hgiven.1, fun _ => ⟨trivial, hgiven.2⟩, fun hr => absurd hr (by decide)⟩
    | ok reported =>
      obtain ⟨hgood', hstatus, hready⟩ := a.ticked c (stage.raise s.flags) reported hc hout
      simp only [hout] at ho ⊢
      split at ho
      · next hover =>
        rw [if_pos hover]
        cases ho
        exact ⟨hgiven.1, fun _ => ⟨rfl, hgiven.2⟩, fun hr => absurd hr (by decide)⟩
      · next hover =>
        rw [if_neg hover]
        cases ho
        refine ⟨List.forall_mem_cons.2 ⟨hgood', hrest⟩, fun hr => ⟨?_, still_cons.2 ⟨?_, hothers⟩⟩,
          fun _ => ⟨_, rest, rfl, hothers⟩⟩
        · cases r with
          | ready => exact absurd rfl hready
          | running => exact absurd rfl hr
          | success => rfl
          | failure => rfl
          | error => rfl
        · rw [hstatus]
          exact hr

/-! ## Actions -/

namespace Action

variable {s : Settings} {script : Option (Script H Status)} {run : Run}

theorem perform_holds (stage : Stage H) (hr : Holds s run) :
    Holds s (perform s script run stage).2.1 ∧
      ((perform s script run stage).1 ≠ .value .running →
        (perform s script run stage).2.1.waitStarted = none) := by
  have hsame : s.deed ≠ .wait → Holds s run ∧ run.waitStarted = none := fun hd => ⟨hr, hr hd⟩
  unfold perform
  cases hd : s.deed with
  | custom =>
    have hsame := hsame (by rw [hd]; decide)
    cases script with
    | none => exact ⟨hsame.1, fun _ => hsame.2⟩
    | some script => exact ⟨hsame.1, fun _ => hsame.2⟩
  | moveTo => exact ⟨hr, fun _ => (hsame (by rw [hd]; decide)).2⟩
  | attack => exact ⟨hr, fun _ => (hsame (by rw [hd]; decide)).2⟩
  | interact => exact ⟨hr, fun _ => (hsame (by rw [hd]; decide)).2⟩
  | wait =>
    refine ⟨fun hne => absurd hd hne, fun hne => ?_⟩
    simp only [wait] at hne ⊢
    split at hne
    · next hpassed => rw [if_pos hpassed]
    · exact absurd rfl hne

theorem report_holds (now : UInt64) (st : Status) (hr : Holds s run)
    (hw : st ≠ .running → run.waitStarted = none) :
    ((report s run now st).1 ≠ .running → (report s run now st).2 = {}) ∧
      Holds s (report s run now st).2 := by
  have hended : st ≠ .running → { run with attempts := 0, nextAttempt := none } = ({} : Run) := by
    intro hne
    rw [hw hne]
  cases st with
  | running => exact ⟨fun hne => absurd rfl hne, hr⟩
  | success => exact ⟨fun _ => hended (by decide), hr⟩
  | error => exact ⟨fun _ => hended (by decide), hr⟩
  | ready => exact ⟨fun _ => hended (by decide), hr⟩
  | failure =>
    unfold report
    dsimp only
    split
    · exact ⟨fun hne => absurd rfl hne, hr⟩
    · exact ⟨fun _ => hended (by decide), hr⟩

theorem tick_tidy (stage : Stage H) (hr : Holds s run)
    (ho : (tick s script run stage).outcome = .ok r) :
    (r ≠ .running → (tick s script run stage).state = {}) ∧
      Holds s (tick s script run stage).state := by
  unfold tick at ho ⊢
  split at ho
  · next hd =>
    rw [if_pos hd]
    cases ho
    exact ⟨fun hne => absurd rfl hne, hr⟩
  · next hd =>
    rw [if_neg hd]
    have hstart : Holds s { run with nextAttempt := none } := hr
    have hperform : Holds s (perform s script { run with nextAttempt := none } stage).2.1 ∧ _ :=
      perform_holds stage hstart
    unfold attempt at ho ⊢
    generalize perform s script { run with nextAttempt := none } stage = p at ho hperform ⊢
    obtain ⟨outcome, run', stage'⟩ := p
    cases outcome with
    | panic p => cases ho
    | fault e =>
      obtain ⟨hidle, hholds⟩ := report_holds stage.now .error hperform.1
        (fun _ => hperform.2 nofun)
      cases ho
      exact ⟨hidle, hholds⟩
    | value st =>
      obtain ⟨hidle, hholds⟩ := report_holds stage.now st hperform.1
        (fun hne => hperform.2 fun he => hne (by cases he; rfl))
      cases ho
      exact ⟨hidle, hholds⟩

end Action

theorem Condition.ne_running (s : Settings) (script : Option (Script H Bool)) (path : PropertyPath)
    (stage : Stage H) : (tick s script path stage).1 ≠ .ok .running := by
  have hreport : ∀ answer, report answer ≠ .running := by
    intro answer
    match answer with
    | .ok (some true) => decide
    | .ok (some false) => decide
    | .ok none => decide
    | .error _ => simp [report]
  unfold tick
  split
  · dsimp only
    split
    · nofun
    · exact fun he => hreport _ (Except.ok.inj he)
    · exact fun he => hreport _ (Except.ok.inj he)
  · exact fun he => hreport _ (Except.ok.inj he)

/-! ## Behaviors -/

/-- A tick of a behavior that is idle or paused leaves it paused if it reports running, and idle if it
reports anything else. -/
theorem Behavior.tick_tidy (a : h.Tidy status Shape Good) {b : Behavior H} (ht : b.Tame)
    (hk : b.kind? ≠ none) (cs : List γ) (stage : Stage H) (hgood : ∀ c ∈ cs, Good c)
    (hnodup : (cs.map h.id).Nodup) (hrun : b.Idle status cs ∨ b.Paused h.id status cs)
    (ho : (b.tick h cs stage).outcome = .ok r) :
    (∀ c ∈ (b.tick h cs stage).state.2, Good c) ∧
      (r ≠ .running → (b.tick h cs stage).state.1.Idle status (b.tick h cs stage).state.2) ∧
      (r = .running →
        (b.tick h cs stage).state.1.Paused h.id status (b.tick h cs stage).state.2) := by
  cases b with
  | root s started =>
    have hrun : started = none ∧ Still status cs ∨ FirstOnly status cs := by
      rcases hrun with ⟨he, hs⟩ | hp
      · exact .inl ⟨(Behavior.root.inj he).2.symm, hs⟩
      · exact .inr hp
    obtain ⟨hgood', hidle, hpaused⟩ := Root.tick_tidy a s started cs stage hgood hrun ho
    refine ⟨hgood', fun hr => ⟨?_, (hidle hr).2⟩, hpaused⟩
    simp only [tick, Turn.map, reset, (hidle hr).1]
  | sequence s run =>
    have hwait : Sequence.Awaits h.id status run.completed cs := by
      rcases hrun with ⟨-, hs⟩ | hp
      · exact Sequence.awaits_of_still h.id run.completed hs
      · exact Sequence.PausedFrom.awaits hp
    have hl := Sequence.walk_tidy a s run 0 cs stage hgood hwait ho
    refine ⟨hl.good, fun hr => ⟨?_, (hl.idle hr).2⟩, fun hr => (hl.paused hr).2⟩
    simp only [tick, Turn.map, reset, Sequence.tick, (hl.idle hr).1]
  | selector s run g =>
    have hrun : Still status cs ∨ Selector.Paused h.id status run cs :=
      hrun.imp And.right fun hp => hp
    obtain ⟨hgood', hidle, hpaused⟩ := Selector.tick_tidy a s run g cs stage hgood hnodup hrun ho
    refine ⟨hgood', fun hr => ⟨?_, (hidle hr).2⟩, hpaused⟩
    simp only [tick, Turn.map, reset, (hidle hr).1]
  | parallel s results =>
    have htracks : Parallel.Tracks h.id status results cs := by
      rcases hrun with ⟨-, hs⟩ | hp
      · exact fun c hc hr => absurd hr (hs c hc)
      · exact hp
    obtain ⟨hgood', hidle, hpaused⟩ :=
      Parallel.tick_tidy a ht results cs stage hgood hnodup htracks ho
    refine ⟨hgood', fun hr => ⟨?_, (hidle hr).2⟩, hpaused⟩
    simp only [tick, Turn.map, reset, (hidle hr).1]
  | inverter s =>
    have hrun : Still status cs ∨ FirstOnly status cs := hrun.imp And.right fun hp => hp
    obtain ⟨hgood', hidle, hpaused⟩ := Inverter.tick_tidy a ht cs stage hgood hrun ho
    exact ⟨hgood', fun hr => ⟨rfl, hidle hr⟩, hpaused⟩
  | repeater s run =>
    have hrun : run = {} ∧ Still status cs ∨ FirstOnly status cs ∧ Repeater.Goes s run := by
      rcases hrun with ⟨he, hs⟩ | hp
      · exact .inl ⟨(Behavior.repeater.inj he).2.symm, hs⟩
      · exact .inr hp
    obtain ⟨hgood', hidle, hpaused⟩ := Repeater.tick_tidy a s run cs stage hgood hrun ho
    refine ⟨hgood', fun hr => ⟨?_, (hidle hr).2⟩, hpaused⟩
    simp only [tick, Turn.map, reset, (hidle hr).1]
  | action s script run =>
    have hrun : Still status cs ∧ Action.Holds s run := by
      rcases hrun with ⟨he, hs⟩ | hp
      · refine ⟨hs, fun _ => ?_⟩
        rw [← (Behavior.action.inj he).2.2]
      · exact hp
    obtain ⟨hidle, hholds⟩ := Action.tick_tidy stage hrun.2 ho
    refine ⟨hgood, fun hr => ⟨?_, hrun.1⟩, fun _ => ⟨hrun.1, hholds⟩⟩
    simp only [tick, Turn.map, reset, hidle hr]
  | condition s script path =>
    have hstill : Still status cs := by
      rcases hrun with ⟨-, hs⟩ | hp
      · exact hs
      · exact hp.elim
    refine ⟨hgood, fun _ => ⟨rfl, hstill⟩, ?_⟩
    rintro rfl
    exact absurd ho (Condition.ne_running s script path stage)
  | extension e played => exact absurd rfl hk

end Conduct
