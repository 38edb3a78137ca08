import Conduct.Proofs.Resumption.Composite

/-! Control nodes as programs.

What a control node does in a run is what its program does. Main statements: `Behavior.tick_follows`
and `Behavior.condenses`.
-/

set_option autoImplicit false

namespace Conduct

variable {H : Host} {γ : Type} {h : Handling H γ} {ids : List String}

/-! ## Nodes with one child -/

/-- A program that fails where there is no child. -/
def Program.withChild (ids : List String) (p : Program) : Program :=
  if ids = [] then .stop .failure else p

namespace Repeater

/-- What a repeater does first in an iteration. -/
def begin (s : Settings) (run : Run) (rest : Program) : Program :=
  if 0 < run.iteration ∧ run.inProgress = false ∧ s.resetChild then .renew 0 rest else rest

/-- What a repeater still does with some iterations left. -/
def program (s : Settings) : Nat → Run → Program
  | 0, run => .stop (finalStatus s run)
  | left + 1, run =>
    if countReached s run then .stop (finalStatus s run)
    else
      begin s run <| .child 0 fun
        | .error => .stop .error
        | .ready => .stop .error
        | status =>
          if breaksOn s status then .stop (finalStatus s (run.finishIteration status))
          else program s left (run.finishIteration status)

theorem tick_begin (s : Settings) (run : Run) (p : Program) (c : γ) (cs : List γ) (x : Stage H) :
    (begin s run p).tick h (c :: cs) x =
      p.tick h ((prepare h s run c x).1 :: cs) (prepare h s run c x).2 := by
  unfold begin prepare
  split
  · rfl
  · rfl

theorem loop_follows (s : Settings) (left : Nat) (run : Run) (c : γ) (cs : List γ) (x : Stage H)
    (hleft : left = s.maxIterations.toNat - run.iteration.toNat)
    (hlast : run.last.getD .success ≠ .running) :
    ((loop h s left run c x).map fun m => (m.1, m.2 :: cs)).Follows
      ((program s left run).tick h (c :: cs) x)
      (fun run' p => run'.last.getD .success ≠ .running ∧
        program s (s.maxIterations.toNat - run'.iteration.toNat) run' = p) {} := by
  induction left generalizing run c x with
  | zero => exact .stop (finalStatus_ne_running s hlast)
  | succ left ih =>
    have hone : ∀ status, left =
        s.maxIterations.toNat - (run.finishIteration status).iteration.toNat := by
      intro status
      have hall : left + 1 + run.iteration.toNat = s.maxIterations.toNat := by omega
      have := left_finishIteration status hall
      omega
    simp only [loop, program]
    by_cases hcount : countReached s run = true
    · simp only [if_pos hcount]
      exact .stop (finalStatus_ne_running s hlast)
    · simp only [if_neg hcount, tick_begin]
      generalize prepare h s run c x = prepared
      obtain ⟨c, x⟩ := prepared
      simp only [Program.tick, List.getElem?_cons_zero, List.set_cons_zero]
      cases hout : (h.tick c x).outcome with
      | error p => exact .unwind
      | ok r =>
        cases r with
        | running =>
          refine .wait ⟨hlast, ?_⟩
          have hcount' : countReached s { run with inProgress := true } = false := by
            simpa [countReached] using hcount
          rw [← hleft, program, hcount']
          simp only [begin, Bool.true_eq_false, false_and, and_false, if_false]
          rfl
        | success =>
          dsimp only
          split
          · exact .stop (finalStatus_ne_running s (by simp [Run.finishIteration]))
          · exact ih _ _ _ (hone .success) (by simp [Run.finishIteration])
        | failure =>
          dsimp only
          split
          · exact .stop (finalStatus_ne_running s (by simp [Run.finishIteration]))
          · exact ih _ _ _ (hone .failure) (by simp [Run.finishIteration])
        | error => exact .stop (by decide)
        | ready => exact .stop (by decide)

theorem tick_follows (s : Settings) (run : Run) (cs : List γ) (x : Stage H)
    (hids : cs.map h.id = ids) (hlast : run.last.getD .success ≠ .running) :
    (tick h s run cs x).Follows
      ((Program.withChild ids (program s (s.maxIterations.toNat - run.iteration.toNat) run)).tick h
        cs x)
      (fun run' p => run'.last.getD .success ≠ .running ∧ ids ≠ [] ∧ Program.withChild ids
        (program s (s.maxIterations.toNat - run'.iteration.toNat) run') = p)
      (if ids = [] then run else {}) := by
  subst hids
  cases cs with
  | nil => exact .stop (by decide)
  | cons c cs =>
    exact (loop_follows s _ run c cs x rfl hlast).map id
      fun run' p hp => ⟨hp.1, List.cons_ne_nil _ _, hp.2⟩

end Repeater

theorem Inverter.tick_follows (s : Settings) (hs : s.invertRunning = false) (cs : List γ)
    (x : Stage H) (hids : cs.map h.id = ids) :
    ((tick h s cs x).map fun cs => ((), cs)).Follows
      ((Program.withChild ids (.child 0 fun status => .stop (turnRound s status))).tick h cs x)
      (fun _ p => Program.withChild ids (.child 0 fun status => .stop (turnRound s status)) = p)
      () := by
  subst hids
  cases cs with
  | nil => exact .stop (by decide)
  | cons c cs =>
    simp only [tick, Program.withChild, List.map_cons, List.cons_ne_nil, if_false, Program.tick,
      List.getElem?_cons_zero, List.set_cons_zero]
    cases hout : (h.tick c x).outcome with
    | error p => exact .unwind
    | ok r =>
      cases r with
      | running =>
        simp only [Turn.map, Except.map, turnRound, hs, Bool.false_eq_true, if_false]
        exact .wait rfl
      | success => exact .stop (by simp [turnRound])
      | failure => exact .stop (by simp [turnRound])
      | error =>
        refine .stop ?_
        simp only [turnRound]
        split
        · decide
        · decide
      | ready => exact .stop (by simp [turnRound])

/-- A root without a time limit waits, and without a panic it leaves everything to its child. -/
theorem Root.tick_follows {Calm : γ → Prop} (a : h.Settles Calm) (s : Settings)
    (hs : s.maxExecutionTime = none) (started : Option UInt64) (cs : List γ) (x : Stage H)
    (hcs : ∀ c ∈ cs, Calm c) (hids : cs.map h.id = ids) :
    (tick h s started cs x).Follows
      ((Program.withChild ids (.child 0 .stop)).tick h cs (x.raise s.flags))
      (fun _ p => ids ≠ [] ∧ Program.withChild ids (.child 0 .stop) = p)
      (if ids = [] then started else none) := by
  subst hids
  cases cs with
  | nil => exact .stop (by decide)
  | cons c cs =>
    obtain ⟨-, r, ho, hr⟩ := a.ticked (hcs c List.mem_cons_self) (x.raise s.flags)
    simp only [tick, overdue, hs, ho, Bool.false_eq_true, if_false, Program.withChild,
      List.map_cons, List.cons_ne_nil, Program.tick, List.getElem?_cons_zero, List.set_cons_zero]
    cases r with
    | ready => exact absurd rfl hr
    | running => exact .wait ⟨List.cons_ne_nil _ _, rfl⟩
    | success => exact .stop (by decide)
    | failure => exact .stop (by decide)
    | error => exact .stop (by decide)

/-! ## Control nodes -/

namespace Behavior

/-- Control nodes with settings by which they wait for a running child as long as it takes. -/
def Patient : Behavior H → Prop
  | .root s _ => s.maxExecutionTime = none
  | .sequence _ _ => True
  | .selector _ _ _ => True
  | .inverter s => s.invertRunning = false
  | .repeater _ _ => True
  | _ => False

/-- A patient control node that does not remember an iteration with a running end. -/
def Resumable : Behavior H → Prop
  | .repeater _ run => run.last.getD .success ≠ .running
  | b => b.Patient

theorem Patient.resumable {b : Behavior H} (hb : b.Patient) (hfresh : b.reset = b) :
    b.Resumable := by
  cases b with
  | repeater s run =>
    cases hfresh
    exact Status.noConfusion
  | _ => exact hb

theorem Patient.reset {b : Behavior H} (hb : b.Patient) : b.reset.Patient := by
  cases b <;> exact hb

theorem Resumable.reset {b : Behavior H} (hb : b.Resumable) : b.reset.Resumable := by
  cases b with
  | repeater s run => exact Status.noConfusion
  | _ => exact hb

theorem Resumable.patient {b : Behavior H} (hb : b.Resumable) : b.Patient := by
  cases b with
  | repeater s run => trivial
  | _ => exact hb

theorem Patient.isClosed_limit {b : Behavior H} (hb : b.Patient) : b.limit.isClosed = false := by
  cases b with
  | root s started => rfl
  | sequence s run => rfl
  | selector s run g => rfl
  | inverter s => rfl
  | repeater s run => rfl
  | parallel s results => cases hb
  | action s script run => cases hb
  | condition s script path => cases hb
  | extension e played => cases hb

/-- What a control node still does in a run, with children of these ids. -/
def program (ids : List String) : Behavior H → Program
  | .root _ _ => .withChild ids (.child 0 .stop)
  | .sequence s run => Sequence.program s run.failed run.completed 0 ids
  | .selector s run g =>
    Selector.program ids (Selector.prepare s run ids g).1.completed
      (Selector.prepare s run ids g).1.order
  | .inverter s => .withChild ids (.child 0 fun status => .stop (Inverter.turnRound s status))
  | .repeater s run =>
    .withChild ids (Repeater.program s (s.maxIterations.toNat - run.iteration.toNat) run)
  | _ => .stop .error

/-- What is left of a control node at the end of a run. -/
def ended (ids : List String) : Behavior H → Behavior H
  | .root s started => .root s (if ids = [] then started else none)
  | .selector s run g => .selector s {} (Selector.prepare s run ids g).2
  | .repeater s run => .repeater s (if ids = [] then run else {})
  | b => b.reset

/-- The stage that the children find. -/
def enter (b : Behavior H) (x : Stage H) : Stage H :=
  match b with
  | .root s _ => x.raise s.flags
  | _ => x

/-- One control node goes on with a run of another one, and still has to do what a program does. -/
structure Continues (b : Behavior H) (ids : List String) (b' : Behavior H) (p : Program) :
    Prop where
  resumable : b'.Resumable
  program : b'.program ids = p
  ended : b'.ended ids = b.ended ids

variable {Calm : γ → Prop} {R : γ → γ → Prop} {b : Behavior H} {cs ds : List γ}

theorem tick_follows (a : h.Settles Calm) (hb : b.Resumable) (hcs : ∀ c ∈ cs, Calm c)
    (hids : cs.map h.id = ids) (x : Stage H) :
    (b.tick h cs x).Follows ((b.program ids).tick h cs (b.enter x)) (b.Continues ids)
      (b.ended ids) := by
  cases b with
  | root s started =>
    refine (Root.tick_follows a s hb started cs x hcs hids).map (Behavior.root s) ?_
    exact fun started' p hp => ⟨hb, hp.2, by simp only [ended, if_neg hp.1]⟩
  | sequence s run =>
    have hfollows := Sequence.walk_follows a.keeps s run [] cs x hids
      fun _ hc => absurd hc List.not_mem_nil
    rw [hids] at hfollows
    exact hfollows.map (Behavior.sequence s) fun run' p hp => ⟨trivial, hp, rfl⟩
  | selector s run g =>
    refine (Selector.tick_follows a.keeps s run g cs x hids).map
      (fun m => Behavior.selector s m.1 m.2) ?_
    exact fun m p hp => ⟨trivial, hp.2, congrArg (Behavior.selector s {}) hp.1⟩
  | inverter s =>
    refine (Inverter.tick_follows s hb cs x hids).map (fun _ => Behavior.inverter s) ?_
    exact fun _ p hp => ⟨hb, hp, rfl⟩
  | repeater s run =>
    refine (Repeater.tick_follows s run cs x hids hb).map (Behavior.repeater s) ?_
    exact fun run' p hp => ⟨hp.1, hp.2.2, by simp only [ended, if_neg hp.2.1]⟩
  | parallel s results => cases hb
  | action s script run => cases hb
  | condition s script path => cases hb
  | extension e played => cases hb

theorem Resumable.ended (hb : b.Resumable) (ids : List String) : (b.ended ids).Resumable := by
  cases b with
  | repeater s run =>
    simp only [Behavior.ended]
    split
    · exact hb
    · exact Status.noConfusion
  | _ => exact hb

theorem reset_ended (hfresh : b.reset = b) (ids : List String) :
    (b.ended ids).reset = b.ended ids := by
  cases b with
  | root s started =>
    cases hfresh
    simp only [ended, ite_self, reset]
  | repeater s run =>
    cases hfresh
    simp only [ended, ite_self, reset]
  | _ => rfl

/-- A control node that can be resumed comes to a report on calm children, and can be resumed
afterwards. -/
theorem calm_tick (a : h.Settles Calm) (hb : b.Resumable) (hcs : ∀ c ∈ cs, Calm c)
    (x : Stage H) : (b.tick h cs x).state.1.Resumable ∧ (∀ c ∈ (b.tick h cs x).state.2, Calm c) ∧
      ∃ r, (b.tick h cs x).outcome = .ok r := by
  have hf := tick_follows a hb hcs rfl x
  obtain ⟨hcalm, r, ho⟩ := Program.calm_tick a (b.program (cs.map h.id)) cs (b.enter x) hcs
  rw [← hf.outcome] at ho
  rw [← hf.children] at hcalm
  refine ⟨?_, hcalm, r, ho⟩
  by_cases hr : r = .running
  · subst hr
    exact (hf.paused ho).resumable
  · rw [hf.ended r ho hr]
    exact hb.ended _

theorem adds_enter {x y : Stage H} {es : List (String × Status)} :
    (b.enter x).Adds y es ↔ x.Adds y es := by
  cases b <;> rfl

/-- A tick of a behavior with children, as one of a state. -/
def advance (h : Handling H γ) (m : Behavior H × List γ) (x : Stage H) :
    Turn H Status (Behavior H × List γ) := m.1.tick h m.2 x

variable {r : Status} {es : List (String × Status)} {m' : Behavior H × List γ}

theorem runs_program (a : h.Settles Calm) (hb : b.Resumable) (hcs : ∀ c ∈ cs, Calm c)
    (hids : cs.map h.id = ids) (hrun : Runs (advance h) (b, cs) r es m') :
    m'.1 = b.ended ids ∧ ∃ p', Runs (Program.advance h) (b.program ids, cs) r es (p', m'.2) := by
  generalize hm : (b, cs) = m at hrun
  induction hrun generalizing b cs with
  | @ends m x r es ho hr he =>
    subst hm
    have hf := tick_follows a hb hcs hids x
    have hchildren : (advance h (b, cs) x).state.2 = _ := hf.children
    refine ⟨hf.ended r ho hr, ((b.program ids).tick h cs (b.enter x)).state.1, ?_⟩
    rw [hchildren]
    exact .ends (hf.outcome.symm.trans ho) hr (adds_enter.2 (hf.stage ▸ he))
  | @waits m m' x r es ds ho he rest ih =>
    subst hm
    have hf := tick_follows a hb hcs hids x
    obtain ⟨-, hcalm, -⟩ := calm_tick a hb hcs x
    obtain ⟨hresumable, hprogram, hended⟩ := hf.paused ho
    have hids' : (b.tick h cs x).state.2.map h.id = ids := by
      rw [map_tick a.keeps, hids]
    obtain ⟨hm', p', hrest⟩ := ih hresumable hcalm hids' rfl
    refine ⟨hm'.trans hended, p', ?_⟩
    rw [hprogram, hf.children] at hrest
    exact .waits (hf.outcome.symm.trans ho) (adds_enter.2 (hf.stage ▸ he)) hrest

/-- What a control node does in a run it does in one tick on children whose runs are single
ticks. -/
theorem condenses (a : h.Condenses Calm R) (hb : b.Resumable) (hcs : List.Forall₂ R cs ds)
    (hrun : Runs (advance h) (b, cs) r es m') (y : Stage H) :
    (b.tick h ds y).Answers y r es fun q =>
      q.1 = m'.1 ∧ m'.1 = b.ended (cs.map h.id) ∧ List.Forall₂ R m'.2 q.2 := by
  have hids : List.Forall₂ (· = ·) (cs.map h.id) (ds.map h.id) :=
    List.forall₂_map_left_iff.2 (List.forall₂_map_right_iff.2 (hcs.imp fun _ _ hc => a.id hc))
  rw [List.forall₂_eq_eq_eq] at hids
  obtain ⟨hcalm, hcalm'⟩ := Program.calm_of_forall₂ a hcs
  obtain ⟨hm', p', hrun'⟩ := runs_program a.toSettles hb hcalm rfl hrun
  obtain ⟨x, hf⟩ := hrun'.finishes
  obtain ⟨ho, he, hst⟩ := Program.condenses a (b.program (cs.map h.id)) hcs hf (b.enter y)
  have hfollows := tick_follows a.toSettles hb hcalm' hids.symm y
  rw [← hfollows.outcome] at ho
  rw [← hfollows.stage, adds_enter] at he
  rw [← hfollows.children] at hst
  exact ⟨ho, he, (hfollows.ended r ho hrun.ne_running).trans hm'.symm, hm', hst⟩

end Behavior

end Conduct
