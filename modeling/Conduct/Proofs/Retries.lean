import Conduct.Proofs.Tidiness.Behavior
import Conduct.Rehearsal.World

/-! The retries of an action.

A tick of an action makes an attempt, or it waits for the delay after a failed one to pass. What has
happened in a run, tick by tick, tells what the action remembers of it: the failed attempts are
counted, and no attempt is made before the latest of their delays has passed. Main statements:
`Tried.recalls` and `Tried.retries`.
-/

set_option autoImplicit false

namespace Conduct.Action

open Rehearsal (clock)

variable {H : Host} {s : Settings} {script : Option (Script H Status)} {run : Run} {x : Stage H}

/-! ## Attempts -/

/-- What the attempt of a tick comes to, unless the tick waits for the delay to pass. -/
def attempted (s : Settings) (script : Option (Script H Status)) (run : Run) (x : Stage H) :
    Option (Outcome Status) :=
  if run.delayed x.now then none
  else some (perform s script { run with nextAttempt := none } x).1

/-- What a tick reports of an attempt, given how many failed before it in the run. -/
def answer (s : Settings) (failed : Nat) : Outcome Status → Except Panic Status
  | .value .success => .ok .success
  | .value .failure => .ok (if failed < s.retryCount.toNat then .running else .failure)
  | .value .running => .ok .running
  | .value .error => .ok .error
  | .value .ready => .ok .error
  | .fault _ => .ok .error
  | .panic p => .error p

/-- A tick of an action: the time at its start, and what its attempt came to if it made one. -/
structure Beat where
  time : UInt64
  attempt : Option (Outcome Status)

def Beat.failed (b : Beat) : Bool :=
  match b.attempt with
  | some (.value .failure) => true
  | _ => false

/-- The failed attempts of a run. -/
def failures (bs : List Beat) : Nat := bs.countP Beat.failed

/-- The time that an attempt after this tick has to wait for, at most the latest there is. -/
def Settings.due (s : Settings) (b : Beat) : Nat :=
  min (b.time.toNat + s.retryDelay.toNat) (UInt64.size - 1)

theorem failures_concat (bs : List Beat) (b : Beat) :
    failures (bs ++ [b]) = failures bs + if b.failed then 1 else 0 := by
  rw [failures, List.countP_append, List.countP_singleton]
  rfl

/-! ## One tick -/

/-- A tick without an attempt changes nothing, whatever there was to be attempted. -/
theorem tick_of_attempted_none (h : attempted s script run x = none)
    (script' : Option (Script H Status)) : tick s script' run x = ⟨.ok .running, run, x⟩ := by
  have hd : run.delayed x.now = true := by
    by_contra hd
    rw [attempted, if_neg hd] at h
    cases h
  rw [tick, if_pos hd]

theorem perform_keeps (s : Settings) (script : Option (Script H Status)) (run : Run) (x : Stage H) :
    (perform s script run x).2.1.attempts = run.attempts ∧
      (perform s script run x).2.1.nextAttempt = run.nextAttempt := by
  unfold perform
  cases s.deed with
  | custom =>
    cases script with
    | none => exact ⟨rfl, rfl⟩
    | some script => exact ⟨rfl, rfl⟩
  | moveTo | attack | interact => exact ⟨rfl, rfl⟩
  | wait =>
    simp only [wait]
    split
    · exact ⟨rfl, rfl⟩
    · exact ⟨rfl, rfl⟩

/-- What is remembered after an attempt that does not end the run: a failed one is counted and sets the
time of the next. -/
structure Counted (s : Settings) (run : Run) (now : UInt64) (o : Outcome Status) (run' : Run) :
    Prop where
  failed : o = .value .failure → run.attempts.toNat < s.retryCount.toNat ∧
    run'.attempts.toNat = run.attempts.toNat + 1 ∧
    run'.nextAttempt = some (Clock.later now s.retryDelay)
  other : o ≠ .value .failure → run'.attempts = run.attempts ∧ run'.nextAttempt = none

theorem counted_same {o : Outcome Status} {run' : Run} (now : UInt64) (ho : o ≠ .value .failure)
    (ha : run'.attempts = run.attempts) (hn : run'.nextAttempt = none) :
    Counted s run now o run' :=
  ⟨fun hf => absurd hf ho, fun _ => ⟨ha, hn⟩⟩

theorem tick_of_attempted {o : Outcome Status} (h : attempted s script run x = some o) :
    (tick s script run x).outcome = answer s run.attempts.toNat o ∧
      (tick s script run x).stage = (perform s script { run with nextAttempt := none } x).2.2 ∧
      ((∀ r, (tick s script run x).outcome = .ok r → r = .running) →
        Counted s run x.now o (tick s script run x).state) := by
  have hd : ¬ run.delayed x.now = true := by
    intro hd
    rw [attempted, if_pos hd] at h
    cases h
  rw [attempted, if_neg hd, Option.some.injEq] at h
  rw [tick, if_neg hd]
  obtain ⟨hattempts, hnext⟩ := perform_keeps s script { run with nextAttempt := none } x
  unfold attempt
  generalize perform s script { run with nextAttempt := none } x = performed at h hattempts hnext
  obtain ⟨o', run', y⟩ := performed
  dsimp only at h hattempts hnext ⊢
  subst h
  cases o' with
  | panic p => exact ⟨rfl, rfl, fun _ => counted_same x.now nofun hattempts hnext⟩
  | fault e =>
    refine ⟨rfl, rfl, fun hr => ?_⟩
    cases hr .error rfl
  | value status =>
    cases status with
    | running => exact ⟨rfl, rfl, fun _ => counted_same x.now nofun hattempts hnext⟩
    | success =>
      refine ⟨rfl, rfl, fun hr => ?_⟩
      cases hr .success rfl
    | error | ready =>
      refine ⟨rfl, rfl, fun hr => ?_⟩
      cases hr .error rfl
    | failure =>
      by_cases hleft : run.attempts < s.retryCount
      · have hlt : run.attempts.toNat < s.retryCount.toNat := UInt32.lt_iff_toNat_lt.1 hleft
        have hsucc : (run.attempts + 1).toNat = run.attempts.toNat + 1 := by
          have hmax := s.retryCount.toNat_lt
          rw [UInt32.toNat_add, UInt32.toNat_one, Nat.mod_eq_of_lt (by omega)]
        simp only [report, answer, hattempts, if_pos hleft, if_pos hlt]
        exact ⟨trivial, trivial, fun _ => ⟨fun _ => ⟨hlt, hsucc, rfl⟩, fun hne => absurd rfl hne⟩⟩
      · have hnlt : ¬ run.attempts.toNat < s.retryCount.toNat := mt UInt32.lt_iff_toNat_lt.2 hleft
        simp only [report, answer, hattempts, if_neg hleft, if_neg hnlt]
        refine ⟨trivial, trivial, fun hr => ?_⟩
        cases hr .failure rfl

/-! ## What is remembered of a run -/

/-- What an action remembers is what the ticks of its run tell. If it waits, then for the latest of
the times that failed attempts have set; if not, then all of them have passed. -/
structure Recalls (s : Settings) (run : Run) (bs : List Beat) : Prop where
  attempts : run.attempts.toNat = failures bs
  bounded : failures bs ≤ s.retryCount.toNat
  waiting : ∀ time, run.nextAttempt = some time →
    (∃ b ∈ bs, b.failed ∧ s.due b = time.toNat) ∧ ∀ b ∈ bs, b.failed → s.due b ≤ time.toNat
  passed : run.nextAttempt = none → ∀ b ∈ bs, b.failed → ∃ b' ∈ bs, s.due b ≤ b'.time.toNat
  holds : Holds s run

variable {bs : List Beat}

theorem recalls_nil (s : Settings) : Recalls s {} [] where
  attempts := rfl
  bounded := Nat.zero_le _
  waiting := nofun
  passed := nofun
  holds _ := rfl

/-- If the clock does not go back, an action waits exactly while the time that some failed attempt has
set is to come. -/
theorem Recalls.delayed_iff (hr : Recalls s run bs) {now : UInt64} (hnow : ∀ b ∈ bs, b.time ≤ now) :
    run.delayed now = true ↔ ∃ b ∈ bs, b.failed ∧ now.toNat < s.due b := by
  unfold Run.delayed
  cases hnext : run.nextAttempt with
  | none =>
    refine ⟨nofun, ?_⟩
    rintro ⟨b, hb, hf, hlt⟩
    obtain ⟨b', hb', hle⟩ := hr.passed hnext b hb hf
    have := UInt64.le_iff_toNat_le.1 (hnow b' hb')
    omega
  | some time =>
    obtain ⟨⟨b, hb, hf, hdue⟩, hall⟩ := hr.waiting time hnext
    rw [decide_eq_true_iff, UInt64.lt_iff_toNat_lt]
    constructor
    · exact fun hlt => ⟨b, hb, hf, hdue ▸ hlt⟩
    · rintro ⟨b', hb', hf', hlt⟩
      exact hlt.trans_le (hall b' hb' hf')

theorem attempted_eq_none_iff :
    attempted s script run x = none ↔ run.delayed x.now = true := by
  unfold attempted
  split
  · next hd => exact iff_of_true rfl hd
  · next hd => exact iff_of_false nofun hd

theorem due_eq_later (s : Settings) (b : Beat) :
    s.due b = (Clock.later b.time s.retryDelay).toNat := by
  rw [Clock.toNat_later]
  rfl

theorem time_le_due (s : Settings) (b : Beat) : b.time.toNat ≤ s.due b := by
  have := b.time.toNat_lt_size
  unfold Settings.due
  omega

/-- A tick that waits adds nothing to what is remembered. -/
theorem Recalls.rest (hr : Recalls s run bs) (now : UInt64) :
    Recalls s run (bs ++ [⟨now, none⟩]) where
  attempts := by
    rw [failures_concat]
    exact hr.attempts
  bounded := by
    rw [failures_concat]
    exact hr.bounded
  waiting time hnext := by
    obtain ⟨⟨b, hb, hf, hdue⟩, hall⟩ := hr.waiting time hnext
    refine ⟨⟨b, List.mem_append_left _ hb, hf, hdue⟩, List.forall_mem_append.2 ⟨hall, ?_⟩⟩
    exact List.forall_mem_singleton.2 nofun
  passed hnext := by
    refine List.forall_mem_append.2 ⟨fun b hb hf => ?_, List.forall_mem_singleton.2 nofun⟩
    obtain ⟨b', hb', hle⟩ := hr.passed hnext b hb hf
    exact ⟨b', List.mem_append_left _ hb', hle⟩
  holds := hr.holds

/-- An attempt that does not end the run is remembered if it failed. -/
theorem Recalls.attempt {run' : Run} {now : UInt64} {o : Outcome Status} (hr : Recalls s run bs)
    (hc : Counted s run now o run') (hpast : ∀ b ∈ bs, b.failed → s.due b ≤ now.toNat)
    (hh : Holds s run') : Recalls s run' (bs ++ [⟨now, some o⟩]) := by
  have hlast : Beat.mk now (some o) ∈ bs ++ [⟨now, some o⟩] :=
    List.mem_append_right _ (List.mem_singleton_self _)
  by_cases ho : o = .value .failure
  · obtain ⟨hlt, hattempts, hnext⟩ := hc.failed ho
    have hfailed : Beat.failed ⟨now, some o⟩ = true := by rw [ho]; rfl
    have hcount : failures (bs ++ [⟨now, some o⟩]) = failures bs + 1 := by
      rw [failures_concat, if_pos hfailed]
    have htime : ∀ time, run'.nextAttempt = some time → s.due ⟨now, some o⟩ = time.toNat := by
      intro time htime
      rw [hnext] at htime
      rw [due_eq_later, Option.some.inj htime]
    refine ⟨?_, ?_, fun time ht => ⟨⟨_, hlast, hfailed, htime time ht⟩, ?_⟩, fun hn => ?_, hh⟩
    · rw [hattempts, hcount, hr.attempts]
    · rw [hcount]
      exact hr.attempts ▸ hlt
    · rw [← htime time ht]
      refine List.forall_mem_append.2 ⟨fun b hb hf => ?_, List.forall_mem_singleton.2 fun _ => le_rfl⟩
      exact (hpast b hb hf).trans (time_le_due s ⟨now, some o⟩)
    · rw [hnext] at hn
      cases hn
  · obtain ⟨hattempts, hnext⟩ := hc.other ho
    have hfine : ¬ Beat.failed ⟨now, some o⟩ = true := by
      unfold Beat.failed
      split
      · next heq => exact absurd (Option.some.inj heq) ho
      · exact Bool.false_ne_true
    have hcount : failures (bs ++ [⟨now, some o⟩]) = failures bs := by
      rw [failures_concat, if_neg hfine, Nat.add_zero]
    refine ⟨?_, hcount ▸ hr.bounded, fun time ht => ?_, fun _ => ?_, hh⟩
    · rw [hattempts, hcount, hr.attempts]
    · rw [hnext] at ht
      cases ht
    · refine List.forall_mem_append.2 ⟨fun b hb hf => ⟨_, hlast, hpast b hb hf⟩, ?_⟩
      exact List.forall_mem_singleton.2 fun hf => absurd hf hfine

theorem holds_tick (script : Option (Script H Status)) (x : Stage H) (hh : Holds s run) :
    Holds s (tick s script run x).state := by
  unfold tick
  split
  · exact hh
  · have hstart : Holds s { run with nextAttempt := none } := hh
    have hperformed : Holds s (perform s script { run with nextAttempt := none } x).2.1 :=
      (perform_holds x hstart).1
    unfold Action.attempt
    generalize perform s script { run with nextAttempt := none } x = performed at hperformed
    obtain ⟨o, run', y⟩ := performed
    have hreport : ∀ status, Holds s (report s run' x.now status).2 := by
      intro status
      cases status with
      | failure =>
        unfold report
        dsimp only
        split
        · exact hperformed
        · exact hperformed
      | _ => exact hperformed
    cases o with
    | panic p => exact hperformed
    | fault e => exact hreport .error
    | value status => exact hreport status

theorem Recalls.tick (hr : Recalls s run bs) (hx : ∀ b ∈ bs, b.time ≤ x.now)
    (ho : ∀ r, (tick s script run x).outcome = .ok r → r = .running) :
    Recalls s (tick s script run x).state (bs ++ [⟨x.now, attempted s script run x⟩]) := by
  cases ha : attempted s script run x with
  | none =>
    rw [tick_of_attempted_none ha]
    exact hr.rest x.now
  | some o =>
    have hd : ¬ run.delayed x.now = true := fun hd => by
      rw [attempted_eq_none_iff.2 hd] at ha
      cases ha
    rw [hr.delayed_iff hx] at hd
    push Not at hd
    exact hr.attempt ((tick_of_attempted ha).2.2 ho) hd (holds_tick script x hr.holds)

/-! ## Histories -/

/-- What a tick of a tree with an action at its top is in the run of the action. -/
def beat (s : Settings) (script : Option (Script H Status)) (t : Tree H) (x : Stage H) : Beat :=
  match t.value.behavior with
  | .action _ _ run => ⟨x.now, attempted s script run x⟩
  | _ => ⟨x.now, none⟩

/-- An action with the given settings and script, and the ticks of its run under way. In a run, the
clock does not go back. -/
inductive Tried (s : Settings) (script : Option (Script H Status)) : Tree H → List Beat → Prop
  | made {t : Tree H} (h : t.value.behavior = .action s script {}) : Tried s script t []
  | reset {t : Tree H} {bs : List Beat} (d : Tried s script t bs) : Tried s script t.reset []
  /-- A run comes to an end. -/
  | ended {t : Tree H} {bs : List Beat} (d : Tried s script t bs) {x : Stage H} {r : Status}
      (h : (t.tick x).outcome = .ok r) (hr : r ≠ .running) : Tried s script (t.tick x).state []
  /-- A run goes on, or a panic unwinds a tick of it. -/
  | ticked {t : Tree H} {bs : List Beat} (d : Tried s script t bs) {x : Stage H}
      (hx : ∀ b ∈ bs, b.time ≤ x.now) (h : ∀ r, (t.tick x).outcome = .ok r → r = .running) :
      Tried s script (t.tick x).state (bs ++ [beat s script t x])

variable {t : Tree H}

theorem tick_action (hb : t.value.behavior = .action s script run) (x : Stage H) :
    (t.tick x).outcome = (tick s script run x).outcome.map Status.settled ∧
      (t.tick x).state.value.behavior = .action s script (tick s script run x).state := by
  rw [Tree.outcome_tick, Tree.behavior_tick, hb]
  exact ⟨rfl, rfl⟩

theorem running_of_settled (hb : t.value.behavior = .action s script run)
    (h : ∀ r, (t.tick x).outcome = .ok r → r = .running) {r : Status}
    (hr : (tick s script run x).outcome = .ok r) : r = .running := by
  rw [(tick_action hb x).1, hr] at h
  exact Tree.settled_eq_running.1 (h _ rfl)

/-- A tick that ends a run leaves the action as it is when it is built. -/
theorem ended_tick (hb : t.value.behavior = .action s script run) (hh : Holds s run) {r : Status}
    (h : (t.tick x).outcome = .ok r) (hr : r ≠ .running) :
    (t.tick x).state.value.behavior = .action s script {} := by
  obtain ⟨ho, hbehavior⟩ := tick_action hb x
  rw [ho] at h
  cases hout : (tick s script run x).outcome with
  | error p =>
    rw [hout] at h
    cases h
  | ok r' =>
    rw [hout] at h
    cases h
    rw [hbehavior, (tick_tidy x hh hout).1 (mt Tree.settled_eq_running.2 hr)]

/-- An action remembers what the ticks of its run tell. -/
theorem Tried.recalls (d : Tried s script t bs) :
    ∃ run, t.value.behavior = .action s script run ∧ Recalls s run bs := by
  induction d with
  | made h => exact ⟨{}, h, recalls_nil s⟩
  | reset d ih =>
    obtain ⟨run, hb, -⟩ := ih
    refine ⟨{}, ?_, recalls_nil s⟩
    rw [Tree.value_reset]
    simp only [Node.reset, hb, Behavior.reset]
  | ended d h hr ih =>
    obtain ⟨run, hb, hrecalls⟩ := ih
    exact ⟨{}, ended_tick hb hrecalls.holds h hr, recalls_nil s⟩
  | @ticked t bs d x hx h ih =>
    obtain ⟨run, hb, hrecalls⟩ := ih
    refine ⟨_, (tick_action hb x).2, ?_⟩
    simp only [beat, hb]
    exact hrecalls.tick hx fun r hr => running_of_settled hb h hr

theorem settled_answer (s : Settings) (failed : Nat) (o : Outcome Status) :
    (answer s failed o).map Status.settled = answer s failed o := by
  cases o with
  | panic p => rfl
  | fault e => rfl
  | value status =>
    cases status with
    | failure =>
      simp only [answer]
      split
      · rfl
      · rfl
    | _ => rfl

/-- In a run of an action, no attempt is made as long as the delay after some failed one is to pass,
and every tick after that makes one. Failed attempts are reported as running while retries are left,
and as a failure after that; all other outcomes are reported as they are, where faults are errors. No
more attempts are counted than there are retries, and the end of a run forgets them. -/
theorem Tried.retries (d : Tried s script t bs) (x : Stage H) (hx : ∀ b ∈ bs, b.time ≤ x.now) :
    ∃ run, t.value.behavior = .action s script run ∧
      run.attempts.toNat = failures bs ∧ failures bs ≤ s.retryCount.toNat ∧
      (attempted s script run x = none ↔ ∃ b ∈ bs, b.failed ∧ x.now.toNat < s.due b) ∧
      (attempted s script run x = none → (t.tick x).outcome = .ok .running ∧
        ∀ script', tick s script' run x = ⟨.ok .running, run, x⟩) ∧
      (∀ o, attempted s script run x = some o →
        (t.tick x).outcome = answer s (failures bs) o ∧
        (tick s script run x).stage = (perform s script { run with nextAttempt := none } x).2.2) ∧
      ((t.tick x).outcome = .ok .failure ↔
        attempted s script run x = some (.value .failure) ∧ failures bs = s.retryCount.toNat) ∧
      (∀ r, (t.tick x).outcome = .ok r → r ≠ .running →
        (t.tick x).state.value.behavior = .action s script {}) ∧
      t.reset.value.behavior = .action s script {} := by
  obtain ⟨run, hb, hr⟩ := d.recalls
  obtain ⟨hout, -⟩ := tick_action hb x
  have hwaits : attempted s script run x = none → (t.tick x).outcome = .ok .running ∧
      ∀ script', tick s script' run x = ⟨.ok .running, run, x⟩ := by
    intro hnone
    have hsame := tick_of_attempted_none hnone
    rw [hout, hsame]
    exact ⟨rfl, hsame⟩
  have hattempts : ∀ o, attempted s script run x = some o →
      (t.tick x).outcome = answer s (failures bs) o := by
    intro o ho
    rw [hout, (tick_of_attempted ho).1, settled_answer, hr.attempts]
  refine ⟨run, hb, hr.attempts, hr.bounded, ?_, hwaits,
    fun o ho => ⟨hattempts o ho, (tick_of_attempted ho).2.1⟩, ?_,
    fun r ho hne => ended_tick hb hr.holds ho hne, ?_⟩
  · rw [attempted_eq_none_iff, hr.delayed_iff hx]
  · cases ha : attempted s script run x with
    | none =>
      rw [(hwaits ha).1]
      exact iff_of_false nofun nofun
    | some o =>
      have hbounded := hr.bounded
      rw [hattempts o ha, Option.some.injEq]
      cases o with
      | panic p => exact iff_of_false nofun nofun
      | fault e => exact iff_of_false nofun nofun
      | value status =>
        cases status with
        | failure =>
          simp only [answer]
          split
          · next hlt => exact iff_of_false nofun fun hboth => (by omega)
          · next hge => exact iff_of_true rfl ⟨trivial, by omega⟩
        | ready | running | success | error =>
          exact iff_of_false nofun fun hboth => (by cases hboth.1)
  · rw [Tree.value_reset]
    simp only [Node.reset, hb, Behavior.reset]

/-! ## A delay that reaches the end of the clock -/

section Patient

def patient : Settings where
  retryCount := 1
  retryDelay := Clock.latest

def failing : Script Rehearsal.host Status := fun _ scene => (.value .failure, scene)

/-- An action that fails at every attempt, after its first one at the time 7. -/
def waiting : Tree Rehearsal.host :=
  Tree.tick (.node (.fresh "a" .action "A" {} .nil (.action patient (some failing) {})) []) (clock 7)
    |>.state

/-- The one retry waits for the latest time that there is, and then its failure is reported. -/
theorem retries_patient :
    Tried patient (some failing) waiting [⟨7, some (.value .failure)⟩] ∧
      (waiting.tick (clock 8)).outcome = .ok .running ∧
      (waiting.tick (clock Clock.latest)).outcome = .ok .failure := by
  have d : Tried patient (some failing) waiting [⟨7, some (.value .failure)⟩] :=
    (Tried.made rfl).ticked (x := clock 7) nofun fun r hr => by
      cases hr
      rfl
  have hpast : ∀ now : UInt64, 7 ≤ now →
      ∀ b ∈ [Beat.mk 7 (some (.value .failure))], b.time ≤ (clock now).now := by
    intro now hnow
    exact List.forall_mem_singleton.2 hnow
  obtain ⟨_, -, -, -, hearly, hwaits, -⟩ := d.retries (clock 8) (hpast 8 (by decide))
  obtain ⟨run, hb, -, -, hlate, -, -, hfailure, -⟩ :=
    d.retries (clock Clock.latest) (hpast Clock.latest (by decide))
  refine ⟨d, (hwaits (hearly.2 ⟨_, List.mem_singleton_self _, rfl, by decide⟩)).1, ?_⟩
  have hmade : attempted patient (some failing) run (clock Clock.latest) ≠ none := by
    rw [Ne, hlate]
    rintro ⟨b, hb, -, hlt⟩
    rw [List.mem_singleton.1 hb] at hlt
    exact absurd hlt (by decide)
  rw [hfailure]
  refine ⟨?_, rfl⟩
  unfold attempted at hmade ⊢
  split at hmade
  · exact absurd rfl hmade
  · next hd =>
    rw [if_neg hd]
    rfl

end Patient

end Conduct.Action
