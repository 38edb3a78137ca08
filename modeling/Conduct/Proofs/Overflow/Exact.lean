import Conduct.Proofs.Overflow.Checked
import Conduct.Proofs.Verdict.Tally

/-! The checks of a tick never fail.

Each sum and difference of the counters stands behind a test that keeps its result in bounds, whatever
the settings and whatever is remembered. Only the counts of children rest on there being no more of
them than fit into memory. Main statement: `Behavior.tickChecked_eq`.
-/

set_option autoImplicit false

namespace Conduct

theorem Checked.next_of_lt {n m : UInt32} (h : n < m) : Checked.next n = .ok (n + 1) := by
  have hm := m.toNat_lt
  rw [UInt32.lt_iff_toNat_lt] at h
  have hfits : n.toNat + 1 < UInt32.size := show n.toNat + 1 < 2 ^ 32 by omega
  rw [Checked.next, if_pos hfits]

theorem Checked.add_of_lt {a b : Nat} (h : a + b < UInt64.size) : Checked.add a b = .ok (a + b) :=
  if_pos h

theorem Checked.sub_of_le {a b : Nat} (h : b ≤ a) : Checked.sub a b = .ok (a - b) := if_pos h

variable {H : Host} {γ : Type} {h : Handling H γ}

/-! ## Repeaters -/

theorem Repeater.loopChecked_eq (s : Settings) (run : Run) (c : γ) (x : Stage H) :
    loopChecked h s run c x = loop h s (s.maxIterations.toNat - run.iteration.toNat) run c x := by
  generalize hleft : s.maxIterations.toNat - run.iteration.toNat = left
  induction left generalizing run c x with
  | zero =>
    have hcap : s.maxIterations ≤ run.iteration := by
      rw [UInt32.le_iff_toNat_le]
      omega
    rw [loopChecked, dif_pos hcap, ite_self, loop]
  | succ left ih =>
    have hcap : ¬ s.maxIterations ≤ run.iteration := by
      rw [UInt32.le_iff_toNat_le]
      omega
    have hnext : Checked.next run.iteration = .ok (run.iteration + 1) :=
      Checked.next_of_lt (UInt32.not_le.1 hcap)
    have hagain : ∀ status c x, loopChecked h s (run.finishIteration status) c x =
        loop h s left (run.finishIteration status) c x := by
      intro status c x
      refine ih _ c x ?_
      have hleft : left + (run.finishIteration status).iteration.toNat = s.maxIterations.toNat :=
        left_finishIteration status (by omega)
      omega
    rw [loopChecked, loop, dif_neg hcap]
    generalize prepare h s run c x = prepared
    obtain ⟨c, x⟩ := prepared
    dsimp only
    cases (h.tick c x).outcome with
    | error p => rfl
    | ok status =>
      cases status with
      | running => rfl
      | error | ready =>
        dsimp only
        rw [hnext]
        rfl
      | success | failure =>
        dsimp only
        rw [hnext]
        dsimp only
        rw [← hagain]
        rfl

theorem Repeater.tickChecked_eq (s : Settings) (run : Run) (cs : List γ) (x : Stage H) :
    tickChecked h s run cs x = tick h s run cs x := by
  cases cs with
  | nil => rfl
  | cons c cs => rw [tickChecked, tick, loopChecked_eq]

/-! ## Parallels -/

namespace Parallel

theorem advanceChecked_eq (budget : Nat) (results : Results) (cs : List γ) (x : Stage H) :
    advanceChecked h budget results cs x = advance h (some budget) results cs x := by
  induction cs generalizing budget results x with
  | nil => rfl
  | cons c cs ih =>
    rw [advanceChecked, advance]
    have hsome : (some budget == some 0) = (budget == 0) := rfl
    by_cases hskip : (finished results (h.id c) || budget == 0) = true
    · rw [if_pos hskip, if_pos (hsome ▸ hskip), ih]
    · have hbudget : 1 ≤ budget := by
        simp only [Bool.or_eq_true, beq_iff_eq, not_or] at hskip
        omega
      rw [if_neg hskip, if_neg (hsome ▸ hskip), Checked.sub_of_le hbudget]
      simp only [ih]
      rfl

/-- A budget of at least as many children as there are does not matter. -/
theorem advance_some {budget : Nat} {cs : List γ} (hbudget : cs.length ≤ budget)
    (results : Results) (x : Stage H) :
    advance h (some budget) results cs x = advance h none results cs x := by
  induction cs generalizing budget results x with
  | nil => rfl
  | cons c cs ih =>
    rw [List.length_cons] at hbudget
    have hpos : (some budget == some 0) = false := by simp; omega
    have hnone : ((none : Option Nat) == some 0) = false := rfl
    simp only [advance, hpos, hnone, Option.map_some, Option.map_none]
    rw [ih (by omega)]
    split
    · rfl
    · split
      · rfl
      · rw [ih (by omega)]

theorem count_cons (results : Results) (c : γ) (cs : List γ) (status : Status) :
    count h results (c :: cs) status =
      count h results cs status + if results.get? (h.id c) = some status then 1 else 0 := by
  rw [count_eq_tally, count_eq_tally, List.map_cons, tally_cons]

theorem countChecked_eq (counts : Counts) {cs : List γ} (results : Results)
    (hs : counts.success + cs.length < UInt64.size)
    (hf : counts.failure + cs.length < UInt64.size) :
    countChecked h results counts cs = .ok ⟨counts.success + count h results cs .success,
      counts.failure + count h results cs .failure,
      counts.errored || 0 < count h results cs .error⟩ := by
  induction cs generalizing counts with
  | nil => simp [countChecked, count]
  | cons c cs ih =>
    rw [List.length_cons] at hs hf
    have hsuccess : Checked.add counts.success 1 = .ok (counts.success + 1) :=
      Checked.add_of_lt (by omega)
    have hfailure : Checked.add counts.failure 1 = .ok (counts.failure + 1) :=
      Checked.add_of_lt (by omega)
    simp only [countChecked, count_cons, hsuccess, hfailure]
    cases results.get? (h.id c) with
    | none => simp [ih counts (by omega) (by omega)]
    | some status =>
      cases status with
      | success =>
        simp [bind, Except.bind, ih { counts with success := counts.success + 1 }
          (by dsimp only; omega) (by dsimp only; omega)]
        omega
      | failure =>
        simp [bind, Except.bind, ih { counts with failure := counts.failure + 1 }
          (by dsimp only; omega) (by dsimp only; omega)]
        omega
      | error =>
        simp [ih { counts with errored := true } (by dsimp only; omega)
          (by dsimp only; omega)]
      | ready | running => simp [ih counts (by omega) (by omega)]

theorem count_success_add_failure_le (results : Results) (cs : List γ) :
    count h results cs .success + count h results cs .failure ≤ cs.length := by
  have hids : (cs.map h.id).length = cs.length := List.length_map h.id
  rw [count_eq_tally, count_eq_tally, ← hids]
  exact tally_le results _

theorem decideChecked_eq (s : Settings) {total success failure : Nat}
    (hcounts : success + failure ≤ total) (htotal : total + 1 < UInt64.size) :
    decideChecked s total success failure = .ok (decide s total success failure) := by
  have hunsuccessful : Checked.sub total success = .ok (total - success) :=
    Checked.sub_of_le (by omega)
  have hremaining : Checked.sub (total - success) failure = .ok (total - success - failure) :=
    Checked.sub_of_le (by omega)
  have hpossible : Checked.add success (total - success - failure) =
      .ok (success + (total - success - failure)) := Checked.add_of_lt (by omega)
  have habove : Checked.add total 1 = .ok (total + 1) := Checked.add_of_lt htotal
  unfold decideChecked decide
  simp only [hunsuccessful, hremaining, hpossible, habove, bind, Except.bind]
  cases s.policy with
  | requireAll | requireOne | requireMajority | custom => rfl

theorem verdictChecked_eq (s : Settings) (results : Results) {cs : List γ}
    (hcs : cs.length + 1 < UInt64.size) :
    verdictChecked h s results cs = .ok (if 0 < count h results cs .error then some .error
      else decide s cs.length (count h results cs .success) (count h results cs .failure)) := by
  have hfits : 0 + cs.length < UInt64.size := by omega
  have hcounts := countChecked_eq (h := h) {} results hfits hfits
  simp only [verdictChecked, hcounts, bind, Except.bind, Nat.zero_add, Bool.false_or,
    decide_eq_true_eq]
  split
  · rfl
  · exact decideChecked_eq s (count_success_add_failure_le results cs) hcs

theorem length_advance (budget : Option Nat) (results : Results) (cs : List γ) (x : Stage H) :
    (advance h budget results cs x).state.2.length = cs.length := by
  have hunits := map_advance (h := h) (f := fun _ => ()) ⟨fun _ _ => rfl, fun _ => rfl⟩ budget
    results cs x
  simpa using congrArg List.length hunits

theorem tickChecked_eq (s : Settings) (results : Results) {cs : List γ}
    (hcs : cs.length + 1 < UInt64.size) (x : Stage H) :
    tickChecked h s results cs x = tick h s results cs x := by
  have hadvance : advance h (some (s.maxConcurrency.getD (UInt64.size - 1))) results cs x =
      advance h s.maxConcurrency results cs x := by
    cases s.maxConcurrency with
    | some budget => rfl
    | none => exact advance_some (by dsimp only [Option.getD]; omega) results x
  have hlength := length_advance (h := h) s.maxConcurrency results cs x
  rw [tickChecked, advanceChecked_eq, hadvance, tick]
  generalize advance h s.maxConcurrency results cs x = turn at hlength
  obtain ⟨outcome, ⟨results', ds⟩, y⟩ := turn
  cases outcome with
  | error p => rfl
  | ok u =>
    dsimp only at hlength ⊢
    rw [verdictChecked_eq s results' (by omega), settle]
    by_cases herror : 0 < count h results' ds .error
    · rw [if_pos herror, if_pos herror]
    · rw [if_neg herror, if_neg herror]
      cases decide s ds.length (count h results' ds .success) (count h results' ds .failure) with
      | none => rfl
      | some status => rfl

end Parallel

/-! ## Actions -/

namespace Action

theorem reportChecked_eq (s : Settings) (run : Run) (now : UInt64) (status : Status) :
    reportChecked s run now status = .ok (report s run now status) := by
  unfold reportChecked
  split
  · next hretry =>
    obtain ⟨rfl, hlt⟩ := hretry
    rw [Checked.next_of_lt hlt, report]
    simp only [if_pos hlt]
    rfl
  · rfl

theorem tickChecked_eq (s : Settings) (script : Option (Script H Status)) (run : Run)
    (x : Stage H) : tickChecked s script run x = tick s script run x := by
  unfold tickChecked attemptChecked
  simp only [reportChecked_eq]
  rfl

end Action

/-! ## Behaviors -/

/-- As many children as fit into memory: no more bytes than a signed word of 64 bits counts. -/
def mostChildren : Nat := 2 ^ 63 - 1

/-- A tick of a node whose children fit into memory passes all checks of its own. -/
theorem Behavior.tickChecked_eq (b : Behavior H) {cs : List γ} (hcs : cs.length ≤ mostChildren)
    (x : Stage H) : b.tickChecked h cs x = b.tick h cs x := by
  have hsize : cs.length + 1 < UInt64.size := Nat.lt_of_le_of_lt (Nat.succ_le_succ hcs) (by decide)
  unfold Behavior.tickChecked tick
  cases b with
  | parallel s results => simp only [Parallel.tickChecked_eq s results hsize]
  | repeater s run => simp only [Repeater.tickChecked_eq]
  | action s script run => simp only [Action.tickChecked_eq]
  | root | sequence | selector | inverter | condition | extension => rfl

theorem Node.tickChecked_eq {k : Handling H (Tree H)} (n : Node H) {cs : List (Tree H)}
    (hcs : cs.length ≤ mostChildren) (x : Stage H) : n.tickChecked k cs x = n.tick k cs x := by
  rw [Node.tickChecked, Behavior.tickChecked_eq n.behavior hcs]
  rfl

end Conduct
