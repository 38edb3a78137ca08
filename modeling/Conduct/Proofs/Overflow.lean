import Conduct.Proofs.Exchange
import Conduct.Proofs.Overflow.Exact
import Conduct.Proofs.Retries

/-! No counter of a tick overflows.

Whatever is done to a tree that is made of fresh nodes, its counters stay within what their settings
allow, and ticks that check every sum and difference do the same as those that do not. Times are
compared and added up as numbers, whichever way the clock goes. Main statement:
`Tree.Worked.counts_exactly`.
-/

set_option autoImplicit false

namespace Conduct

variable {H : Host} {γ δ : Type}

/-! ## Counters within bounds -/

/-- What a behavior counts is within what its settings and its children allow. -/
def Behavior.Bounded (h : Handling H γ) (b : Behavior H) (cs : List γ) : Prop :=
  match b with
  | .repeater s run => run.iteration ≤ s.maxIterations
  | .action s _ run => run.attempts ≤ s.retryCount
  | .parallel _ results =>
    Parallel.count h results cs .success + Parallel.count h results cs .failure ≤ cs.length
  | _ => True

/-- The children do not matter, not even to a parallel: it counts those it has. -/
theorem Behavior.Bounded.change {h : Handling H γ} {k : Handling H δ} {b : Behavior H}
    {cs : List γ} (hb : b.Bounded h cs) (ds : List δ) : b.Bounded k ds := by
  cases b with
  | parallel s results => exact Parallel.count_success_add_failure_le results ds
  | repeater | action => exact hb
  | root | sequence | selector | inverter | condition | extension => trivial

theorem Behavior.bounded_reset (h : Handling H γ) (b : Behavior H) (cs : List γ) :
    b.reset.Bounded h cs := by
  cases b with
  | parallel s results => exact Parallel.count_success_add_failure_le .nil cs
  | repeater s run => exact UInt32.le_iff_toNat_le.2 (Nat.zero_le _)
  | action s script run => exact UInt32.le_iff_toNat_le.2 (Nat.zero_le _)
  | root | sequence | selector | inverter | condition | extension => trivial

/-- The loop counts an iteration only while some are left. -/
theorem Repeater.iteration_loop_le (h : Handling H γ) (s : Settings) {left : Nat} {run : Run}
    (hleft : left + run.iteration.toNat = s.maxIterations.toNat) (c : γ) (x : Stage H) :
    (loop h s left run c x).state.1.iteration ≤ s.maxIterations := by
  have hzero : ({} : Run).iteration ≤ s.maxIterations := UInt32.le_iff_toNat_le.2 (Nat.zero_le _)
  have hrun : run.iteration ≤ s.maxIterations := UInt32.le_iff_toNat_le.2 (by omega)
  induction left generalizing run c x with
  | zero => exact hzero
  | succ left ih =>
    have hagain : ∀ status c x,
        (loop h s left (run.finishIteration status) c x).state.1.iteration ≤ s.maxIterations := by
      intro status c x
      have hnext := left_finishIteration status hleft
      exact ih hnext c x (UInt32.le_iff_toNat_le.2 (by omega))
    rw [loop]
    split
    · exact hzero
    · dsimp only
      split
      · exact hrun
      · exact hrun
      · exact hzero
      · exact hzero
      · split
        · exact hzero
        · exact hagain _ _ _

theorem Repeater.iteration_tick_le (h : Handling H γ) (s : Settings) {run : Run}
    (hrun : run.iteration ≤ s.maxIterations) (cs : List γ) (x : Stage H) :
    (tick h s run cs x).state.1.iteration ≤ s.maxIterations := by
  cases cs with
  | nil => exact hrun
  | cons c cs =>
    rw [UInt32.le_iff_toNat_le] at hrun
    exact iteration_loop_le h s (Nat.sub_add_cancel hrun) c x

theorem Action.attempts_report_le (s : Settings) {run : Run} (hrun : run.attempts ≤ s.retryCount)
    (now : UInt64) (status : Status) : (report s run now status).2.attempts ≤ s.retryCount := by
  have hzero : (0 : UInt32) ≤ s.retryCount := UInt32.le_iff_toNat_le.2 (Nat.zero_le _)
  cases status with
  | running => exact hrun
  | failure =>
    rw [report]
    split
    · next hlt =>
      have hnext := Checked.toNat_next (Checked.next_of_lt hlt)
      rw [UInt32.lt_iff_toNat_lt] at hlt
      refine UInt32.le_iff_toNat_le.2 (hnext.trans_le ?_)
      omega
    · exact hzero
  | success | error | ready => exact hzero

theorem Action.attempts_tick_le (s : Settings) (script : Option (Script H Status)) {run : Run}
    (hrun : run.attempts ≤ s.retryCount) (x : Stage H) :
    (tick s script run x).state.attempts ≤ s.retryCount := by
  have hkeeps := (perform_keeps s script { run with nextAttempt := none } x).1
  unfold tick attempt
  generalize perform s script { run with nextAttempt := none } x = performed at hkeeps
  obtain ⟨outcome, run', y⟩ := performed
  have hrun' : run'.attempts ≤ s.retryCount := by
    rw [hkeeps]
    exact hrun
  split
  · exact hrun
  · cases outcome with
    | panic p => exact hrun'
    | fault e => exact attempts_report_le s hrun' x.now .error
    | value status => exact attempts_report_le s hrun' x.now status

theorem Behavior.Bounded.tick {h k : Handling H γ} {b : Behavior H} {cs : List γ}
    (hb : b.Bounded k cs) (x : Stage H) :
    (b.tick h cs x).state.1.Bounded k (b.tick h cs x).state.2 := by
  cases b with
  | parallel s results => exact Parallel.count_success_add_failure_le _ _
  | repeater s run => exact Repeater.iteration_tick_le h s hb cs x
  | action s script run => exact Action.attempts_tick_le s script hb x
  | root | sequence | selector | inverter | condition | extension => trivial

namespace Tree

/-- A node whose children fit into memory and whose counters are within bounds. -/
def BoundedNode (n : Node H) (cs : List (Tree H)) : Prop :=
  cs.length ≤ mostChildren ∧ n.behavior.Bounded (handling tick) cs

def Bounded (t : Tree H) : Prop := t.Everywhere BoundedNode

variable {t u child : Tree H}

theorem Bounded.reset (ht : t.Bounded) : t.reset.Bounded := by
  unfold Bounded Tree.reset
  rw [Rose.everywhere_map]
  refine Rose.Everywhere.imp (fun n cs hn => ⟨?_, n.behavior.bounded_reset _ _⟩) ht
  rw [List.length_map]
  exact hn.1

/-! ## Ticks with checks and without -/

theorem boundedNode_tick {k : Handling H (Tree H)} {n : Node H} {cs : List (Tree H)}
    (hn : BoundedNode n cs) (x : Stage H) :
    BoundedNode (n.tick k cs x).state.value (n.tick k cs x).state.children := by
  have hlength : (n.behavior.tick k cs x).state.2.length = cs.length := by
    have hunits := n.behavior.map_tick (h := k) (f := fun _ => ())
      ⟨fun _ _ => rfl, fun _ => rfl⟩ cs x
    simpa using congrArg List.length hunits
  have hbounded := hn.2.tick (h := k) x
  unfold Node.tick
  dsimp only
  split
  · exact ⟨hlength.trans_le hn.1, hbounded⟩
  · exact ⟨hlength.trans_le hn.1, hbounded⟩

/-- A tick passes all checks, at every level of a tree within bounds, and leaves it within them. -/
theorem tickCheckedWithin_eq (l : Nat) (ht : t.Bounded) (x : Stage H) :
    tickCheckedWithin l t x = tickWithin l t x ∧ (tickWithin l t x).state.Bounded := by
  induction l generalizing t x with
  | zero => exact ⟨rfl, ht⟩
  | succ l ih =>
    obtain ⟨n, cs⟩ := t
    obtain ⟨hn, hcs⟩ := Rose.everywhere_node.1 ht
    have hagree : (handling (tickWithin (H := H) l)).Agree (fun c d => c = d ∧ Bounded c)
        (Stage.Both fun _ => True) (handling (tickCheckedWithin l)) :=
      { id := fun hc => congrArg Tree.id hc.1
        tick := by
          rintro c d x y ⟨rfl, hc⟩ ⟨rfl, -⟩
          simp only [handling, (ih hc x).1]
          exact ⟨rfl, ⟨rfl, (ih hc x).2⟩, rfl, trivial⟩
        reset := by
          rintro c d ⟨rfl, hc⟩
          exact ⟨rfl, hc.reset⟩
        notice := by
          rintro c d x y ⟨rfl, -⟩ ⟨rfl, -⟩
          exact ⟨rfl, trivial⟩
        write := by
          rintro x y _ _ _ ⟨rfl, -⟩
          exact ⟨rfl, trivial⟩ }
    obtain ⟨heq, hchildren, -⟩ := Node.tick_agree lasting_true hagree n cs x hcs trivial
    simp only [tickCheckedWithin, tickWithin]
    constructor
    · rw [Node.tickChecked_eq n hn.1, heq]
    · have hnode := boundedNode_tick (k := handling (tickWithin l)) hn x
      generalize (n.tick (handling (tickWithin l)) cs x).state = u at hchildren hnode
      obtain ⟨m, ds⟩ := u
      exact Rose.everywhere_node.2 ⟨hnode, hchildren⟩

theorem Bounded.tick (ht : t.Bounded) (x : Stage H) : (t.tick x).state.Bounded :=
  (tickCheckedWithin_eq t.height ht x).2

theorem Bounded.exchanged {old new : Tree H} (he : Rose.Exchanged old new t u) (ht : t.Bounded)
    (hnew : new.Bounded) : u.Bounded :=
  he.everywhere (fun _ _ ds hl hn => ⟨hl ▸ hn.1, hn.2.change ds⟩) ht hnew

/-! ## What is done to trees -/

/-- The trees that come of fresh nodes by ticks, completed or unwound, by resets, and by insertions
and removals of children, in all of a tree or in a part of it. -/
inductive Worked : Tree H → Prop
  | fresh (n : Node H) (h : n.behavior.reset = n.behavior) : Worked (.node n [])
  | ticked {t : Tree H} (w : Worked t) (x : Stage H) : Worked (t.tick x).state
  | reset {t : Tree H} (w : Worked t) : Worked t.reset
  /-- Room for a child was left in memory. -/
  | inserted {n : Node H} {before after : List (Tree H)} {child : Tree H}
      (w : Worked (.node n (before ++ after))) (wc : Worked child)
      (hroom : (before ++ after).length < mostChildren) :
      Worked (.node n (before ++ child :: after))
  | removed {n : Node H} {before after : List (Tree H)} {child : Tree H}
      (w : Worked (.node n (before ++ child :: after))) : Worked (.node n (before ++ after))
  | part {t u : Tree H} {p : Position} (w : Worked t) (h : t.at? p = some u) : Worked u
  /-- Something was done to a part. -/
  | within {t u old new : Tree H} (w : Worked t) (wn : Worked new)
      (h : Rose.Exchanged old new t u) : Worked u

theorem Worked.bounded (w : Worked t) : t.Bounded := by
  induction w with
  | fresh n h =>
    exact Rose.everywhere_node.2 ⟨⟨Nat.zero_le _, h ▸ n.behavior.bounded_reset _ []⟩, nofun⟩
  | ticked w x ih => exact ih.tick x
  | reset w ih => exact ih.reset
  | inserted w wc hroom ih ihc =>
    obtain ⟨hn, hcs⟩ := Rose.everywhere_node.1 ih
    obtain ⟨hbefore, hafter⟩ := List.forall_mem_append.1 hcs
    refine Rose.everywhere_node.2 ⟨⟨?_, hn.2.change _⟩,
      List.forall_mem_append.2 ⟨hbefore, List.forall_mem_cons.2 ⟨ihc, hafter⟩⟩⟩
    simp only [List.length_append, List.length_cons] at hroom ⊢
    omega
  | removed w ih =>
    obtain ⟨hn, hcs⟩ := Rose.everywhere_node.1 ih
    obtain ⟨hbefore, hrest⟩ := List.forall_mem_append.1 hcs
    refine Rose.everywhere_node.2 ⟨⟨?_, hn.2.change _⟩,
      List.forall_mem_append.2 ⟨hbefore, (List.forall_mem_cons.1 hrest).2⟩⟩
    have hlength := hn.1
    simp only [List.length_append, List.length_cons] at hlength ⊢
    omega
  | part w h ih => exact Rose.Everywhere.at? ih h
  | within w wn h ih ihn => exact ih.exchanged h ihn

/-! ## The edits of a tree are among what is done to it -/

theorem Worked.insertChild {index : Nat} (w : Worked t) (wc : Worked child)
    (h : t.insertChild index child = .ok u) (hroom : t.children.length < mostChildren) :
    Worked u := by
  obtain ⟨n, cs⟩ := t
  obtain ⟨-, -, rfl⟩ := insertChild_eq_ok_iff.1 h
  rw [← List.take_append_drop index cs] at w
  refine .inserted w wc ?_
  rwa [List.take_append_drop]

theorem Worked.graft {parentId : String} {index : Nat} (w : Worked t) (wc : Worked child)
    (h : t.graft parentId index child = .ok u)
    (hroom : ∀ parent, t.find? parentId = some parent → parent.children.length < mostChildren) :
    Worked u := by
  unfold Tree.graft at h
  cases hd : checkDistinct t child with
  | error e => simp [hd, bind, Except.bind] at h
  | ok _ =>
    cases hf : t.find? parentId with
    | none => simp [hd, hf, bind, Except.bind] at h
    | some parent =>
      cases hi : parent.insertChild index child with
      | error e => simp [hd, hf, hi, bind, Except.bind] at h
      | ok grown =>
        simp only [hd, hf, hi, bind, Except.bind, Except.ok.injEq] at h
        subst h
        have he : Rose.Exchanged parent grown t _ := Rose.exchanged_replace t hf
        obtain ⟨q, hq, -⟩ := he.exists_at?
        exact w.within ((w.part hq).insertChild wc hi (hroom parent hf)) he

theorem Worked.takenOut (w : Worked t) (h : Rose.TakenOut child t u) : Worked u := by
  obtain ⟨v, before, after, he⟩ := h
  obtain ⟨q, hq, -⟩ := he.exists_at?
  exact w.within (w.part hq).removed he

theorem Worked.removeChild? {id : String} (w : Worked t)
    (h : t.removeChild? id = some (child, u)) : Worked u := by
  obtain ⟨n, cs⟩ := t
  obtain ⟨⟨_, ds⟩, htake, heq⟩ := Option.map_eq_some_iff.1 h
  cases heq
  obtain ⟨-, before, after, hold, rfl⟩ := Rose.takeFirst?_eq_some htake
  have hold : cs = before ++ child :: after := hold
  subst hold
  exact w.removed

/-- A removal leaves two such trees, what is taken out and what is left. -/
theorem Worked.detach? {id : String} (w : Worked t) (h : t.detach? id = some (child, u)) :
    Worked child ∧ Worked u := by
  have htaken := (Rose.exchanged_detach? t h).2
  obtain ⟨q, hq⟩ := htaken.exists_at?
  exact ⟨w.part hq, w.takenOut htaken⟩

end Tree

/-! ## Times -/

/-- What a tick makes of a reading of the clock: a difference of times is zero if the clock went
back, and a sum is at most the latest time there is. -/
structure Timekeeping (now : UInt64) : Prop where
  overdue : ∀ s started, Root.overdue s started now = true ↔
    ∃ budget, s.maxExecutionTime = some budget ∧ budget.toNat < now.toNat - started.toNat
  waited : ∀ s run, (Action.wait s run now).1 = .success ↔
    s.duration.toNat ≤ now.toNat - (run.waitStarted.getD now).toNat
  due : ∀ s run, run.attempts < s.retryCount →
    ∃ time, (Action.report s run now .failure).2.nextAttempt = some time ∧
      time.toNat = min (now.toNat + s.retryDelay.toNat) (UInt64.size - 1)

theorem timekeeping (now : UInt64) : Timekeeping now where
  overdue s started := by
    unfold Root.overdue
    cases s.maxExecutionTime with
    | none => simp
    | some budget => simp [UInt64.lt_iff_toNat_lt, Clock.toNat_elapsed]
  waited s run := by
    have hrunning : Status.running ≠ .success := by decide
    rw [← Clock.toNat_elapsed, ← UInt64.le_iff_toNat_le]
    simp only [Action.wait]
    split
    · next h => exact iff_of_true rfl h
    · next h => exact iff_of_false hrunning h
  due s run hlt := by
    refine ⟨_, ?_, Clock.toNat_later now s.retryDelay⟩
    rw [Action.report, if_pos hlt]

/-! ## Whatever is done to a tree -/

/-- Ticks that check their sums and differences do what the ticks do, the counters are within their
bounds, and times are compared and added up as numbers. -/
theorem Tree.Worked.counts_exactly {t : Tree H} (w : Tree.Worked t) :
    (∀ x, t.tickChecked x = t.tick x) ∧ t.Bounded ∧ ∀ now, Timekeeping now :=
  ⟨fun x => (Tree.tickCheckedWithin_eq t.height w.bounded x).1, w.bounded, timekeeping⟩

section Insatiable

/-- As many iterations and retries as can be asked for, and the longest delay. -/
def insatiable : Tree Rehearsal.host :=
  .node (.fresh "r" .repeater "R" {} .nil
    (.repeater { maxIterations := 0xffffffff, repeatUntil := .always } {}))
    [.node (.fresh "a" .action "A" {} .nil
      (.action { retryCount := 0xffffffff, retryDelay := Clock.latest } (some Action.failing) {})) []]

/-- The clock goes back between two ticks. -/
theorem counts_exactly_insatiable : Tree.Worked (insatiable.tick (Rehearsal.clock 5)).state ∧
    ((insatiable.tick (Rehearsal.clock 5)).state.tickChecked (Rehearsal.clock 3)).outcome =
      .ok .running := by
  have hmade : Tree.Worked insatiable :=
    @Tree.Worked.inserted _ _ [] [] _ (.fresh _ rfl) (.fresh _ rfl) (by decide)
  have w := hmade.ticked (Rehearsal.clock 5)
  refine ⟨w, ?_⟩
  rw [w.counts_exactly.1]
  rfl

end Insatiable

end Conduct
