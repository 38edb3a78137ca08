import Conduct.Proofs.Survival
import Mathlib.Data.List.Induction

/-! The iterations of a repeater.

A run is told as a list of iterations. From it follow the events of the run, when the run is over and
with which verdict, and what the repeater remembers of it. Main statements: `finalStatus_after` and
`countReached_after`.
-/

set_option autoImplicit false

namespace Conduct.Repeater

/-- An iteration: the child was running so often in it, and then came to a verdict. -/
structure Iteration where
  pauses : Nat
  verdict : Status

/-- What iterations came to. -/
def verdicts (its : List Iteration) : List Status := its.map Iteration.verdict

@[simp] theorem length_verdicts (its : List Iteration) : (verdicts its).length = its.length :=
  List.length_map _

theorem verdicts_concat (its : List Iteration) (i : Iteration) :
    verdicts (its ++ [i]) = verdicts its ++ [i.verdict] := List.map_append

variable {s : Settings} {id : String} {its : List Iteration} {rs : List Status}

/-! ## Events -/

/-- The child is running again and again. -/
def pausing (id : String) (pauses : Nat) : List Event :=
  List.replicate pauses (.ticked id (some .running))

def Iteration.events (id : String) (i : Iteration) : List Event :=
  pausing id i.pauses ++ [.ticked id (some i.verdict)]

/-- What happens between two iterations. -/
def Settings.between (s : Settings) (id : String) : List Event :=
  if s.resetChild then [.reset id] else []

/-- The events of iterations in a row. -/
def story (s : Settings) (id : String) (its : List Iteration) : List Event :=
  (s.between id).intercalate (its.map (Iteration.events id))

/-- The events of iterations in a row and of another one that has begun. -/
def storyWithin (s : Settings) (id : String) (its : List Iteration) (pauses : Nat) : List Event :=
  (s.between id).intercalate (its.map (Iteration.events id) ++ [pausing id pauses])

/-- The events of a run, in the middle of an iteration or not. -/
def soFar (s : Settings) (id : String) (its : List Iteration) : Option Nat → List Event
  | none => story s id its
  | some pauses => storyWithin s id its pauses

theorem intercalate_concat {α : Type} (sep : List α) (xs : List (List α)) (x y : List α) :
    sep.intercalate (xs ++ [x ++ y]) = sep.intercalate (xs ++ [x]) ++ y := by
  induction xs with
  | nil => simp [List.intercalate]
  | cons z xs ih =>
    cases xs with
    | nil => simp [List.intercalate]
    | cons z' xs =>
      simp only [List.intercalate, List.cons_append, List.intersperse_cons_cons, List.flatten_cons,
        List.append_assoc] at ih ⊢
      rw [ih]

theorem intercalate_concat_nil {α : Type} (sep : List α) (xs : List (List α)) :
    sep.intercalate (xs ++ [[]]) = sep.intercalate xs ++ if xs = [] then [] else sep := by
  induction xs with
  | nil => simp [List.intercalate]
  | cons z xs ih =>
    cases xs with
    | nil => simp [List.intercalate]
    | cons z' xs =>
      simp only [List.intercalate, List.cons_append, List.intersperse_cons_cons, List.flatten_cons,
        List.append_assoc, reduceCtorEq, if_false] at ih ⊢
      rw [ih]

theorem storyWithin_pause (pauses : Nat) :
    storyWithin s id its pauses ++ [.ticked id (some .running)] =
      storyWithin s id its (pauses + 1) := by
  unfold storyWithin pausing
  rw [← intercalate_concat, ← List.replicate_succ']

theorem storyWithin_finish (pauses : Nat) (r : Status) :
    storyWithin s id its pauses ++ [.ticked id (some r)] = story s id (its ++ [⟨pauses, r⟩]) := by
  unfold storyWithin story
  rw [← intercalate_concat, List.map_append]
  rfl

theorem story_begin :
    story s id its ++ (if its = [] then [] else s.between id) = storyWithin s id its 0 := by
  unfold storyWithin story
  rw [show pausing id 0 = [] from rfl, intercalate_concat_nil]
  simp only [List.map_eq_nil_iff]

/-! ## When a run is over -/

/-- The status that a repeater waits for. -/
def Until.awaited : Until → Option Status
  | .success => some .success
  | .failure => some .failure
  | .count => none
  | .always => none

/-- An iteration with this verdict is the last one. -/
def Settings.Ends (s : Settings) (r : Status) : Prop :=
  r = .error ∨ (s.breakOnFailure ∧ r = .failure) ∨ (s.breakOnSuccess ∧ r = .success) ∨
    s.repeatUntil.awaited = some r

/-- A run with these verdicts is over: they are as many as were asked for or allowed, or the last of
them ends it. -/
def Settings.Stops (s : Settings) (rs : List Status) : Prop :=
  (s.repeatUntil = .count ∧ s.repeatCount = rs.length) ∨ rs.length = s.maxIterations.toNat ∨
    ∃ r, rs.getLast? = some r ∧ s.Ends r

/-- What a repeater makes of the verdicts of a whole run. -/
def Settings.verdict (s : Settings) (rs : List Status) : Status :=
  if rs.getLast? = some .error then .error
  else
    match s.repeatUntil.awaited with
    | some r => if rs.getLast? = some r then .success else .failure
    | none => rs.getLast?.getD .success

theorem isTerminal_verdict (s : Settings) (h : ∀ r ∈ rs, r.isTerminal) :
    (s.verdict rs).isTerminal := by
  have hlast : ∀ r, rs.getLast? = some r → r.isTerminal :=
    fun r hr => h r (List.mem_of_getLast? hr)
  unfold Settings.verdict
  split
  · rfl
  · split
    · split
      · rfl
      · rfl
    · cases hl : rs.getLast? with
      | none => rfl
      | some r => exact hlast r hl

theorem breaksOn_iff {r : Status} (hr : r = .success ∨ r = .failure) :
    breaksOn s r = true ↔ s.Ends r := by
  rcases hr with rfl | rfl
  · cases hu : s.repeatUntil <;> simp [breaksOn, Settings.Ends, Until.awaited, hu]
  · cases hu : s.repeatUntil <;> simp [breaksOn, Settings.Ends, Until.awaited, hu]

/-! ## What a repeater remembers -/

/-- What a repeater remembers of iterations with these verdicts, in the middle of another one or
not. -/
def Run.after (rs : List Status) (within : Bool) : Run :=
  { rs.foldl Run.finishIteration {} with inProgress := within }

theorem Run.finishIteration_after (rs : List Status) (within : Bool) (r : Status) :
    (Run.after rs within).finishIteration r = Run.after (rs ++ [r]) false := by
  unfold after
  rw [List.foldl_append]
  rfl

theorem Run.toNat_iteration_after (within : Bool) (h : rs.length ≤ s.maxIterations.toNat) :
    (Run.after rs within).iteration.toNat = rs.length := by
  induction rs using List.reverseRecOn generalizing within with
  | nil => rfl
  | append_singleton rs r ih =>
    rw [List.length_append, List.length_singleton] at h ⊢
    have hmax := s.maxIterations.toNat_lt
    have hstep : (Run.after (rs ++ [r]) within).iteration = (Run.after rs false).iteration + 1 := by
      unfold Run.after
      rw [List.foldl_append]
      rfl
    have hone : (1 : UInt32).toNat = 1 := rfl
    rw [hstep, UInt32.toNat_add, ih false (by omega), hone, Nat.mod_eq_of_lt (by omega)]

theorem Run.last_after (rs : List Status) (within : Bool) :
    (Run.after rs within).last = rs.getLast? := by
  induction rs using List.reverseRecOn with
  | nil => rfl
  | append_singleton rs r _ =>
    unfold Run.after
    rw [List.foldl_append, List.getLast?_concat]
    rfl

theorem Run.seen_after (rs : List Status) (within : Bool) :
    ((Run.after rs within).seenSuccess = true ↔ .success ∈ rs) ∧
      ((Run.after rs within).seenFailure = true ↔ .failure ∈ rs) := by
  induction rs using List.reverseRecOn generalizing within with
  | nil => simp [Run.after]
  | append_singleton rs r ih =>
    have hsuccess : (Run.after (rs ++ [r]) within).seenSuccess =
        ((Run.after rs false).seenSuccess || r = .success) := by
      unfold Run.after
      rw [List.foldl_append]
      rfl
    have hfailure : (Run.after (rs ++ [r]) within).seenFailure =
        ((Run.after rs false).seenFailure || r = .failure) := by
      unfold Run.after
      rw [List.foldl_append]
      rfl
    rw [hsuccess, hfailure]
    simp only [Bool.or_eq_true, decide_eq_true_eq, (ih false).1, (ih false).2, List.mem_append,
      List.mem_singleton]
    exact ⟨or_congr_right eq_comm, or_congr_right eq_comm⟩

/-- While no verdict but perhaps the last one ended the run, the status that is awaited was seen if
and only if it came last. -/
theorem finalStatus_after (within : Bool) (hcalm : ∀ r ∈ rs.dropLast, ¬ s.Ends r)
    (herror : rs.getLast? ≠ some .error) :
    finalStatus s (Run.after rs within) = s.verdict rs := by
  have hseen : ∀ r, s.repeatUntil.awaited = some r → (r ∈ rs ↔ rs.getLast? = some r) := by
    intro r hr
    refine ⟨fun hmem => ?_, List.mem_of_getLast?⟩
    induction rs using List.reverseRecOn with
    | nil => cases hmem
    | append_singleton rs' r' _ =>
      rw [List.dropLast_concat] at hcalm
      rw [List.getLast?_concat]
      rcases List.mem_append.1 hmem with hmem | hmem
      · exact absurd (.inr (.inr (.inr hr))) (hcalm r hmem)
      · rw [List.mem_singleton.1 hmem]
  unfold finalStatus Settings.verdict
  rw [if_neg herror]
  cases hu : s.repeatUntil with
  | success =>
    simp only [Until.awaited, (Run.seen_after rs within).1, hseen .success (by rw [hu]; rfl)]
  | failure =>
    simp only [Until.awaited, (Run.seen_after rs within).2, hseen .failure (by rw [hu]; rfl)]
  | count => simp only [Until.awaited, Run.last_after]
  | always => simp only [Until.awaited, Run.last_after]

/-- A repeater that did not stop before has reached its count if and only if that many iterations are
done. -/
theorem countReached_after (rs : List Status) (within : Bool)
    (hle : rs.length ≤ s.maxIterations.toNat) (hgo : ∀ k < rs.length, ¬ s.Stops (rs.take k)) :
    countReached s (Run.after rs within) = true ↔
      s.repeatUntil = .count ∧ s.repeatCount = rs.length := by
  unfold countReached
  rw [Run.toNat_iteration_after within hle]
  simp only [Bool.and_eq_true, decide_eq_true_eq]
  constructor
  · rintro ⟨⟨hu, hpos⟩, hreached⟩
    refine ⟨hu, ?_⟩
    by_contra hne
    have hlt : s.repeatCount.toNat < rs.length := by omega
    refine hgo _ hlt (.inl ⟨hu, ?_⟩)
    rw [List.length_take]
    omega
  · rintro ⟨hu, hcount⟩
    exact ⟨⟨hu, by omega⟩, by omega⟩

end Conduct.Repeater
