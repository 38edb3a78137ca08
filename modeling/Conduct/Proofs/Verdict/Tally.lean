import Conduct.Proofs.Survival.Walk
import Conduct.Proofs.Verdict.Rule

/-! What the results of a run tell.

The results tell which children finished in the run and how, and so in what ways all of them may end.
Main statement: `certain_iff`, a verdict is certain exactly when the rule gives it for every such way.
-/

set_option autoImplicit false

namespace Conduct.Parallel

variable {H : Host} {γ : Type} {s : Settings} {results : Results} {es : List Event}
  {ids : List String} {id : String} {status v : Status}

/-! ## What results tell of a run -/

/-- The results of a run tell what its events tell of the children that came to an end. -/
def Recalls (results : Results) (es : List Event) : Prop :=
  ∀ id status, status.isTerminal = true → (results.get? id = some status ↔ Reported es id status)

theorem recalls_nil : Recalls .nil [] := by
  intro id status _
  simp [Reported]

theorem Recalls.not_finished (hr : Recalls results es) (hf : finished results id = false)
    (ht : status.isTerminal = true) : ¬ Reported es id status := by
  intro hreported
  have hget := (hr id status ht).2 hreported
  simp only [finished, hget, ht] at hf
  cases hf

theorem Recalls.insert (hr : Recalls results es) (hf : finished results id = false)
    (status : Status) :
    Recalls (results.insert id status) (es ++ [.ticked id (some status)]) := by
  intro id' status' ht
  rw [reported_concat]
  by_cases hid : id' = id
  · subst hid
    have hnew := hr.not_finished hf ht
    rw [Dict.From.get?_insert_self]
    simp only [Option.some.injEq, hnew, false_or, true_and]
    exact eq_comm
  · rw [Dict.From.get?_insert_of_ne _ hid, hr id' status' ht]
    simp [hid]

theorem Recalls.unwound (hr : Recalls results es) (id : String) :
    Recalls results (es ++ [.ticked id none]) := by
  intro id' status ht
  rw [reported_concat, hr id' status ht]
  simp

/-- Resets tell nothing of what children reported. -/
theorem Recalls.resets (hr : Recalls results es) (ids : List String) :
    Recalls results (es ++ ids.map .reset) := by
  intro id status ht
  rw [hr id status ht]
  simp [Reported]

/-! ## What may become of the unfinished children -/

/-- What a child may end with: what it ended with in the run, if it finished. -/
def MayEnd (es : List Event) (id : String) (v : Status) : Prop :=
  (v = .success ∨ v = .failure) ∧ (Finished es id → Reported es id v)

/-- A way in which children with these ids may end. -/
def Ending (es : List Event) (ids : List String) (vs : List Status) : Prop :=
  List.Forall₂ (MayEnd es) ids vs

/-- How many of the children with these ids reported a status. -/
def tally (results : Results) (ids : List String) (status : Status) : Nat :=
  ids.countP fun id => results.get? id == some status

theorem count_eq_tally (h : Handling H γ) (results : Results) (cs : List γ) (status : Status) :
    count h results cs status = tally results (cs.map h.id) status := by
  unfold count tally
  rw [List.countP_map]
  rfl

theorem tally_cons (results : Results) (id : String) (ids : List String) (status : Status) :
    tally results (id :: ids) status =
      tally results ids status + if results.get? id = some status then 1 else 0 := by
  unfold tally
  rw [List.countP_cons]
  simp

theorem tally_le (results : Results) (ids : List String) :
    tally results ids .success + tally results ids .failure ≤ ids.length := by
  induction ids with
  | nil => exact Nat.le_refl _
  | cons id ids ih =>
    rw [tally_cons, tally_cons, List.length_cons]
    by_cases hs : results.get? id = some .success
    · have hf : results.get? id ≠ some .failure := by simp [hs]
      rw [if_pos hs, if_neg hf]
      omega
    · rw [if_neg hs]
      split
      · omega
      · omega

theorem Recalls.finished_iff (hr : Recalls results es) :
    Finished es id ↔ results.get? id = some .success ∨ results.get? id = some .failure := by
  rw [hr id .success rfl, hr id .failure rfl, Finished]

theorem tally_eq_length_iff (hr : Recalls results es) :
    tally results ids .success + tally results ids .failure = ids.length ↔
      ∀ id ∈ ids, Finished es id := by
  induction ids with
  | nil => simp [tally]
  | cons id ids ih =>
    have hle := tally_le results ids
    rw [tally_cons, tally_cons, List.length_cons, List.forall_mem_cons, hr.finished_iff, ← ih]
    by_cases hs : results.get? id = some .success
    · have hf : results.get? id ≠ some .failure := by simp [hs]
      rw [if_pos hs, if_neg hf]
      simp only [hs, true_or, true_and]
      omega
    · by_cases hf : results.get? id = some .failure
      · rw [if_neg hs, if_pos hf]
        simp only [hf, or_true, true_and]
        omega
      · rw [if_neg hs, if_neg hf]
        simp only [hs, hf, or_self, false_and, iff_false]
        omega

theorem Ending.counts {vs : List Status} (hr : Recalls results es) (he : Ending es ids vs) :
    tally results ids .success ≤ vs.count .success ∧
      tally results ids .failure ≤ vs.count .failure ∧
      vs.count .success + vs.count .failure = ids.length := by
  induction he with
  | nil => exact ⟨Nat.le_refl _, Nat.le_refl _, rfl⟩
  | @cons id v ids vs hv _ ih =>
    obtain ⟨hsuccess, hfailure, htotal⟩ := ih
    obtain ⟨hkind, hended⟩ := hv
    have hsame : ∀ status, status = .success ∨ status = .failure →
        results.get? id = some status → v = status := by
      intro status hstatus hget
      have hfinished : Finished es id := by
        rw [hr.finished_iff, hget]
        simpa using hstatus
      have hterminal : v.isTerminal = true := by rcases hkind with rfl | rfl <;> rfl
      have hv := (hr id v hterminal).2 (hended hfinished)
      rw [hget] at hv
      exact (Option.some.inj hv).symm
    rw [tally_cons, tally_cons, List.count_cons, List.count_cons, List.length_cons]
    rcases hkind with rfl | rfl
    · have hf : results.get? id ≠ some .failure := fun hf => by cases hsame .failure (.inr rfl) hf
      rw [if_neg hf]
      simp only [beq_self_eq_true, if_true, beq_iff_eq, reduceCtorEq, if_false]
      split
      · omega
      · omega
    · have hs : results.get? id ≠ some .success := fun hs => by cases hsame .success (.inl rfl) hs
      rw [if_neg hs]
      simp only [beq_self_eq_true, if_true, beq_iff_eq, reduceCtorEq, if_false]
      split
      · omega
      · omega

/-- The unfinished children may succeed and fail in any numbers. -/
theorem exists_ending (hr : Recalls results es) {ids : List String} {a b : Nat}
    (ha : tally results ids .success ≤ a) (hb : tally results ids .failure ≤ b)
    (hab : a + b = ids.length) :
    ∃ vs, Ending es ids vs ∧ vs.count .success = a ∧ vs.count .failure = b := by
  induction ids generalizing a b with
  | nil =>
    have hzero : a = 0 ∧ b = 0 := by simpa using hab
    exact ⟨[], .nil, hzero.1.symm, hzero.2.symm⟩
  | cons id ids ih =>
    have hle := tally_le results ids
    rw [tally_cons] at ha hb
    rw [List.length_cons] at hab
    -- The first child ends with a status that it may end with, and the counts of the others follow.
    have hsucceeds : MayEnd es id .success → tally results ids .success + 1 ≤ a →
        tally results ids .failure ≤ b →
        ∃ vs, Ending es (id :: ids) vs ∧ vs.count .success = a ∧ vs.count .failure = b := by
      intro hv ha' hb'
      have hlen : a - 1 + b = ids.length := by omega
      obtain ⟨vs, he, hsuccess, hfailure⟩ := ih (by omega) hb' hlen
      refine ⟨.success :: vs, .cons hv he, ?_, ?_⟩
      · rw [List.count_cons_self, hsuccess]
        omega
      · rw [List.count_cons_of_ne (by decide), hfailure]
    have hfails : MayEnd es id .failure → tally results ids .success ≤ a →
        tally results ids .failure + 1 ≤ b →
        ∃ vs, Ending es (id :: ids) vs ∧ vs.count .success = a ∧ vs.count .failure = b := by
      intro hv ha' hb'
      have hlen : a + (b - 1) = ids.length := by omega
      obtain ⟨vs, he, hsuccess, hfailure⟩ := ih ha' (by omega) hlen
      refine ⟨.failure :: vs, .cons hv he, ?_, ?_⟩
      · rw [List.count_cons_of_ne (by decide), hsuccess]
      · rw [List.count_cons_self, hfailure]
        omega
    by_cases hs : results.get? id = some .success
    · have hf : results.get? id ≠ some .failure := by simp [hs]
      rw [if_pos hs] at ha
      rw [if_neg hf] at hb
      exact hsucceeds ⟨.inl rfl, fun _ => (hr id .success rfl).1 hs⟩ ha (by omega)
    · rw [if_neg hs] at ha
      by_cases hf : results.get? id = some .failure
      · rw [if_pos hf] at hb
        exact hfails ⟨.inr rfl, fun _ => (hr id .failure rfl).1 hf⟩ (by omega) hb
      · rw [if_neg hf] at hb
        have hopen : ¬ Finished es id := by
          rw [hr.finished_iff]
          exact fun hor => hor.elim hs hf
        by_cases hmore : tally results ids .success + 1 ≤ a
        · exact hsucceeds ⟨.inl rfl, fun hf => absurd hf hopen⟩ hmore (by omega)
        · exact hfails ⟨.inr rfl, fun hf => absurd hf hopen⟩ (by omega) (by omega)

theorem certain_iff (s : Settings) (hr : Recalls results es) :
    s.Certain ids.length (tally results ids .success) (tally results ids .failure) v ↔
      ∀ vs, Ending es ids vs → s.rule (vs.count .success) (vs.count .failure) = v := by
  constructor
  · intro hc vs he
    obtain ⟨hsuccess, hfailure, htotal⟩ := he.counts hr
    exact hc _ _ hsuccess hfailure htotal
  · intro hall a b ha hb hab
    obtain ⟨vs, he, rfl, rfl⟩ := exists_ending hr ha hb hab
    exact hall vs he

end Conduct.Parallel
