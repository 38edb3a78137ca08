import Conduct.Proofs.Tidiness.Parallel
import Conduct.Proofs.Verdict

/-! Parallels that may tick a child.

Where at least one child may be ticked at a time, a tick that ticks none finds all children finished, and
then there is a verdict. Main statement: `exists_ticked`.
-/

set_option autoImplicit false

namespace Conduct

variable {H : Host}

namespace Parallel

variable {γ : Type} {h : Handling H γ} {T : γ → Prop} {s : Settings} {results : Results}
  {cs : List γ} {stage : Stage H}

theorem maxConcurrency_ne_zero {count : Nat} (hs : findings s count = []) :
    s.maxConcurrency ≠ some 0 := by
  intro hzero
  simp [findings, hzero] at hs

/-- Where the budget allows a tick, a child is ticked unless all have finished. -/
theorem advance_idle (hT : ∀ c x, T (h.tick c x).state) {budget : Option Nat}
    (hb : budget ≠ some 0) (ho : (advance h budget results cs stage).outcome = .ok ()) :
    (∃ c ∈ (advance h budget results cs stage).state.2, T c) ∨
      (advance h budget results cs stage).state = (results, cs) ∧
        ∀ c ∈ cs, finished results (h.id c) = true := by
  induction cs with
  | nil => exact .inr ⟨rfl, fun c hc => absurd hc List.not_mem_nil⟩
  | cons c cs ih =>
    rw [advance] at ho ⊢
    dsimp only at ho ⊢
    cases hf : finished results (h.id c) with
    | true =>
      simp only [hf, Bool.true_or, if_true] at ho ⊢
      rcases ih ho with ⟨d, hd, ht⟩ | ⟨hstate, hall⟩
      · exact .inl ⟨d, List.mem_cons_of_mem c hd, ht⟩
      · refine .inr ⟨?_, List.forall_mem_cons.2 ⟨hf, hall⟩⟩
        simp only [Turn.push, Turn.map, hstate]
    | false =>
      have hbudget : (budget == some 0) = false := beq_false_of_ne hb
      simp only [hf, hbudget, Bool.or_self, Bool.false_eq_true, if_false] at ho ⊢
      cases hturn : (h.tick c stage).outcome with
      | error p =>
        simp only [hturn] at ho
        cases ho
      | ok status => exact .inl ⟨(h.tick c stage).state, List.mem_cons_self, hT c stage⟩

theorem count_of_finished (hf : ∀ c ∈ cs, finished results (h.id c) = true) :
    count h results cs .success + count h results cs .failure + count h results cs .error =
      cs.length := by
  unfold count
  induction cs with
  | nil => rfl
  | cons c cs ih =>
    obtain ⟨hc, hcs⟩ := List.forall_mem_cons.1 hf
    have hsum := ih hcs
    unfold finished at hc
    simp only [List.countP_cons, List.length_cons]
    cases hr : results.get? (h.id c) with
    | none =>
      rw [hr] at hc
      cases hc
    | some reported =>
      rw [hr] at hc
      cases reported with
      | ready => cases hc
      | running => cases hc
      | success =>
        simp
        omega
      | failure =>
        simp
        omega
      | error =>
        simp
        omega

/-- Once all children have finished there is a verdict. -/
theorem settle_ne_running (hf : ∀ c ∈ cs, finished results (h.id c) = true) :
    (settle h s results cs stage).outcome ≠ .ok .running := by
  rw [outcome_settle]
  intro ho
  have hcount := count_of_finished hf
  have hstatus := Except.ok.inj ho
  split at hstatus
  · cases hstatus
  · have hd : decide s cs.length (count h results cs .success) (count h results cs .failure) =
        some _ := decide_of_finished s (by omega)
    have hne := decide_ne_running s cs.length (count h results cs .success)
      (count h results cs .failure)
    rw [hd] at hstatus hne
    exact hne (congrArg some hstatus)

theorem children_settle (ho : (settle h s results cs stage).outcome = .ok .running) :
    (settle h s results cs stage).state.2 = cs := by
  have hfinish : ∀ status, status ≠ .running →
      (finish h s results cs stage status).outcome ≠ .ok .running := by
    intro status hstatus
    unfold finish
    split
    · exact fun he => hstatus (Except.ok.inj he)
    · exact fun he => hstatus (Except.ok.inj he)
  have hdecide := decide_ne_running s cs.length (count h results cs .success)
    (count h results cs .failure)
  unfold settle at ho ⊢
  split at ho
  · exact absurd ho (hfinish .error nofun)
  · next herror =>
    rw [if_neg herror]
    dsimp only at ho ⊢
    cases hd : decide s cs.length (count h results cs .success) (count h results cs .failure) with
    | none => rfl
    | some status =>
      simp only [hd] at ho
      refine absurd ho (hfinish status ?_)
      rintro rfl
      exact hdecide hd

/-- While a parallel is running, every tick of it ticks a child. -/
theorem exists_ticked (hT : ∀ c x, T (h.tick c x).state) (hs : s.maxConcurrency ≠ some 0)
    (ho : (tick h s results cs stage).outcome = .ok .running) :
    ∃ c ∈ (tick h s results cs stage).state.2, T c := by
  unfold tick at ho ⊢
  dsimp only at ho ⊢
  cases hadvance : (advance h s.maxConcurrency results cs stage).outcome with
  | error p =>
    simp only [hadvance] at ho
    cases ho
  | ok u =>
    simp only [hadvance] at ho ⊢
    rcases advance_idle hT hs hadvance with hticked | ⟨hstate, hall⟩
    · rwa [children_settle ho]
    · rw [hstate] at ho
      exact absurd ho (settle_ne_running hall)

end Parallel

end Conduct
