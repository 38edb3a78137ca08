import Conduct.Proofs.Tidiness.Paused
import Mathlib.Data.List.Nodup

/-! What a tick leaves of a run of a parallel.

Main statement: `Parallel.tick_tidy`.
-/

set_option autoImplicit false

namespace Conduct

variable {H : Host} {γ : Type} {h : Handling H γ} {status : γ → Status} {Shape Good : γ → Prop}
  {r : Status}

/-! ## Parallels -/

namespace Parallel

variable {results : Results} {cs : List γ}

theorem get?_advance (budget : Option Nat) (results : Results) (cs : List γ) (stage : Stage H)
    {i : String} (hi : i ∉ cs.map h.id) :
    (advance h budget results cs stage).state.1.get? i = results.get? i := by
  induction cs generalizing budget results stage with
  | nil => rfl
  | cons c cs ih =>
    rw [List.map_cons, List.mem_cons, not_or] at hi
    simp only [advance]
    split
    · exact ih budget results stage hi.2
    · split
      · rfl
      · simp only [Turn.push, Turn.map]
        rw [ih _ _ _ hi.2, Dict.From.get?_insert_of_ne _ hi.1]

theorem advance_tidy (a : h.Tidy status Shape Good) (budget : Option Nat) (results : Results)
    (cs : List γ) (stage : Stage H) (hgood : ∀ c ∈ cs, Good c) (hnodup : (cs.map h.id).Nodup)
    (htracks : Tracks h.id status results cs)
    (ho : (advance h budget results cs stage).outcome = .ok ()) :
    (∀ c ∈ (advance h budget results cs stage).state.2, Good c) ∧
      Tracks h.id status (advance h budget results cs stage).state.1
        (advance h budget results cs stage).state.2 := by
  induction cs generalizing budget results stage with
  | nil => exact ⟨hgood, htracks⟩
  | cons c cs ih =>
    obtain ⟨hc, hcs⟩ := List.forall_mem_cons.1 hgood
    obtain ⟨htc, htcs⟩ := List.forall_mem_cons.1 htracks
    rw [List.map_cons, List.nodup_cons] at hnodup
    simp only [advance] at ho ⊢
    split at ho
    · next hskip =>
      rw [if_pos hskip]
      obtain ⟨hgood', htracks'⟩ := ih budget results stage hcs hnodup.2 htcs ho
      refine ⟨List.forall_mem_cons.2 ⟨hc, hgood'⟩, List.forall_mem_cons.2 ⟨fun hr => ?_, htracks'⟩⟩
      have hkeep := get?_advance (h := h) budget results cs stage hnodup.1
      exact hkeep.trans (htc hr)
    · next hskip =>
      rw [if_neg hskip]
      cases hout : (h.tick c stage).outcome with
      | error p =>
        simp only [hout] at ho
        cases ho
      | ok reported =>
        obtain ⟨hgoodc, hstatus, -⟩ := a.ticked c stage reported hc hout
        simp only [hout] at ho ⊢
        have htcs' : Tracks h.id status (results.insert (h.id c) reported) cs := by
          intro d hd hr
          have hne : h.id d ≠ h.id c := fun he => hnodup.1 (he ▸ List.mem_map_of_mem hd)
          rw [Dict.From.get?_insert_of_ne _ hne]
          exact htcs d hd hr
        obtain ⟨hgood', htracks'⟩ := ih _ _ _ hcs hnodup.2 htcs' ho
        refine ⟨List.forall_mem_cons.2 ⟨hgoodc, hgood'⟩,
          List.forall_mem_cons.2 ⟨fun hr => ?_, htracks'⟩⟩
        obtain rfl : reported = .running := hstatus.symm.trans hr
        have hkeep := get?_advance (h := h) (budget.map (· - 1))
          (results.insert (h.id c) .running) cs (h.tick c stage).stage hnodup.1
        rw [Dict.From.get?_insert_self] at hkeep
        rw [a.id]
        exact hkeep

theorem cancel_tidy (a : h.Tidy status Shape Good) (results : Results) (cs : List γ)
    (stage : Stage H) (hgood : ∀ c ∈ cs, Good c) (htracks : Tracks h.id status results cs) :
    (∀ c ∈ (cancel h results cs stage).1, Good c) ∧ Still status (cancel h results cs stage).1 := by
  induction cs generalizing stage with
  | nil => exact ⟨hgood, still_nil⟩
  | cons c cs ih =>
    obtain ⟨hc, hcs⟩ := List.forall_mem_cons.1 hgood
    obtain ⟨htc, htcs⟩ := List.forall_mem_cons.1 htracks
    simp only [cancel]
    split
    · obtain ⟨hgood', hstill⟩ := ih (stage.tell (h.notice c)) hcs htcs
      obtain ⟨hreset, hstatus⟩ := a.reset c (a.shape c hc)
      exact ⟨List.forall_mem_cons.2 ⟨hreset, hgood'⟩, still_cons.2 ⟨hstatus, hstill⟩⟩
    · next hne =>
      obtain ⟨hgood', hstill⟩ := ih stage hcs htcs
      refine ⟨List.forall_mem_cons.2 ⟨hc, hgood'⟩, still_cons.2 ⟨fun hr => hne ?_, hstill⟩⟩
      rw [htc hr]
      rfl

theorem count_le (results : Results) (cs : List γ) :
    count h results cs .success + count h results cs .failure + count h results cs .running ≤
      cs.length := by
  unfold count
  induction cs with
  | nil => simp
  | cons c cs ih =>
    simp only [List.countP_cons, List.length_cons]
    cases results.get? (h.id c) with
    | none =>
      simp
      omega
    | some reported =>
      cases reported <;> simp <;> omega

theorem decide_ne_running (s : Settings) (total success failure : Nat) :
    decide s total success failure ≠ some .running := by
  unfold decide
  dsimp only
  split
  all_goals repeat' split
  all_goals decide

theorem le_of_decide {s : Settings} {total success failure : Nat}
    (hs : s.earlyExit = false ∨ s.policy = .requireAll ∨ s.policy = .custom)
    (hd : decide s total success failure = some .success) : total ≤ success + failure := by
  unfold decide at hd
  cases hp : s.policy with
  | requireAll =>
    simp only [hp] at hd
    split at hd
    · cases hd
    · split at hd
      · omega
      · cases hd
  | requireOne =>
    have he : s.earlyExit = false := by simpa [hp] using hs
    simp only [hp, he, Bool.false_or, beq_iff_eq] at hd
    split at hd
    · omega
    · split at hd
      · cases hd
      · cases hd
  | requireMajority =>
    have he : s.earlyExit = false := by simpa [hp] using hs
    simp only [hp, he, Bool.false_or, beq_iff_eq] at hd
    split at hd
    · omega
    · split at hd
      · cases hd
      · cases hd
  | custom =>
    simp only [hp] at hd
    split at hd
    · cases hd
    · omega

theorem still_of_decide {s : Settings}
    (hs : s.earlyExit = false ∨ s.policy = .requireAll ∨ s.policy = .custom)
    (htracks : Tracks h.id status results cs)
    (hd : decide s cs.length (count h results cs .success) (count h results cs .failure) =
      some .success) : Still status cs := by
  intro c hc hr
  have hall := le_of_decide hs hd
  have hle := count_le (h := h) results cs
  have hpos : 0 < count h results cs .running :=
    List.countP_pos_iff.2 ⟨c, hc, by rw [htracks c hc hr]; rfl⟩
  omega

theorem finish_tidy (a : h.Tidy status Shape Good) {s : Settings} (hs : s.abortOnFailure = true)
    (stage : Stage H) (verdict : Status) (hgood : ∀ c ∈ cs, Good c)
    (htracks : Tracks h.id status results cs) (hv : verdict = .success → Still status cs) :
    (∀ c ∈ (finish h s results cs stage verdict).state.2, Good c) ∧
      (finish h s results cs stage verdict).outcome = .ok verdict ∧
      (finish h s results cs stage verdict).state.1 = .nil ∧
      Still status (finish h s results cs stage verdict).state.2 := by
  obtain ⟨hgood', hstill⟩ := cancel_tidy a results cs stage hgood htracks
  unfold finish
  by_cases hsuccess : verdict = .success
  · rw [if_neg fun hc => hc.1 hsuccess]
    exact ⟨hgood, rfl, rfl, hv hsuccess⟩
  · rw [if_pos ⟨hsuccess, hs⟩]
    exact ⟨hgood', rfl, rfl, hstill⟩

theorem tick_tidy (a : h.Tidy status Shape Good) {s : Settings} (hs : s.abortOnFailure = true ∧
      (s.earlyExit = false ∨ s.policy = .requireAll ∨ s.policy = .custom))
    (results : Results) (cs : List γ) (stage : Stage H) (hgood : ∀ c ∈ cs, Good c)
    (hnodup : (cs.map h.id).Nodup) (htracks : Tracks h.id status results cs)
    (ho : (tick h s results cs stage).outcome = .ok r) :
    (∀ c ∈ (tick h s results cs stage).state.2, Good c) ∧
      (r ≠ .running → (tick h s results cs stage).state.1 = .nil ∧
        Still status (tick h s results cs stage).state.2) ∧
      (r = .running → Tracks h.id status (tick h s results cs stage).state.1
        (tick h s results cs stage).state.2) := by
  simp only [tick] at ho ⊢
  cases hout : (advance h s.maxConcurrency results cs stage).outcome with
  | error p =>
    simp only [hout] at ho
    cases ho
  | ok u =>
    obtain ⟨hgood', htracks'⟩ :=
      advance_tidy a s.maxConcurrency results cs stage hgood hnodup htracks hout
    simp only [hout] at ho ⊢
    generalize (advance h s.maxConcurrency results cs stage).stage = stage' at ho ⊢
    generalize (advance h s.maxConcurrency results cs stage).state = state at ho hgood' htracks' ⊢
    obtain ⟨results', ds⟩ := state
    dsimp only at ho hgood' htracks' ⊢
    have hended : ∀ verdict, verdict ≠ .running → (verdict = .success → Still status ds) →
        (finish h s results' ds stage' verdict).outcome = .ok r →
        (∀ c ∈ (finish h s results' ds stage' verdict).state.2, Good c) ∧
          (r ≠ .running → (finish h s results' ds stage' verdict).state.1 = .nil ∧
            Still status (finish h s results' ds stage' verdict).state.2) ∧
          (r = .running → Tracks h.id status (finish h s results' ds stage' verdict).state.1
            (finish h s results' ds stage' verdict).state.2) := by
      intro verdict hne hv ho
      obtain ⟨hg, hr, hnil, hstill⟩ := finish_tidy a hs.1 stage' verdict hgood' htracks' hv
      rw [hr] at ho
      cases ho
      exact ⟨hg, fun _ => ⟨hnil, hstill⟩, fun he => absurd he hne⟩
    unfold settle at ho ⊢
    split at ho
    · next herror =>
      rw [if_pos herror]
      exact hended .error (by decide) (fun hr => absurd hr (by decide)) ho
    · next herror =>
      rw [if_neg herror]
      cases hd : decide s ds.length (count h results' ds .success) (count h results' ds .failure) with
      | none =>
        simp only [hd] at ho ⊢
        cases ho
        exact ⟨hgood', fun hr => absurd rfl hr, fun _ => htracks'⟩
      | some verdict =>
        simp only [hd] at ho ⊢
        refine hended verdict ?_ ?_ ho
        · rintro rfl
          exact decide_ne_running _ _ _ _ hd
        · rintro rfl
          exact still_of_decide hs.2 htracks' hd

end Parallel

end Conduct
