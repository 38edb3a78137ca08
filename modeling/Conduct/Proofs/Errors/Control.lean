import Conduct.Proofs.Calls

/-! What control nodes make of the errors of their children.

A control node that comes to something better than an error has seen no error and no panic in any
tick that it made of any child; only an inverter that is told to makes a success of an error. Main
statement: `Behavior.fine_calls`.
-/

set_option autoImplicit false

namespace Conduct

variable {H : Host} {γ : Type}

/-- The tick was completed, and no error came of it. -/
def Fine (outcome : Except Panic Status) : Prop := ∃ r, outcome = .ok r ∧ r ≠ .error

theorem not_fine_panic {p : Panic} : ¬ Fine (.error p) := by
  rintro ⟨r, hr, -⟩
  cases hr

theorem not_fine_error : ¬ Fine (.ok .error) := by
  rintro ⟨r, hr, hne⟩
  cases hr
  exact hne rfl

/-- Children stay good as long as nothing but fine ticks and resets happens to them. -/
structure Handling.Upholds (h : Handling H γ) (Good : γ → Prop) : Prop where
  id : ∀ c x, h.id (h.tick c x).state = h.id c
  tick : ∀ c x, Good c → Fine (h.tick c x).outcome → Good (h.tick c x).state
  reset : ∀ c, Good c → Good (h.reset c)

variable {h : Handling H γ} {Good : γ → Prop} {cs : List γ} {x : Stage H}

/-! ## What a fine tick says of the children -/

theorem Sequence.walk_upholds (a : h.Upholds Good) (s : Settings) (run : Run) (index : Nat)
    (hcs : ∀ c ∈ cs, Good c) (hf : Fine (walk h s run index cs x).outcome) :
    ∀ c ∈ (walk h s run index cs x).state.2, Good c := by
  induction cs generalizing run index x with
  | nil => exact hcs
  | cons c cs ih =>
    obtain ⟨hc, hcs⟩ := List.forall_mem_cons.1 hcs
    have hstop : ∀ r, (h.tick c x).outcome = .ok r → r ≠ .error →
        ∀ d ∈ (h.tick c x).state :: cs, Good d := by
      intro r ho hr
      exact List.forall_mem_cons.2 ⟨a.tick c x hc ⟨r, ho, hr⟩, hcs⟩
    simp only [walk] at hf ⊢
    split at hf
    · next hskip =>
      rw [if_pos hskip]
      exact List.forall_mem_cons.2 ⟨hc, ih run (index + 1) hcs hf⟩
    · next hskip =>
      rw [if_neg hskip]
      cases ho : (h.tick c x).outcome with
      | error p =>
        rw [ho] at hf
        exact absurd hf not_fine_panic
      | ok r =>
        rw [ho] at hf
        cases r with
        | ready | error => exact absurd hf not_fine_error
        | running => exact hstop .running ho (by decide)
        | success | failure =>
          have hgood := hstop _ ho (by decide)
          dsimp only at hf ⊢
          split at hf
          · next hs =>
            rw [if_pos hs]
            exact hgood
          · next hs =>
            rw [if_neg hs]
            exact List.forall_mem_cons.2 ⟨hgood _ List.mem_cons_self, ih _ _ hcs hf⟩

theorem Selector.walk_upholds (a : h.Upholds Good) (run : Run) (ids : List String)
    (hcs : ∀ c ∈ cs, Good c) (hf : Fine (walk h run ids cs x).outcome) :
    ∀ c ∈ (walk h run ids cs x).state.2, Good c := by
  induction ids generalizing run cs x with
  | nil => exact hcs
  | cons id ids ih =>
    simp only [walk] at hf ⊢
    cases hd : cs.dropWhile fun c => h.id c != id with
    | nil =>
      rw [hd] at hf
      exact ih run hcs hf
    | cons c after =>
      obtain ⟨hsplit, -⟩ := split_at hd
      rw [hd] at hf
      dsimp only at hf ⊢
      split at hf
      · next hskip =>
        rw [if_pos hskip]
        exact ih run hcs hf
      · next hskip =>
        rw [if_neg hskip]
        rw [hsplit] at hcs
        obtain ⟨hbefore, hcs⟩ := List.forall_mem_append.1 hcs
        obtain ⟨hc, hafter⟩ := List.forall_mem_cons.1 hcs
        have hticked : ∀ r, (h.tick c x).outcome = .ok r → r ≠ .error →
            ∀ d ∈ (cs.takeWhile fun c => h.id c != id) ++ (h.tick c x).state :: after, Good d := by
          intro r ho hr
          have hc := a.tick c x hc ⟨r, ho, hr⟩
          exact List.forall_mem_append.2 ⟨hbefore, List.forall_mem_cons.2 ⟨hc, hafter⟩⟩
        cases ho : (h.tick c x).outcome with
        | error p =>
          rw [ho] at hf
          exact absurd hf not_fine_panic
        | ok r =>
          rw [ho] at hf
          cases r with
          | ready | error => exact absurd hf not_fine_error
          | running | success => exact hticked _ ho (by decide)
          | failure => exact ih _ (hticked .failure ho (by decide)) hf

namespace Parallel

theorem get?_advance_error (budget : Option Nat) (results : Results) {id : String}
    (he : results.get? id = some .error) :
    (advance h budget results cs x).state.1.get? id = some .error := by
  induction cs generalizing budget results x with
  | nil => exact he
  | cons c cs ih =>
    simp only [advance]
    split
    · exact ih budget results he
    · next hskip =>
      -- The child with this id is finished, so it is another one that is ticked.
      have hne : id ≠ h.id c := by
        rintro rfl
        simp [finished, he, Status.isTerminal] at hskip
      split
      · exact he
      · exact ih _ _ (by rw [Dict.From.get?_insert_of_ne _ hne, he])

theorem advance_upholds (a : h.Upholds Good) (budget : Option Nat) (results : Results)
    (hcs : ∀ c ∈ cs, Good c) (ho : (advance h budget results cs x).outcome = .ok ()) :
    ∀ c ∈ (advance h budget results cs x).state.2,
      Good c ∨ (advance h budget results cs x).state.1.get? (h.id c) = some .error := by
  induction cs generalizing budget results x with
  | nil => exact fun c hc => absurd hc List.not_mem_nil
  | cons c cs ih =>
    obtain ⟨hc, hcs⟩ := List.forall_mem_cons.1 hcs
    simp only [advance] at ho ⊢
    split at ho
    · next hskip =>
      rw [if_pos hskip]
      exact List.forall_mem_cons.2 ⟨.inl hc, ih budget results hcs ho⟩
    · next hskip =>
      rw [if_neg hskip]
      cases hout : (h.tick c x).outcome with
      | error p =>
        rw [hout] at ho
        cases ho
      | ok r =>
        rw [hout] at ho
        refine List.forall_mem_cons.2 ⟨?_, ih _ _ hcs ho⟩
        by_cases hr : r = .error
        · subst hr
          right
          rw [a.id]
          exact get?_advance_error _ _ (Dict.From.get?_insert_self _ _ _)
        · exact .inl (a.tick c x hc ⟨r, hout, hr⟩)

theorem cancel_upholds (a : h.Upholds Good) (results : Results) (hcs : ∀ c ∈ cs, Good c) :
    ∀ c ∈ (cancel h results cs x).1, Good c := by
  induction cs generalizing x with
  | nil => exact hcs
  | cons c cs ih =>
    obtain ⟨hc, hcs⟩ := List.forall_mem_cons.1 hcs
    simp only [cancel]
    split
    · exact List.forall_mem_cons.2 ⟨a.reset c hc, ih hcs⟩
    · exact List.forall_mem_cons.2 ⟨hc, ih hcs⟩

theorem finish_upholds (a : h.Upholds Good) (s : Settings) (results : Results) (status : Status)
    (hcs : ∀ c ∈ cs, Good c) : ∀ c ∈ (finish h s results cs x status).state.2, Good c := by
  unfold finish
  split
  · exact cancel_upholds a results hcs
  · exact hcs

theorem tick_upholds (a : h.Upholds Good) (s : Settings) (results : Results)
    (hcs : ∀ c ∈ cs, Good c) (hf : Fine (tick h s results cs x).outcome) :
    ∀ c ∈ (tick h s results cs x).state.2, Good c := by
  simp only [tick] at hf ⊢
  cases ho : (advance h s.maxConcurrency results cs x).outcome with
  | error p =>
    rw [ho] at hf
    exact absurd hf not_fine_panic
  | ok u =>
    rw [ho] at hf
    have hadvance := advance_upholds a s.maxConcurrency results hcs ho
    generalize advance h s.maxConcurrency results cs x = turn at hf hadvance
    obtain ⟨o, ⟨results', cs'⟩, x'⟩ := turn
    dsimp only at hf hadvance ⊢
    unfold settle at hf ⊢
    split at hf
    · unfold finish at hf
      split at hf
      · exact absurd hf not_fine_error
      · exact absurd hf not_fine_error
    · next hnone =>
      have hgood : ∀ c ∈ cs', Good c := by
        intro c hc
        rcases hadvance c hc with hgood | herror
        · exact hgood
        · refine absurd (List.countP_pos_iff.2 ⟨c, hc, ?_⟩) hnone
          rw [herror]
          rfl
      rw [if_neg hnone]
      dsimp only
      split
      · exact finish_upholds a s results' _ hgood
      · exact hgood

end Parallel

theorem Repeater.loop_upholds (a : h.Upholds Good) (s : Settings) (left : Nat) (run : Run) {c : γ}
    (hc : Good c) (hf : Fine (loop h s left run c x).outcome) :
    Good (loop h s left run c x).state.2 := by
  induction left generalizing run c x with
  | zero => exact hc
  | succ left ih =>
    have hprepare : Good (prepare h s run c x).1 := by
      unfold prepare
      split
      · exact a.reset c hc
      · exact hc
    generalize hp : prepare h s run c x = p at hprepare
    obtain ⟨c', x'⟩ := p
    simp only [loop, hp] at hf ⊢
    split at hf
    · next hreached =>
      rw [if_pos hreached]
      exact hc
    · next hreached =>
      rw [if_neg hreached]
      cases ho : (h.tick c' x').outcome with
      | error p =>
        rw [ho] at hf
        exact absurd hf not_fine_panic
      | ok r =>
        rw [ho] at hf
        have hticked : r ≠ .error → Good (h.tick c' x').state :=
          fun hr => a.tick c' x' hprepare ⟨r, ho, hr⟩
        cases r with
        | ready | error => exact absurd hf not_fine_error
        | running => exact hticked (by decide)
        | success | failure =>
          have hgood := hticked (by decide)
          dsimp only at hf ⊢
          split at hf
          · next hbreaks =>
            rw [if_pos hbreaks]
            exact hgood
          · next hbreaks =>
            rw [if_neg hbreaks]
            exact ih _ hgood hf

theorem Repeater.tick_upholds (a : h.Upholds Good) (s : Settings) (run : Run)
    (hcs : ∀ c ∈ cs, Good c) (hf : Fine (tick h s run cs x).outcome) :
    ∀ c ∈ (tick h s run cs x).state.2, Good c := by
  cases cs with
  | nil => exact hcs
  | cons c cs =>
    obtain ⟨hc, hcs⟩ := List.forall_mem_cons.1 hcs
    exact List.forall_mem_cons.2 ⟨loop_upholds a s _ run hc hf, hcs⟩

theorem Inverter.tick_upholds (a : h.Upholds Good) (s : Settings) (hs : s.invertError = false)
    (hcs : ∀ c ∈ cs, Good c) (hf : Fine (tick h s cs x).outcome) :
    ∀ c ∈ (tick h s cs x).state, Good c := by
  cases cs with
  | nil => exact hcs
  | cons c cs =>
    obtain ⟨hc, hcs⟩ := List.forall_mem_cons.1 hcs
    have hfine : Fine (h.tick c x).outcome := by
      simp only [tick] at hf
      cases ho : (h.tick c x).outcome with
      | error p =>
        rw [ho] at hf
        exact absurd hf not_fine_panic
      | ok r =>
        refine ⟨r, rfl, ?_⟩
        rintro rfl
        simp only [ho, Except.map, turnRound, hs] at hf
        exact not_fine_error hf
    exact List.forall_mem_cons.2 ⟨a.tick c x hc hfine, hcs⟩

theorem Root.tick_upholds (a : h.Upholds Good) (s : Settings) (started : Option UInt64)
    (hcs : ∀ c ∈ cs, Good c) (hf : Fine (tick h s started cs x).outcome) :
    ∀ c ∈ (tick h s started cs x).state.2, Good c := by
  cases cs with
  | nil => exact hcs
  | cons c cs =>
    obtain ⟨hc, hcs⟩ := List.forall_mem_cons.1 hcs
    simp only [tick] at hf ⊢
    cases ho : (h.tick c (x.raise s.flags)).outcome with
    | error p =>
      rw [ho] at hf
      exact absurd hf not_fine_error
    | ok r =>
      rw [ho] at hf
      dsimp only at hf ⊢
      split at hf
      · exact absurd hf not_fine_error
      · next hlate =>
        rw [if_neg hlate]
        obtain ⟨r', hr, hne⟩ := hf
        cases hr
        exact List.forall_mem_cons.2 ⟨a.tick c _ hc ⟨r, ho, hne⟩, hcs⟩

/-- Usual behaviors, other than inverters that make a success of an error. -/
def Behavior.Candid : Behavior H → Prop
  | .inverter s => s.invertError = false
  | .extension _ _ => False
  | _ => True

theorem Behavior.candid_anew {b : Behavior H} : b.anew.Candid ↔ b.Candid := by cases b <;> rfl

theorem Behavior.tick_upholds (a : h.Upholds Good) {b : Behavior H} (hb : b.Candid)
    (hcs : ∀ c ∈ cs, Good c) (hf : Fine (b.tick h cs x).outcome) :
    ∀ c ∈ (b.tick h cs x).state.2, Good c := by
  cases b with
  | root s started => exact Root.tick_upholds a s started hcs hf
  | sequence s run => exact Sequence.walk_upholds a s run 0 hcs hf
  | selector s run g => exact Selector.walk_upholds a _ _ hcs hf
  | parallel s results => exact Parallel.tick_upholds a s results hcs hf
  | inverter s => exact Inverter.tick_upholds a s hb hcs hf
  | repeater s run => exact Repeater.tick_upholds a s run hcs hf
  | action s script run => exact hcs
  | condition s script path => exact hcs
  | extension e played => exact hb.elim

/-- If a tick is fine, all the ticks that it made of children were. -/
theorem Behavior.fine_calls (k : h.Keeps h.id) {b : Behavior H} (hb : b.Candid)
    (hf : Fine (b.tick h cs x).outcome) :
    ∀ w ∈ b.watch h cs x, ∀ e ∈ w.calls, Fine (h.tick e.1 e.2).outcome := by
  have hupholds : h.watched.Upholds fun w => ∀ e ∈ w.calls, Fine (h.tick e.1 e.2).outcome := by
    refine ⟨fun w y => k.tick w.now y, ?_, fun w hw => hw⟩
    intro w y hw hfine e he
    rcases List.mem_append.1 he with he | he
    · exact hw e he
    · rw [List.mem_singleton.1 he]
      exact hfine
  refine Behavior.tick_upholds hupholds hb ?_ ?_
  · intro w hw e he
    obtain ⟨c, -, rfl⟩ := List.mem_map.1 hw
    cases he
  · rwa [(tick_watched h b cs x).1]

end Conduct
