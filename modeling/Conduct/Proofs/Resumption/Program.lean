import Conduct.Proofs.Resumption.Runs

/-! What a control node still does in a run, as a program.

A program goes on from the report of one child to the next child. It is paused by a running child and
then remembers nothing but itself. Main statement: `Program.condenses`, a run of a program is one tick
of it on children whose runs are single ticks.
-/

set_option autoImplicit false

namespace Conduct

variable {H : Host} {γ : Type}

/-- What a control node still does with the children at their places. -/
inductive Program
  /-- Ends the run with a report. -/
  | stop (r : Status)
  | write (category message node : String) (rest : Program)
  /-- Resets the child at a place. -/
  | renew (place : Nat) (rest : Program)
  /-- Ticks the child at a place and goes on by what it reports. -/
  | child (place : Nat) (next : Status → Program)

namespace Program

/-- Goes on with a program until it stops or a child is running. -/
def tick (h : Handling H γ) : Program → List γ → Stage H → Turn H Status (Program × List γ)
  | stop r, cs, x => ⟨.ok r, (stop r, cs), x⟩
  | write category message node rest, cs, x => rest.tick h cs (x.write category message node)
  | renew place rest, cs, x =>
    match cs[place]? with
    | none => rest.tick h cs x
    | some c => rest.tick h (cs.set place (h.reset c)) (x.tell (h.notice c))
  | child place next, cs, x =>
    match cs[place]? with
    | none => ⟨.ok .error, (stop .error, cs), x⟩
    | some c =>
      let turn := h.tick c x
      let cs := cs.set place turn.state
      match turn.outcome with
      | .error p => ⟨.error p, (stop .error, cs), turn.stage⟩
      | .ok .running => ⟨.ok .running, (child place next, cs), turn.stage⟩
      | .ok r => (next r).tick h cs turn.stage

/-- A tick of a program with children, as one of a state. -/
def advance (h : Handling H γ) (m : Program × List γ) (x : Stage H) :
    Turn H Status (Program × List γ) := m.1.tick h m.2 x

variable {h : Handling H γ} {Calm : γ → Prop} {R : γ → γ → Prop} {place : Nat}
  {next : Status → Program} {cs ds : List γ} {c : γ} {x : Stage H} {r : Status}

theorem tick_waiting (hc : cs[place]? = some c) (ho : (h.tick c x).outcome = .ok .running) :
    (child place next).tick h cs x =
      ⟨.ok .running, (child place next, cs.set place (h.tick c x).state), (h.tick c x).stage⟩ := by
  simp only [tick, hc, ho]

theorem tick_going (hc : cs[place]? = some c) (ho : (h.tick c x).outcome = .ok r)
    (hr : r ≠ .running) : (child place next).tick h cs x =
      (next r).tick h (cs.set place (h.tick c x).state) (h.tick c x).stage := by
  cases r with
  | running => exact absurd rfl hr
  | ready => simp only [tick, hc, ho]
  | success => simp only [tick, hc, ho]
  | failure => simp only [tick, hc, ho]
  | error => simp only [tick, hc, ho]

theorem visits_tick (hg : ∀ c x, x.visits <:+ (h.tick c x).stage.visits) (p : Program)
    (cs : List γ) (x : Stage H) : x.visits <:+ (p.tick h cs x).stage.visits := by
  induction p generalizing cs x with
  | stop r => exact List.suffix_rfl
  | write category message node rest ih => exact ih cs (x.write category message node)
  | renew place rest ih =>
    simp only [tick]
    split
    · exact ih cs x
    · next c _ => exact ih (cs.set place (h.reset c)) (x.tell (h.notice c))
  | child place next ih =>
    simp only [tick]
    split
    · exact List.suffix_rfl
    · split
      · exact hg _ _
      · exact hg _ _
      · exact (hg _ _).trans (ih _ _ _)

theorem forall_set {P : γ → Prop} (place : Nat) (hcs : ∀ d ∈ cs, P d) (hc : P c) :
    ∀ d ∈ cs.set place c, P d := by
  intro d hd
  rcases List.mem_or_eq_of_mem_set hd with hd | rfl
  · exact hcs d hd
  · exact hc

theorem calm_tick (a : h.Settles Calm) (p : Program) (cs : List γ) (x : Stage H)
    (hcs : ∀ c ∈ cs, Calm c) :
    (∀ c ∈ (p.tick h cs x).state.2, Calm c) ∧ ∃ r, (p.tick h cs x).outcome = .ok r := by
  induction p generalizing cs x with
  | stop r => exact ⟨hcs, r, rfl⟩
  | write category message node rest ih => exact ih cs _ hcs
  | renew place rest ih =>
    simp only [tick]
    split
    · exact ih cs x hcs
    · next c hc => exact ih _ _ (forall_set _ hcs (a.rested (hcs c (List.mem_of_getElem? hc))))
  | child place next ih =>
    cases hc : cs[place]? with
    | none =>
      simp only [tick, hc]
      exact ⟨hcs, _, rfl⟩
    | some c =>
      obtain ⟨hcalm, r, ho, -⟩ := a.ticked (hcs c (List.mem_of_getElem? hc)) x
      have hset := forall_set place hcs hcalm
      by_cases hr : r = .running
      · subst hr
        rw [tick_waiting hc ho]
        exact ⟨hset, _, rfl⟩
      · rw [tick_going hc ho hr]
        exact ih r _ _ hset

/-! ## A run of a program in one tick -/

theorem forall₂_set {d : γ} (place : Nat) (hcs : List.Forall₂ R cs ds) (hcd : R c d) :
    List.Forall₂ R (cs.set place c) (ds.set place d) := by
  induction hcs generalizing place with
  | nil => exact .nil
  | cons hc hrest ih =>
    cases place with
    | zero => exact .cons hcd hrest
    | succ place => exact .cons hc (ih place)

theorem forall_of_forall₂ {P Q : γ → Prop}
    (h : List.Forall₂ (fun c d => P c ∧ Q d) cs ds) : (∀ c ∈ cs, P c) ∧ ∀ d ∈ ds, Q d := by
  induction h with
  | nil => exact ⟨List.forall_mem_nil _, List.forall_mem_nil _⟩
  | cons hc _ ih =>
    exact ⟨List.forall_mem_cons.2 ⟨hc.1, ih.1⟩, List.forall_mem_cons.2 ⟨hc.2, ih.2⟩⟩

theorem calm_of_forall₂ (a : h.Condenses Calm R) (hcs : List.Forall₂ R cs ds) :
    (∀ c ∈ cs, Calm c) ∧ ∀ d ∈ ds, Calm d :=
  forall_of_forall₂ (hcs.imp fun _ _ => a.calm)

variable {es : List (String × Status)} {m' : Program × List γ}

/-- A run of a program begins with a run of its next child. -/
theorem runs_child (a : h.Settles Calm) (hcs : ∀ c ∈ cs, Calm c) (hc : cs[place]? = some c)
    (hrun : Runs (advance h) (child place next, cs) r es m') :
    ∃ r₀ es₀ c₀ x es₁, Runs h.tick c r₀ es₀ c₀ ∧ es = es₁ ++ es₀ ∧
      Finishes (advance h) x ((next r₀).tick h (cs.set place c₀) x) r es₁ m' := by
  generalize hm : (child place next, cs) = m at hrun
  -- The child ends its run in this tick, and the program goes on.
  have hgo : ∀ {c : γ} {cs : List γ} {x : Stage H} {r₀ : Status} {es : List (String × Status)},
      cs[place]? = some c → (h.tick c x).outcome = .ok r₀ → r₀ ≠ .running →
      Finishes (advance h) x ((child place next).tick h cs x) r es m' →
      ∃ r₀ es₀ c₀ x es₁, Runs h.tick c r₀ es₀ c₀ ∧ es = es₁ ++ es₀ ∧
        Finishes (advance h) x ((next r₀).tick h (cs.set place c₀) x) r es₁ m' := by
    intro c cs x r₀ es hc ho hr₀ hf
    obtain ⟨es₀, he₀⟩ := Stage.adds_of_suffix (a.grows c x)
    rw [tick_going hc ho hr₀] at hf
    obtain ⟨es₁, hes, hf⟩ := hf.shift he₀ (visits_tick a.grows _ _ _)
    exact ⟨r₀, es₀, _, _, es₁, .ends ho hr₀ he₀, hes, hf⟩
  induction hrun generalizing c cs with
  | @ends m x r es ho hr he =>
    subst hm
    obtain ⟨-, r₀, ho₀, -⟩ := a.ticked (hcs c (List.mem_of_getElem? hc)) x
    by_cases hr₀ : r₀ = .running
    · subst hr₀
      rw [advance, tick_waiting hc ho₀] at ho
      exact absurd (Except.ok.inj ho).symm hr
    · exact hgo hc ho₀ hr₀ (.inl ⟨ho, hr, he, rfl⟩)
  | @waits m m' x r es ds ho he rest ih =>
    subst hm
    obtain ⟨hcalm, r₀, ho₀, -⟩ := a.ticked (hcs c (List.mem_of_getElem? hc)) x
    by_cases hr₀ : r₀ = .running
    · subst hr₀
      have htick : advance h (child place next, cs) x = _ := tick_waiting hc ho₀
      rw [htick] at he ih
      have hlt : place < cs.length := (List.getElem?_eq_some_iff.1 hc).1
      obtain ⟨r₀, es₀, c₀, x₁, es₁, hrun, hes, hf⟩ := ih (forall_set place hcs hcalm)
        (List.getElem?_set_self hlt) rfl hgo
      rw [List.set_set] at hf
      exact ⟨r₀, es₀ ++ es, c₀, x₁, es₁, .waits ho₀ he hrun, by rw [hes, List.append_assoc], hf⟩
    · exact hgo hc ho₀ hr₀ (.inr ⟨ho, es, ds, he, rfl, rest⟩)

theorem runs_stop {r' : Status} (hrun : Runs (advance h) (stop r', cs) r es m') : r' = r := by
  generalize hm : (stop r', cs) = m at hrun
  induction hrun with
  | ends ho hr he =>
    subst hm
    exact Except.ok.inj ho
  | waits ho he rest ih =>
    subst hm
    exact ih rfl

/-- What a program does in a run it does in one tick on children whose runs are single ticks. -/
theorem condenses (a : h.Condenses Calm R) (p : Program) (hcs : List.Forall₂ R cs ds)
    (hf : Finishes (advance h) x (p.tick h cs x) r es m') (y : Stage H) :
    (p.tick h ds y).Answers y r es fun q => List.Forall₂ R m'.2 q.2 := by
  induction p generalizing cs ds x es y with
  | stop r' =>
    rcases hf with ⟨ho, hr, he, rfl⟩ | ⟨ho, es₀, ds', he, hes, rest⟩
    · cases ho
      cases he.unique (Stage.adds_refl x)
      exact ⟨rfl, Stage.adds_refl y, hcs⟩
    · cases runs_stop rest
      exact absurd (Except.ok.inj ho) rest.ne_running
  | write category message node rest ih =>
    obtain ⟨ho, he, hs⟩ := ih (x := x.write category message node) hcs hf
      (y.write category message node)
    exact ⟨ho, he, hs⟩
  | renew place rest ih =>
    cases hc : cs[place]? with
    | none =>
      have hd : ds[place]? = none := by
        rw [List.getElem?_eq_none_iff, ← hcs.length_eq]
        exact List.getElem?_eq_none_iff.1 hc
      simp only [tick, hc] at hf
      simp only [tick, hd]
      exact ih hcs hf y
    | some c =>
      obtain ⟨d, hd, hcd⟩ := forall₂_getElem? hcs hc
      simp only [tick, hc] at hf
      simp only [tick, hd]
      obtain ⟨ho, he, hs⟩ := ih (x := x.tell (h.notice c))
        (forall₂_set place hcs (a.reset hcd)) hf (y.tell (h.notice d))
      exact ⟨ho, he, hs⟩
  | child place next ih =>
    cases hc : cs[place]? with
    | none =>
      have hd : ds[place]? = none := by
        rw [List.getElem?_eq_none_iff, ← hcs.length_eq]
        exact List.getElem?_eq_none_iff.1 hc
      simp only [tick, hc] at hf
      have hreport : Except.ok (ε := Panic) Status.error ≠ .ok .running := by decide
      obtain ⟨ho, hr, he, rfl⟩ := hf.ne_running hreport
      cases ho
      cases he.unique (Stage.adds_refl x)
      simp only [tick, hd]
      exact ⟨rfl, Stage.adds_refl y, hcs⟩
    | some c =>
      obtain ⟨d, hd, hcd⟩ := forall₂_getElem? hcs hc
      obtain ⟨r₀, es₀, c₀, x₁, es₁, hrun, rfl, hrest⟩ :=
        runs_child a.toSettles (calm_of_forall₂ a hcs).1 hc (Finishes.runs hf)
      obtain ⟨ho, he, hst⟩ := a.run hcd hrun y
      rw [tick_going hd ho hrun.ne_running]
      obtain ⟨ho', he', hst'⟩ := ih r₀ (forall₂_set place hcs hst) hrest (h.tick d y).stage
      exact ⟨ho', he.trans he', hst'⟩

end Program

end Conduct
