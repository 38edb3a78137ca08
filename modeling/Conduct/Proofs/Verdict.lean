import Conduct.Proofs.Survival
import Conduct.Proofs.Verdict.Tally

/-! The verdicts of a parallel over a run.

The children of a parallel may be other ones at every tick. What its results tell of the present ones
is what they reported in the run, so the verdict of a tick depends on the events of the run alone. It
is exact: it comes as soon as the rule gives it for every way in which the unfinished children may
end, or, where the settings wait, as soon as no child is unfinished. Main statement:
`Underway.exact`.
-/

set_option autoImplicit false

namespace Conduct.Parallel

variable {H : Host} {γ : Type} {h : Handling H γ} {s : Settings} {results : Results}
  {es news : List Event} {id : String} {status v : Status}

/-! ## One tick -/

/-- A tick of a child was cut off by a panic. -/
def Unwound (es : List Event) : Prop := ∃ id, Event.ticked id none ∈ es

theorem advance_recalls (h : Handling H γ) (budget : Option Nat) (results : Results) (cs : List γ)
    (x : Stage H.recorded) (hr : Recalls results x.events) :
    ∃ news, (advance h.recorded budget results cs x).stage.events = x.events ++ news ∧
      Recalls (advance h.recorded budget results cs x).state.1 (x.events ++ news) ∧
      ((∃ p, (advance h.recorded budget results cs x).outcome = .error p) ↔ Unwound news) := by
  have hquiet : ¬ Unwound [] := by
    rintro ⟨id, hid⟩
    cases hid
  induction cs generalizing budget results x with
  | nil =>
    refine ⟨[], (List.append_nil _).symm, by rwa [List.append_nil], ?_⟩
    simp [advance, hquiet]
  | cons c cs ih =>
    simp only [advance]
    by_cases hskip : (finished results (h.recorded.id c) || budget == some 0) = true
    · simp only [if_pos hskip]
      exact ih budget results x hr
    · simp only [if_neg hskip]
      have hf : finished results (h.id c) = false := by
        have hboth := (Bool.or_eq_false_iff.1 (Bool.not_eq_true _ ▸ hskip)).1
        exact hboth
      have he := h.events_recorded c x
      have ho := h.outcome_recorded c x
      cases hout : (h.tick c x.forget).outcome with
      | error p =>
        rw [hout] at he ho
        simp only [ho]
        refine ⟨[.ticked (h.id c) none], he, hr.unwound (h.id c), ?_⟩
        exact ⟨fun _ => ⟨h.id c, List.mem_singleton_self _⟩, fun _ => ⟨p, rfl⟩⟩
      | ok status =>
        rw [hout] at he ho
        simp only [ho]
        have hnext : Recalls (results.insert (h.id c) status) (h.recorded.tick c x).stage.events := by
          rw [he]
          exact hr.insert hf status
        obtain ⟨news, hrest, hrecalls, hpanic⟩ := ih (budget.map (· - 1)) _ _ hnext
        rw [he, List.append_assoc] at hrest hrecalls
        refine ⟨_, hrest, hrecalls, hpanic.trans ?_⟩
        simp [Unwound, Except.toOption]

theorem cancel_events (h : Handling H γ) (results : Results) (cs : List γ) (x : Stage H.recorded) :
    ∃ ids : List String,
      (cancel h.recorded results cs x).2.events = x.events ++ ids.map Event.reset := by
  induction cs generalizing x with
  | nil => exact ⟨[], (List.append_nil _).symm⟩
  | cons c cs ih =>
    simp only [cancel]
    split
    · obtain ⟨ids, he⟩ := ih (x.tell (h.recorded.notice c))
      refine ⟨h.id c :: ids, he.trans ?_⟩
      have hreset : (x.tell (h.recorded.notice c)).events = x.events ++ [.reset (h.id c)] := rfl
      rw [hreset, List.append_assoc]
      rfl
    · exact ih x

theorem settle_events (h : Handling H γ) (s : Settings) (results : Results) (cs : List γ)
    (x : Stage H.recorded) :
    ∃ ids : List String,
      (settle h.recorded s results cs x).stage.events = x.events ++ ids.map Event.reset := by
  have hfinish : ∀ status, ∃ ids : List String,
      (finish h.recorded s results cs x status).stage.events = x.events ++ ids.map Event.reset := by
    intro status
    unfold finish
    split
    · exact cancel_events h results cs x
    · exact ⟨[], (List.append_nil _).symm⟩
  unfold settle
  split
  · exact hfinish .error
  · dsimp only
    split
    · exact hfinish _
    · exact ⟨[], (List.append_nil _).symm⟩

theorem outcome_settle (h : Handling H γ) (s : Settings) (results : Results) (cs : List γ)
    (x : Stage H) :
    (settle h s results cs x).outcome =
      .ok (if 0 < count h results cs .error then .error
        else (decide s cs.length (count h results cs .success)
          (count h results cs .failure)).getD .running) := by
  have hfinish : ∀ status, (finish h s results cs x status).outcome = .ok status := by
    intro status
    unfold finish
    split
    · rfl
    · rfl
  unfold settle
  by_cases herror : 0 < count h results cs .error
  · rw [if_pos herror, if_pos herror, hfinish]
  · rw [if_neg herror, if_neg herror]
    cases hd : decide s cs.length (count h results cs .success) (count h results cs .failure) with
    | none => rfl
    | some status => exact hfinish status

/-- A verdict empties the results, and what is no verdict leaves them alone. -/
theorem results_settle (h : Handling H γ) (s : Settings) (results : Results) (cs : List γ)
    (x : Stage H) :
    (Concluded (settle h s results cs x).outcome → (settle h s results cs x).state.1 = .nil) ∧
      (¬ Concluded (settle h s results cs x).outcome →
        (settle h s results cs x).state.1 = results) := by
  have hfinish : ∀ status, (finish h s results cs x status).state.1 = .nil := by
    intro status
    unfold finish
    split
    · rfl
    · rfl
  have houtcome := outcome_settle h s results cs x
  unfold settle at houtcome ⊢
  by_cases herror : 0 < count h results cs .error
  · simp only [if_pos herror] at houtcome ⊢
    rw [houtcome]
    exact ⟨fun _ => hfinish _, fun hn => absurd ⟨.error, rfl, rfl⟩ hn⟩
  · simp only [if_neg herror] at houtcome ⊢
    rcases decide_cases s cs.length (count h results cs .success) (count h results cs .failure) with
      hd | hd | hd
    · simp only [hd]
      refine ⟨?_, fun _ => trivial⟩
      rintro ⟨verdict, hv, ht⟩
      cases hv
      cases ht
    · simp only [hd, Option.getD_some] at houtcome ⊢
      rw [houtcome]
      exact ⟨fun _ => hfinish _, fun hn => absurd ⟨.success, rfl, rfl⟩ hn⟩
    · simp only [hd, Option.getD_some] at houtcome ⊢
      rw [houtcome]
      exact ⟨fun _ => hfinish _, fun hn => absurd ⟨.failure, rfl, rfl⟩ hn⟩

/-- The events of a run after a tick. -/
def log (h : Handling H γ) (s : Settings) (results : Results) (cs : List γ) (stage : Stage H)
    (es : List Event) : List Event :=
  (tick h.recorded s results cs (stage.recorded es)).stage.events

/-- What a tick over the children with the given ids makes of a run with the given events. -/
structure Ticked (s : Settings) (ids : List String) (es news : List Event)
    (outcome : Except Panic Status) (results : Results) : Prop where
  unwound : (∃ p, outcome = .error p) ↔ Unwound news
  paused : ¬ Concluded outcome → Recalls results (es ++ news)
  concluded : Concluded outcome → results = .nil
  reported : ∀ status, outcome = .ok status → ∃ told, Recalls told (es ++ news) ∧
    status = if 0 < tally told ids .error then .error
      else (decide s ids.length (tally told ids .success) (tally told ids .failure)).getD .running

theorem tick_ticked (k : h.Keeps h.id) (s : Settings) (hr : Recalls results es) (cs : List γ)
    (stage : Stage H) :
    ∃ news, log h s results cs stage es = es ++ news ∧
      Ticked s (cs.map h.id) es news (tick h s results cs stage).outcome
        (tick h s results cs stage).state.1 := by
  obtain ⟨ho, hs, -⟩ := tick_recorded h s results cs stage es
  obtain ⟨news, he, hrecalls, hpanic⟩ :=
    advance_recalls h s.maxConcurrency results cs (stage.recorded es) hr
  have hids : (advance h.recorded s.maxConcurrency results cs (stage.recorded es)).state.2.map h.id =
      cs.map h.id := by
    have hk : h.recorded.Keeps h.id := ⟨fun c x => k.tick c x.forget, k.reset⟩
    exact map_advance hk s.maxConcurrency results cs (stage.recorded es)
  rw [← ho, ← hs]
  unfold log
  simp only [tick]
  simp only [Stage.events_recorded] at he hrecalls
  generalize advance h.recorded s.maxConcurrency results cs (stage.recorded es) = turn at *
  obtain ⟨outcome, ⟨told, ds⟩, x⟩ := turn
  simp only at he hrecalls hpanic hids ⊢
  cases outcome with
  | error p =>
    dsimp only
    have hunwound := hpanic.1 ⟨p, rfl⟩
    refine ⟨news, he, ⟨fun _ => hunwound, fun _ => ⟨p, rfl⟩⟩, fun _ => hrecalls, ?_, ?_⟩
    · rintro ⟨verdict, hv, -⟩
      cases hv
    · intro status hstatus
      cases hstatus
  | ok u =>
    obtain ⟨ids, hreset⟩ := settle_events h s told ds x
    have houtcome := outcome_settle h.recorded s told ds x
    obtain ⟨hconcluded, hpaused⟩ := results_settle h.recorded s told ds x
    have hcount : ∀ status, count h.recorded told ds status = tally told (cs.map h.id) status := by
      intro status
      rw [count_eq_tally, ← hids]
      rfl
    have hlength : ds.length = (cs.map h.id).length := by rw [← hids, List.length_map]
    refine ⟨news ++ ids.map .reset, by rw [hreset, he, List.append_assoc], ?_, ?_, hconcluded, ?_⟩
    · have hquiet : ¬ Unwound news := by
        rw [← hpanic]
        rintro ⟨p, hp⟩
        cases hp
      have hsame : Unwound (news ++ ids.map .reset) ↔ Unwound news := by simp [Unwound]
      rw [hsame, houtcome]
      refine ⟨?_, fun hu => absurd hu hquiet⟩
      rintro ⟨p, hp⟩
      cases hp
    · intro hn
      rw [hpaused hn, ← List.append_assoc]
      exact hrecalls.resets ids
    · intro status hstatus
      refine ⟨told, by rw [← List.append_assoc]; exact hrecalls.resets ids, ?_⟩
      rw [houtcome, hcount, hcount, hcount, hlength] at hstatus
      exact (Except.ok.inj hstatus).symm

/-! ## Runs over changing children -/

/-- A parallel whose run under way has the given events so far. Its children may be other ones at
every tick. -/
inductive Underway (h : Handling H γ) (s : Settings) : Results → List Event → Prop
  | fresh : Underway h s .nil []
  | paused {results : Results} {es : List Event} (d : Underway h s results es) (cs : List γ)
      (stage : Stage H) (hp : ¬ Concluded (tick h s results cs stage).outcome) :
      Underway h s (tick h s results cs stage).state.1 (log h s results cs stage es)
  /-- With a verdict the run is over, and the next one has no events yet. -/
  | concluded {results : Results} {es : List Event} (d : Underway h s results es) (cs : List γ)
      (stage : Stage H) (hc : Concluded (tick h s results cs stage).outcome) :
      Underway h s (tick h s results cs stage).state.1 []

theorem Underway.recalls (k : h.Keeps h.id) (d : Underway h s results es) : Recalls results es := by
  induction d with
  | fresh => exact recalls_nil
  | paused d cs stage hp ih =>
    obtain ⟨news, he, t⟩ := tick_ticked k s ih cs stage
    rw [he]
    exact t.paused hp
  | concluded d cs stage hc ih =>
    obtain ⟨news, -, t⟩ := tick_ticked k s ih cs stage
    rw [t.concluded hc]
    exact recalls_nil

/-- Unless a panic unwinds it, a tick of a parallel reports an error if a child reported one in the
run. If none did, it succeeds or fails exactly when the rule says so of every way in which the
children may end, where settings that wait ask that all have finished; else it is running. -/
theorem Underway.exact (k : h.Keeps h.id) (d : Underway h s results es) (cs : List γ)
    (stage : Stage H) :
    ∃ news, log h s results cs stage es = es ++ news ∧
      (Unwound news ∨ ∃ status, (tick h s results cs stage).outcome = .ok status ∧
        ((∃ c ∈ cs, Reported (es ++ news) (h.id c) .error) → status = .error) ∧
        ((∀ c ∈ cs, ¬ Reported (es ++ news) (h.id c) .error) →
          (status = .success ∨ status = .failure ∨ status = .running) ∧
          ∀ v, v = .success ∨ v = .failure →
            (status = v ↔ (s.Waits → ∀ c ∈ cs, Finished (es ++ news) (h.id c)) ∧
              ∀ vs, Ending (es ++ news) (cs.map h.id) vs →
                s.rule (vs.count .success) (vs.count .failure) = v))) := by
  obtain ⟨news, he, t⟩ := tick_ticked k s (d.recalls k) cs stage
  refine ⟨news, he, ?_⟩
  cases hout : (tick h s results cs stage).outcome with
  | error p => exact .inl (t.unwound.1 ⟨p, hout⟩)
  | ok status =>
    obtain ⟨told, hr, hstatus⟩ := t.reported status hout
    have herror : 0 < tally told (cs.map h.id) .error ↔
        ∃ c ∈ cs, Reported (es ++ news) (h.id c) .error := by
      unfold tally
      rw [List.countP_map, List.countP_pos_iff]
      simp only [Function.comp_apply, beq_iff_eq, hr _ .error rfl]
    refine .inr ⟨status, rfl, ?_, ?_⟩
    · intro hreported
      rw [hstatus, if_pos (herror.2 hreported)]
    · intro hnone
      have hn : ¬ 0 < tally told (cs.map h.id) .error := by
        rw [herror]
        rintro ⟨c, hc, hreported⟩
        exact hnone c hc hreported
      rw [if_neg hn] at hstatus
      have hle := tally_le told (cs.map h.id)
      constructor
      · rcases decide_cases s (cs.map h.id).length (tally told (cs.map h.id) .success)
          (tally told (cs.map h.id) .failure) with hd | hd | hd
        · exact .inr (.inr (by rw [hstatus, hd]; rfl))
        · exact .inl (by rw [hstatus, hd]; rfl)
        · exact .inr (.inl (by rw [hstatus, hd]; rfl))
      · intro v hv
        have hdecide := decide_eq_some_iff s hle hv
        rw [tally_eq_length_iff hr, certain_iff s hr] at hdecide
        have hsame : status = v ↔ decide s (cs.map h.id).length (tally told (cs.map h.id) .success)
            (tally told (cs.map h.id) .failure) = some v := by
          rw [hstatus]
          cases decide s (cs.map h.id).length (tally told (cs.map h.id) .success)
            (tally told (cs.map h.id) .failure) with
          | none => rcases hv with rfl | rfl <;> simp
          | some w => simp
        rw [hsame, hdecide]
        simp only [List.forall_mem_map]

/-! ## Trees -/

section Trees

variable {t t' child : Tree H}

/-- At the top of a tree is a parallel whose run under way has the given events. -/
def UnderwayAt (s : Settings) (t : Tree H) (es : List Event) : Prop :=
  ∃ results, t.value.behavior = .parallel s results ∧
    Underway (Tree.handling (Tree.tick (H := H))) s results es

theorem UnderwayAt.insertChild (d : UnderwayAt s t es) {index : Nat}
    (hi : t.insertChild index child = .ok t') : UnderwayAt s t' es := by
  obtain ⟨ds, rfl⟩ := Tree.insertChild_eq hi
  exact d

theorem UnderwayAt.removeChild? (d : UnderwayAt s t es)
    (hi : t.removeChild? id = some (child, t')) : UnderwayAt s t' es := by
  obtain ⟨ds, rfl⟩ := Tree.removeChild?_eq hi
  exact d

theorem UnderwayAt.tick (d : UnderwayAt s t es) (stage : Stage H) :
    ∃ es', UnderwayAt s (t.tick stage).state es' := by
  obtain ⟨results, hb, d⟩ := d
  have hnext : (t.tick stage).state.value.behavior =
      .parallel s (Parallel.tick (Tree.handling Tree.tick) s results t.children stage).state.1 := by
    rw [Tree.behavior_tick, hb]
    rfl
  by_cases hc : Concluded
      (Parallel.tick (Tree.handling Tree.tick) s results t.children stage).outcome
  · exact ⟨[], _, hnext, d.concluded t.children stage hc⟩
  · exact ⟨_, _, hnext, d.paused t.children stage hc⟩

end Trees

section Early

/-- A parallel that asks for a majority and ticks two children at a time. -/
def hasty : Settings := { policy := .requireMajority, maxConcurrency := some 2 }

/-- Children that always report the same, in a rehearsal. -/
abbrev cast : Handling Rehearsal.host (String × Status) := steady

/-- A majority is out of reach as soon as two of three children have failed, one of them before the
others came in, while the third is running. -/
theorem exact_hasty : ∃ results : Results,
    Underway cast hasty results [.ticked "a" (some .failure), .ticked "b" (some .running)] ∧
      (tick cast hasty results [("a", .failure), ("d", .failure), ("e", .running)]
        (Rehearsal.clock 0)).outcome = .ok .failure := by
  have hpaused : ¬ Concluded (tick cast hasty .nil [("a", .failure), ("b", .running),
      ("c", .success)] (Rehearsal.clock 0)).outcome := by
    rintro ⟨verdict, hv, ht⟩
    cases hv
    cases ht
  have hkeeps : cast.Keeps cast.id := ⟨fun _ _ => rfl, fun _ => rfl⟩
  have hfresh : Underway cast hasty .nil [] := .fresh
  have d : Underway cast hasty _ [.ticked "a" (some .failure), .ticked "b" (some .running)] :=
    hfresh.paused [("a", .failure), ("b", .running), ("c", .success)] (Rehearsal.clock 0) hpaused
  refine ⟨_, d, ?_⟩
  obtain ⟨news, he, hexact⟩ := d.exact hkeeps [("a", .failure), ("d", .failure), ("e", .running)]
    (Rehearsal.clock 0)
  have hnews : news = [.ticked "d" (some .failure), .ticked "e" (some .running)] := by
    have he : [Event.ticked "a" (some .failure), .ticked "b" (some .running)] ++
        [.ticked "d" (some .failure), .ticked "e" (some .running)] = _ ++ news := he
    exact (List.append_cancel_left he).symm
  subst hnews
  rcases hexact with ⟨id, hid⟩ | ⟨status, ho, -, hverdict⟩
  · simp at hid
  · obtain ⟨-, hall⟩ := hverdict (by simp [Reported])
    rw [ho, (hall .failure (.inr rfl)).2 ?_]
    refine ⟨?_, ?_⟩
    · rintro (hw | hw)
      · cases hw
      · cases hw
    · rintro vs (_ | @⟨_, va, _, _, ha, _ | @⟨_, vd, _, _, hd, _ | @⟨_, ve, _, _, he, _ | _⟩⟩⟩)
      have hva : va = .failure := by
        simpa [Reported, cast, steady] using ha.2 (.inr (by simp [Reported, cast, steady]))
      have hvd : vd = .failure := by
        simpa [Reported, cast, steady] using hd.2 (.inr (by simp [Reported, cast, steady]))
      subst hva hvd
      rcases he.1 with rfl | rfl
      · rfl
      · rfl

end Early

end Conduct.Parallel
