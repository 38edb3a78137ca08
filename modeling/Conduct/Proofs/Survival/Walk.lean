import Conduct.Proofs.Frame
import Conduct.Proofs.Recording
import Mathlib.Data.List.TakeWhile

/-! What a walk over children makes of a run.

What a run remembers of children by their ids is what the events of its ticks tell. Main statements:
`Sequence.walk_walked` and `Selector.walk_walked`.
-/

set_option autoImplicit false

namespace Conduct

variable {H : Host} {γ : Type}

/-! ## Events of a run -/

/-- The ids of the children that were ticked, in order. -/
def tickedIds (es : List Event) : List String :=
  es.filterMap fun
    | .ticked id _ => some id
    | .reset _ => none

/-- A child reported a status. -/
def Reported (es : List Event) (id : String) (status : Status) : Prop :=
  Event.ticked id (some status) ∈ es

/-- A child finished: it succeeded or failed. -/
def Finished (es : List Event) (id : String) : Prop :=
  Reported es id .success ∨ Reported es id .failure

/-- No child is ticked twice among the new events, and none that finished before. -/
structure Fair (es news : List Event) : Prop where
  once : (tickedIds news).Nodup
  unfinished : ∀ id ∈ tickedIds news, ¬ Finished es id

variable {es news : List Event} {id : String} {status : Status}

theorem Reported.append (h : Reported es id status) : Reported (es ++ news) id status :=
  List.mem_append_left _ h

theorem Finished.append (h : Finished es id) : Finished (es ++ news) id :=
  h.imp Reported.append Reported.append

theorem reported_concat {id' : String} {report : Option Status} :
    Reported (es ++ [.ticked id' report]) id status ↔
      Reported es id status ∨ id = id' ∧ some status = report := by
  simp only [Reported, List.mem_append, List.mem_singleton, Event.ticked.injEq]

theorem Fair.nil : Fair es [] := ⟨List.nodup_nil, fun _ h => absurd h List.not_mem_nil⟩

theorem Fair.single {report : Option Status} (h : ¬ Finished es id) :
    Fair es [.ticked id report] where
  once := List.nodup_cons.2 ⟨List.not_mem_nil, List.nodup_nil⟩
  unfinished := by
    intro id' hid'
    rw [show tickedIds [.ticked id report] = [id] from rfl, List.mem_singleton] at hid'
    exact hid' ▸ h

theorem Fair.cons {report : Option Status} (h : ¬ Finished es id)
    (hf : Finished (es ++ [.ticked id report]) id) (hn : Fair (es ++ [.ticked id report]) news) :
    Fair es (.ticked id report :: news) where
  once := by
    rw [show tickedIds (.ticked id report :: news) = id :: tickedIds news from rfl]
    exact List.nodup_cons.2 ⟨fun hid => hn.unfinished id hid hf, hn.once⟩
  unfinished := by
    intro id' hid'
    rw [show tickedIds (.ticked id report :: news) = id :: tickedIds news from rfl,
      List.mem_cons] at hid'
    rcases hid' with rfl | hid'
    · exact h
    · exact fun hf' => hn.unfinished id' hid' hf'.append

/-- A tick comes to a verdict, so a run is over. -/
def Concluded (outcome : Except Panic Status) : Prop :=
  ∃ verdict, outcome = .ok verdict ∧ verdict.isTerminal = true

theorem not_concluded_error (p : Panic) : ¬ Concluded (.error p) := by
  rintro ⟨_, h, -⟩
  cases h

theorem not_concluded_running : ¬ Concluded (.ok .running) := by
  rintro ⟨_, h, ht⟩
  cases h
  cases ht

/-! ## Sequences -/

namespace Sequence

/-- A run remembers what its events tell. -/
structure Run.Recalls (run : Run) (es : List Event) : Prop where
  completed : ∀ id, id ∈ run.completed ↔ Finished es id
  failed : run.failed = true ↔ ∃ id, Reported es id .failure

theorem Run.recalls_nil : ({} : Run).Recalls [] where
  completed id := by simp [Finished, Reported]
  failed := by simp [Reported]

theorem Run.Recalls.success {run : Run} (h : run.Recalls es) (id : String) :
    (run.complete id).Recalls (es ++ [.ticked id (some .success)]) where
  completed id' := by
    have := h.completed id'
    simp only [complete, Finished, List.mem_cons, reported_concat] at this ⊢
    rw [this]
    simp
    tauto
  failed := by
    have := h.failed
    simp only [complete, reported_concat] at this ⊢
    rw [this]
    simp

theorem Run.Recalls.failure {run : Run} (h : run.Recalls es) (id : String) :
    Run.Recalls { run.complete id with failed := true } (es ++ [.ticked id (some .failure)]) where
  completed id' := by
    have := h.completed id'
    simp only [complete, Finished, List.mem_cons, reported_concat] at this ⊢
    rw [this]
    simp
    tauto
  failed := by
    simp only [reported_concat]
    exact ⟨fun _ => ⟨id, .inr ⟨rfl, trivial⟩⟩, fun _ => trivial⟩

theorem Run.Recalls.other {run : Run} (h : run.Recalls es) (id : String) {report : Option Status}
    (hs : report ≠ some .success) (hf : report ≠ some .failure) (cursor : Nat) :
    Run.Recalls { run with cursor := cursor } (es ++ [.ticked id report]) where
  completed id' := by
    simp only [h.completed id', Finished, reported_concat, hs.symm, hf.symm, and_false, or_false]
  failed := by
    simp only [h.failed, reported_concat, hf.symm, and_false, or_false]

/-- What a walk over the children with the given ids makes of a run that has the given events. -/
structure Walked (s : Settings) (ids : List String) (es news : List Event)
    (outcome : Except Panic Status) (run : Run) : Prop where
  fair : Fair es news
  paused : ¬ Concluded outcome → run.Recalls (es ++ news)
  concluded : Concluded outcome → run = {}
  exhausted : Concluded outcome → (∀ id status, Reported news id status → s.stops status = false) →
    (∀ id ∈ ids, Finished (es ++ news) id) ∧ ∃ verdict, outcome = .ok verdict ∧
      (verdict = .success ∨ verdict = .failure) ∧
      (verdict = .failure ↔ ∃ id, Reported (es ++ news) id .failure)

variable {s : Settings} {ids : List String} {outcome : Except Panic Status} {run : Run}

theorem Walked.nil (h : run.Recalls es) :
    Walked s [] es [] (.ok (if run.failed then .failure else .success)) {} where
  fair := .nil
  paused hn := by
    refine absurd ?_ hn
    cases run.failed with
    | true => exact ⟨.failure, rfl, rfl⟩
    | false => exact ⟨.success, rfl, rfl⟩
  concluded _ := rfl
  exhausted _ _ := by
    refine ⟨fun _ hid => absurd hid List.not_mem_nil, _, rfl, ?_, ?_⟩
    · cases run.failed with
      | true => exact .inr rfl
      | false => exact .inl rfl
    · rw [List.append_nil, ← h.failed]
      cases run.failed with
      | true => simp
      | false => simp

theorem Walked.skip (h : Finished es id) (w : Walked s ids es news outcome run) :
    Walked s (id :: ids) es news outcome run where
  fair := w.fair
  paused := w.paused
  concluded := w.concluded
  exhausted hc hn := by
    obtain ⟨hall, hverdict⟩ := w.exhausted hc hn
    exact ⟨List.forall_mem_cons.2 ⟨h.append, hall⟩, hverdict⟩

theorem Walked.cons {report : Option Status} (h : ¬ Finished es id)
    (hf : Finished (es ++ [.ticked id report]) id)
    (w : Walked s ids (es ++ [.ticked id report]) news outcome run) :
    Walked s (id :: ids) es (.ticked id report :: news) outcome run where
  fair := .cons h hf w.fair
  paused hc := by
    have := w.paused hc
    rwa [List.append_assoc, List.singleton_append] at this
  concluded := w.concluded
  exhausted hc hn := by
    have := w.exhausted hc fun id status hr => hn id status (List.mem_cons_of_mem _ hr)
    rw [List.append_assoc, List.singleton_append] at this
    refine ⟨List.forall_mem_cons.2 ⟨?_, this.1⟩, this.2⟩
    rw [← List.singleton_append, ← List.append_assoc]
    exact hf.append

theorem Walked.halted {report : Option Status} (h : ¬ Finished es id) (hc : ¬ Concluded outcome)
    (hr : run.Recalls (es ++ [.ticked id report])) :
    Walked s ids es [.ticked id report] outcome run where
  fair := .single h
  paused _ := hr
  concluded hc' := absurd hc' hc
  exhausted hc' := absurd hc' hc

theorem Walked.stopped (h : ¬ Finished es id) (hs : s.stops status = true)
    (hc : Concluded outcome) : Walked s ids es [.ticked id (some status)] outcome {} where
  fair := .single h
  paused hn := absurd hc hn
  concluded _ := rfl
  exhausted _ hn := by
    have := hn id status (List.mem_singleton_self _)
    rw [hs] at this
    cases this

theorem walk_walked (h : Handling H γ) (s : Settings) (run : Run) (index : Nat) (cs : List γ)
    (x : Stage H.recorded) (hr : run.Recalls x.events) :
    ∃ news, (walk h.recorded s run index cs x).stage.events = x.events ++ news ∧
      Walked s (cs.map h.id) x.events news (walk h.recorded s run index cs x).outcome
        (walk h.recorded s run index cs x).state.1 := by
  induction cs generalizing run index x with
  | nil => exact ⟨[], (List.append_nil _).symm, .nil hr⟩
  | cons c cs ih =>
    rw [List.map_cons]
    by_cases hskip : run.completed.contains (h.recorded.id c) = true
    · obtain ⟨news, he, w⟩ := ih run (index + 1) x hr
      have hfinished : Finished x.events (h.id c) :=
        (hr.completed _).1 (List.contains_iff_mem.1 hskip)
      simp only [walk]
      rw [if_pos hskip]
      exact ⟨news, he, .skip hfinished w⟩
    · have hnew : ¬ Finished x.events (h.id c) := fun hf =>
        hskip (List.contains_iff_mem.2 ((hr.completed _).2 hf))
      have he := h.events_recorded c x
      simp only [walk, Handling.outcome_recorded]
      rw [if_neg hskip]
      cases ho : (h.tick c x.forget).outcome with
      | error p =>
        rw [ho] at he
        have hrun : run.Recalls (x.events ++ [.ticked (h.id c) none]) :=
          hr.other (h.id c) (by simp) (by simp) run.cursor
        exact ⟨_, he, .halted hnew (not_concluded_error p) hrun⟩
      | ok status =>
        rw [ho] at he
        cases status with
        | running =>
          exact ⟨_, he, .halted hnew not_concluded_running
            (hr.other (h.id c) (by simp [Except.toOption]) (by simp [Except.toOption]) index)⟩
        | error => exact ⟨_, he, .stopped hnew rfl ⟨.error, rfl, rfl⟩⟩
        | ready => exact ⟨_, he, .stopped hnew rfl ⟨.error, rfl, rfl⟩⟩
        | success =>
          by_cases hstop : s.stopOnFirstSuccess = true
          · simp only [if_pos hstop]
            exact ⟨_, he, .stopped hnew hstop ⟨.success, rfl, rfl⟩⟩
          · simp only [if_neg hstop]
            obtain ⟨news, hrest, w⟩ := ih (run.complete (h.id c)) (index + 1)
              (h.recorded.tick c x).stage (he ▸ hr.success (h.id c))
            rw [he] at w hrest
            refine ⟨_ :: news, ?_, .cons hnew (.inl (reported_concat.2 (.inr ⟨rfl, rfl⟩))) w⟩
            rw [List.append_assoc] at hrest
            exact hrest
        | failure =>
          by_cases hstop : s.abortOnFailure = true
          · simp only [if_pos hstop]
            exact ⟨_, he, .stopped hnew hstop ⟨.failure, rfl, rfl⟩⟩
          · simp only [if_neg hstop]
            have hw : ((h.recorded.tick c x).stage.write "sequence" "child failed, continuing"
                (h.id c)).events = x.events ++ [.ticked (h.id c) (some .failure)] := he
            obtain ⟨news, hrest, w⟩ := ih { run.complete (h.id c) with failed := true } (index + 1)
              _ (hw ▸ hr.failure (h.id c))
            rw [hw] at w hrest
            refine ⟨_ :: news, ?_, .cons hnew (.inr (reported_concat.2 (.inr ⟨rfl, rfl⟩))) w⟩
            rw [List.append_assoc] at hrest
            exact hrest

end Sequence

/-! ## Selectors -/

namespace Selector

/-- A run remembers what its events tell. -/
structure Run.Recalls (run : Run) (es : List Event) : Prop where
  completed : ∀ id, id ∈ run.completed ↔ Reported es id .failure
  unsuccessful : ∀ id, ¬ Reported es id .success

theorem Run.Recalls.finished_iff {run : Run} (h : run.Recalls es) :
    Finished es id ↔ id ∈ run.completed := by
  rw [h.completed, Finished]
  exact or_iff_right (h.unsuccessful id)

theorem Run.recalls_nil : ({} : Run).Recalls [] where
  completed id := by simp [Reported]
  unsuccessful id := by simp [Reported]

theorem Run.Recalls.failure {run : Run} (h : run.Recalls es) (id : String) :
    (run.complete id).Recalls (es ++ [.ticked id (some .failure)]) where
  completed id' := by
    have := h.completed id'
    simp only [complete, List.mem_cons, reported_concat] at this ⊢
    rw [this]
    simp
    tauto
  unsuccessful id' := by
    have := h.unsuccessful id'
    simp only [reported_concat]
    simpa using this

theorem Run.Recalls.other {run : Run} (h : run.Recalls es) (id : String) {report : Option Status}
    (hs : report ≠ some .success) (hf : report ≠ some .failure) (cursor : Nat) :
    Run.Recalls { run with cursor := cursor } (es ++ [.ticked id report]) where
  completed id' := by
    simp only [h.completed id', reported_concat, hf.symm, and_false, or_false]
  unsuccessful id' := by
    simp only [h.unsuccessful id', reported_concat, hs.symm, and_false, or_false, not_false_eq_true]

theorem Run.Recalls.prepare {run : Run} (h : run.Recalls es) (s : Settings) (ids : List String)
    (g : Random.Generator) : (prepare s run ids g).1.Recalls es :=
  ⟨h.completed, h.unsuccessful⟩

/-- What a walk over children with the given ids, of which some are present, makes of a run that has
the given events. -/
structure Walked (ids present : List String) (es news : List Event) (outcome : Except Panic Status)
    (run : Run) : Prop where
  fair : Fair es news
  paused : ¬ Concluded outcome → run.Recalls (es ++ news)
  concluded : Concluded outcome → run = {}
  failed : outcome = .ok .failure → ∀ id ∈ ids, id ∈ present → Reported (es ++ news) id .failure

variable {ids present : List String} {outcome : Except Panic Status} {run : Run}

theorem Walked.nil : Walked [] present es [] (.ok .failure) {} where
  fair := .nil
  paused hn := absurd ⟨.failure, rfl, rfl⟩ hn
  concluded _ := rfl
  failed _ := fun _ hid => absurd hid List.not_mem_nil

theorem Walked.skip (h : id ∈ present → Reported es id .failure)
    (w : Walked ids present es news outcome run) :
    Walked (id :: ids) present es news outcome run where
  fair := w.fair
  paused := w.paused
  concluded := w.concluded
  failed ho := List.forall_mem_cons.2 ⟨fun hid => (h hid).append, w.failed ho⟩

theorem Walked.cons (h : ¬ Finished es id)
    (w : Walked ids present (es ++ [.ticked id (some .failure)]) news outcome run) :
    Walked (id :: ids) present es (.ticked id (some .failure) :: news) outcome run where
  fair := .cons h (.inr (reported_concat.2 (.inr ⟨rfl, rfl⟩))) w.fair
  paused hc := by
    have := w.paused hc
    rwa [List.append_assoc, List.singleton_append] at this
  concluded := w.concluded
  failed ho := by
    have := w.failed ho
    rw [List.append_assoc, List.singleton_append] at this
    refine List.forall_mem_cons.2 ⟨fun _ => ?_, this⟩
    exact List.mem_append_right _ List.mem_cons_self

theorem Walked.halted {report : Option Status} (h : ¬ Finished es id) (hc : ¬ Concluded outcome)
    (hr : run.Recalls (es ++ [.ticked id report])) :
    Walked ids present es [.ticked id report] outcome run where
  fair := .single h
  paused _ := hr
  concluded hc' := absurd hc' hc
  failed ho := absurd ⟨.failure, ho, rfl⟩ hc

theorem Walked.stopped {report : Option Status} {verdict : Status} (h : ¬ Finished es id)
    (hv : verdict.isTerminal = true) (hf : verdict ≠ .failure) :
    Walked ids present es [.ticked id report] (.ok verdict) {} where
  fair := .single h
  paused hn := absurd ⟨verdict, rfl, hv⟩ hn
  concluded _ := rfl
  failed ho := by
    cases ho
    exact absurd rfl hf

theorem not_mem_ids {h : Handling H γ} {cs : List γ}
    (hd : (cs.dropWhile fun c => h.id c != id) = []) : id ∉ cs.map h.id := by
  intro hmem
  obtain ⟨c, hc, he⟩ := List.mem_map.1 hmem
  exact bne_iff_ne.1 (List.dropWhile_eq_nil_iff.1 hd c hc) he

theorem walk_walked (h : Handling H γ) (hid : ∀ c x, h.id (h.tick c x).state = h.id c) (run : Run)
    (ids : List String) (cs : List γ) (x : Stage H.recorded) (hr : run.Recalls x.events) :
    ∃ news, (walk h.recorded run ids cs x).stage.events = x.events ++ news ∧
      Walked ids (cs.map h.id) x.events news (walk h.recorded run ids cs x).outcome
        (walk h.recorded run ids cs x).state.1 := by
  induction ids generalizing run cs x with
  | nil => exact ⟨[], (List.append_nil _).symm, .nil⟩
  | cons id ids ih =>
    simp only [walk]
    generalize hd : (cs.dropWhile fun c => h.recorded.id c != id) = rest
    cases rest with
    | nil =>
      obtain ⟨news, he, w⟩ := ih run cs x hr
      exact ⟨news, he, .skip (fun hmem => absurd hmem (not_mem_ids hd)) w⟩
    | cons c after =>
      obtain ⟨hcs, rfl⟩ := split_at hd
      by_cases hskip : run.completed.contains (h.recorded.id c) = true
      · have hfailed := (hr.completed _).1 (List.contains_iff_mem.1 hskip)
        obtain ⟨news, he, w⟩ := ih run cs x hr
        dsimp only
        rw [if_pos hskip]
        exact ⟨news, he, .skip (fun _ => hfailed) w⟩
      · have hnew : ¬ Finished x.events (h.id c) := fun hf =>
          hskip (List.contains_iff_mem.2 (hr.finished_iff.1 hf))
        have he := h.events_recorded c x
        have hmap := map_exchanged h.id hcs (hid c x.forget)
        dsimp only
        rw [if_neg hskip]
        simp only [Handling.outcome_recorded]
        cases ho : (h.tick c x.forget).outcome with
        | error p =>
          rw [ho] at he
          have hrun : run.Recalls (x.events ++ [.ticked (h.id c) none]) :=
            hr.other (h.id c) (by simp) (by simp) run.cursor
          exact ⟨_, he, .halted hnew (not_concluded_error p) hrun⟩
        | ok status =>
          rw [ho] at he
          cases status with
          | running =>
            exact ⟨_, he, .halted hnew not_concluded_running
              (hr.other (h.id c) (by simp [Except.toOption]) (by simp [Except.toOption]) _)⟩
          | success => exact ⟨_, he, .stopped hnew rfl (by decide)⟩
          | error => exact ⟨_, he, .stopped hnew rfl (by decide)⟩
          | ready => exact ⟨_, he, .stopped hnew rfl (by decide)⟩
          | failure =>
            obtain ⟨news, hrest, w⟩ := ih (run.complete (h.id c)) _
              (h.recorded.tick c x).stage (he ▸ hr.failure (h.id c))
            rw [he, hmap] at w
            rw [he, List.append_assoc] at hrest
            exact ⟨_ :: news, hrest, .cons hnew w⟩

theorem mem_order {ids : List String} (s : Settings) (run : Run) (g : Random.Generator)
    (h : id ∈ ids) : id ∈ (prepare s run ids g).1.order :=
  mem_extend.2 (.inr h)

end Selector

end Conduct
