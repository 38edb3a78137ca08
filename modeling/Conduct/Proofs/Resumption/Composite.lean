import Conduct.Proofs.Resumption.Program
import Mathlib.Data.List.TakeWhile

/-! Sequences and selectors as programs.

A tick of a control node does what a tick of its program does, and what the node remembers between
two ticks of a run is the program that is paused. Main statements: `Sequence.walk_follows` and
`Selector.tick_follows`.
-/

set_option autoImplicit false

namespace Conduct

variable {H : Host} {γ : Type}

/-- A tick of a node does what a tick of a program does. What the node remembers then belongs to the
program if that is paused, and is all that is left of the run if not. -/
structure Turn.Follows {μ : Type} (t : Turn H Status (μ × List γ))
    (u : Turn H Status (Program × List γ)) (Paused : μ → Program → Prop) (left : μ) : Prop where
  outcome : t.outcome = u.outcome
  children : t.state.2 = u.state.2
  stage : t.stage = u.stage
  paused : t.outcome = .ok .running → Paused t.state.1 u.state.1
  ended : ∀ r, t.outcome = .ok r → r ≠ .running → t.state.1 = left

variable {h : Handling H γ} {ids : List String}

section

variable {μ : Type} {Paused : μ → Program → Prop} {left : μ} {cs : List γ} {x : Stage H}

theorem Turn.Follows.stop {r : Status} (hr : r ≠ .running) :
    Turn.Follows ⟨.ok r, (left, cs), x⟩ ⟨.ok r, (.stop r, cs), x⟩ Paused left where
  outcome := rfl
  children := rfl
  stage := rfl
  paused ho := absurd (Except.ok.inj ho) hr
  ended _ _ _ := rfl

theorem Turn.Follows.unwind {m : μ} {p : Panic} {q : Program} :
    Turn.Follows ⟨.error p, (m, cs), x⟩ ⟨.error p, (q, cs), x⟩ Paused left where
  outcome := rfl
  children := rfl
  stage := rfl
  paused ho := by cases ho
  ended _ ho _ := by cases ho

theorem Turn.Follows.wait {m : μ} {q : Program} (hm : Paused m q) :
    Turn.Follows ⟨.ok .running, (m, cs), x⟩ ⟨.ok .running, (q, cs), x⟩ Paused left where
  outcome := rfl
  children := rfl
  stage := rfl
  paused _ := hm
  ended _ ho hr := absurd (Except.ok.inj ho).symm hr

theorem Turn.Follows.map {ν : Type} {t : Turn H Status (μ × List γ)}
    {u : Turn H Status (Program × List γ)} {Paused' : ν → Program → Prop} (φ : μ → ν)
    (ht : t.Follows u Paused left) (hφ : ∀ m p, Paused m p → Paused' (φ m) p) :
    (t.map fun m => (φ m.1, m.2)).Follows u Paused' (φ left) where
  outcome := ht.outcome
  children := ht.children
  stage := ht.stage
  paused ho := hφ _ _ (ht.paused ho)
  ended r ho hr := congrArg φ (ht.ended r ho hr)

end

/-! ## Sequences -/

namespace Sequence

/-- What a sequence still does with the children from a place on. -/
def program (s : Settings) (failed : Bool) (completed : List String) (place : Nat) :
    List String → Program
  | [] => .stop (if failed then .failure else .success)
  | id :: ids =>
    if completed.contains id then program s failed completed (place + 1) ids
    else .child place fun
      | .success =>
        if s.stopOnFirstSuccess then .stop .success
        else program s failed (id :: completed) (place + 1) ids
      | .failure =>
        if s.abortOnFailure then .stop .failure
        else .write "sequence" "child failed, continuing" id
          (program s true (id :: completed) (place + 1) ids)
      | _ => .stop .error

theorem program_skip (s : Settings) (failed : Bool) {completed done : List String}
    (hdone : ∀ i ∈ done, i ∈ completed) (place : Nat) (ids : List String) :
    program s failed completed place (done ++ ids) =
      program s failed completed (place + done.length) ids := by
  induction done generalizing place with
  | nil => rfl
  | cons i done ih =>
    obtain ⟨hi, hdone⟩ := List.forall_mem_cons.1 hdone
    rw [List.cons_append, program, if_pos (List.contains_iff_mem.2 hi), ih hdone, List.length_cons]
    congr 1
    omega

theorem walk_follows (k : h.Keeps h.id) (s : Settings) (run : Run) (pre cs : List γ) (x : Stage H)
    (hids : (pre ++ cs).map h.id = ids) (hpre : ∀ c ∈ pre, h.id c ∈ run.completed) :
    ((walk h s run pre.length cs x).map fun m => (m.1, pre ++ m.2)).Follows
      ((program s run.failed run.completed pre.length (cs.map h.id)).tick h (pre ++ cs) x)
      (fun run' p => program s run'.failed run'.completed 0 ids = p) {} := by
  induction cs generalizing run pre x with
  | nil =>
    refine .stop ?_
    split
    · decide
    · decide
  | cons c cs ih =>
    -- The walk goes on after a child that finished now or in an earlier tick.
    have hgo : ∀ (run : Run) (d : γ) (x : Stage H), h.id d = h.id c →
        (∀ c ∈ pre, h.id c ∈ run.completed) → h.id c ∈ run.completed →
        (((walk h s run (pre.length + 1) cs x).push d).map fun m => (m.1, pre ++ m.2)).Follows
          ((program s run.failed run.completed (pre.length + 1) (cs.map h.id)).tick h
            (pre ++ d :: cs) x)
          (fun run' p => program s run'.failed run'.completed 0 ids = p) {} := by
      intro run d x hd hpre hc
      have hnext := ih run (pre ++ [d]) x (by simpa [hd] using hids) (by
        refine List.forall_mem_append.2 ⟨hpre, List.forall_mem_singleton.2 ?_⟩
        rwa [hd])
      simp only [List.length_append, List.length_singleton, List.append_assoc,
        List.singleton_append] at hnext
      exact hnext
    by_cases hskip : run.completed.contains (h.id c) = true
    · simp only [walk, List.map_cons, program, if_pos hskip]
      exact hgo run c x rfl hpre (List.contains_iff_mem.1 hskip)
    · have hplace : (pre ++ c :: cs)[pre.length]? = some c := by simp
      have hset : ∀ d, (pre ++ c :: cs).set pre.length d = pre ++ d :: cs := by simp
      have hafter : ∀ run' : Run, run'.completed = h.id c :: run.completed →
          (∀ c ∈ pre, h.id c ∈ run'.completed) ∧ h.id c ∈ run'.completed := by
        intro run' he
        rw [he]
        exact ⟨fun d hd => List.mem_cons_of_mem _ (hpre d hd), List.mem_cons_self⟩
      simp only [walk, List.map_cons, program, if_neg hskip, Program.tick, hplace, hset]
      cases hout : (h.tick c x).outcome with
      | error p => exact .unwind
      | ok r =>
        cases r with
        | running =>
          refine .wait ?_
          have hdone : ∀ i ∈ pre.map h.id, i ∈ run.completed := by
            simpa only [List.forall_mem_map] using hpre
          rw [← hids, List.map_append, List.map_cons, program_skip s _ hdone, program, if_neg hskip,
            List.length_map, Nat.zero_add]
        | success =>
          dsimp only
          split
          · exact .stop (by decide)
          · obtain ⟨hpre', hc'⟩ := hafter (run.complete (h.id c)) rfl
            exact hgo _ _ _ (k.tick c x) hpre' hc'
        | failure =>
          dsimp only
          split
          · exact .stop (by decide)
          · obtain ⟨hpre', hc'⟩ := hafter { run.complete (h.id c) with failed := true } rfl
            exact hgo _ _ _ (k.tick c x) hpre' hc'
        | error => exact .stop (by decide)
        | ready => exact .stop (by decide)

end Sequence

/-! ## Selectors -/

namespace Selector

/-- What a selector still does with the rest of its order. -/
def program (ids completed : List String) : List String → Program
  | [] => .stop .failure
  | id :: rest =>
    if id ∈ ids ∧ id ∉ completed then
      .child (ids.idxOf id) fun
        | .success => .stop .success
        | .failure => program ids (id :: completed) rest
        | _ => .stop .error
    else program ids completed rest

theorem program_skip {completed passed : List String}
    (hpassed : ∀ i ∈ passed, i ∈ ids → i ∈ completed) (rest : List String) :
    program ids completed (passed ++ rest) = program ids completed rest := by
  induction passed with
  | nil => rfl
  | cons i passed ih =>
    obtain ⟨hi, hpassed⟩ := List.forall_mem_cons.1 hpassed
    rw [List.cons_append, program, if_neg fun hn => hn.2 (hi hn.1), ih hpassed]

theorem idxOf_id {id : γ → String} {before after : List γ} {c : γ}
    (hbefore : ∀ d ∈ before, id d ≠ id c) :
    ((before ++ c :: after).map id).idxOf (id c) = before.length := by
  have hnew : id c ∉ before.map id := by
    rintro hc
    obtain ⟨d, hd, he⟩ := List.mem_map.1 hc
    exact hbefore d hd he
  rw [List.map_append, List.map_cons, List.idxOf_append_of_notMem hnew, List.idxOf_cons_self,
    List.length_map, Nat.add_zero]

theorem walk_follows (k : h.Keeps h.id) (run : Run) (passed rest : List String) (cs : List γ)
    (x : Stage H) (hids : cs.map h.id = ids) (hpassed : ∀ i ∈ passed, i ∈ ids → i ∈ run.completed) :
    (walk h run rest cs x).Follows ((program ids run.completed rest).tick h cs x)
      (fun run' p => run'.order = run.order ∧ run'.planned = run.planned ∧
        program ids run'.completed (passed ++ rest) = p) {} := by
  induction rest generalizing run passed cs x with
  | nil => exact .stop (by decide)
  | cons i rest ih =>
    -- The walk goes on after an id that is not there, or that is of a child that failed.
    have hgo : ∀ (run : Run) (cs : List γ) (x : Stage H), cs.map h.id = ids →
        (∀ i ∈ passed, i ∈ ids → i ∈ run.completed) → (i ∈ ids → i ∈ run.completed) →
        (walk h run rest cs x).Follows ((program ids run.completed rest).tick h cs x)
          (fun run' p => run'.order = run.order ∧ run'.planned = run.planned ∧
            program ids run'.completed (passed ++ i :: rest) = p) {} := by
      intro run cs x hids hpassed hi
      have hnext := ih run (passed ++ [i]) cs x hids
        (List.forall_mem_append.2 ⟨hpassed, List.forall_mem_singleton.2 hi⟩)
      rwa [List.append_assoc] at hnext
    simp only [walk]
    generalize hd : (cs.dropWhile fun c => h.id c != i) = after
    cases after with
    | nil =>
      have habsent : i ∉ ids := by
        intro hi
        obtain ⟨c, hc, he⟩ := List.mem_map.1 (hids ▸ hi)
        exact absurd he (bne_iff_ne.1 (List.dropWhile_eq_nil_iff.1 hd c hc))
      rw [program, if_neg fun hn => habsent hn.1]
      exact hgo run cs x hids hpassed fun hi => absurd hi habsent
    | cons c after =>
      obtain ⟨hcs, rfl⟩ := split_at hd
      have hbefore : ∀ d ∈ cs.takeWhile fun d => h.id d != h.id c, h.id d ≠ h.id c := by
        intro d hd
        simpa using List.mem_takeWhile_imp hd
      generalize (cs.takeWhile fun d => h.id d != h.id c) = before at hcs hbefore ⊢
      subst hcs
      have hmem : h.id c ∈ ids := by
        rw [← hids]
        exact List.mem_map_of_mem (List.mem_append_right _ List.mem_cons_self)
      dsimp only
      split
      · next hskip =>
        have hdone := List.contains_iff_mem.1 hskip
        rw [program, if_neg fun hn => hn.2 hdone]
        exact hgo run _ x hids hpassed fun _ => hdone
      · next hskip =>
        have hnew : h.id c ∈ ids ∧ h.id c ∉ run.completed :=
          ⟨hmem, fun hi => hskip (List.contains_iff_mem.2 hi)⟩
        have hplace : ids.idxOf (h.id c) = before.length := by
          rw [← hids]
          exact idxOf_id hbefore
        have hchild : (before ++ c :: after)[before.length]? = some c := by simp
        have hset : ∀ d, (before ++ c :: after).set before.length d = before ++ d :: after := by simp
        simp only [program, if_pos hnew, Program.tick, hplace, hchild, hset]
        cases hout : (h.tick c x).outcome with
        | error p => exact .unwind
        | ok r =>
          cases r with
          | running =>
            refine .wait ⟨rfl, rfl, ?_⟩
            dsimp only
            rw [program_skip hpassed, program, if_pos hnew, hplace]
          | failure =>
            refine hgo (run.complete (h.id c)) _ _ ?_ ?_ fun _ => List.mem_cons_self
            · rw [← hids]
              simp only [List.map_append, List.map_cons, k.tick]
            · exact fun i hi hi' => List.mem_cons_of_mem _ (hpassed i hi hi')
          | success => exact .stop (by decide)
          | error => exact .stop (by decide)
          | ready => exact .stop (by decide)

theorem prepare_again (s : Settings) (run run' : Run) (g : Random.Generator)
    (horder : run'.order = (prepare s run ids g).1.order) (hplanned : run'.planned = true)
    (g' : Random.Generator) : prepare s run' ids g' = (run', g') := by
  have hmem : ∀ i ∈ ids, i ∈ run'.order := by
    intro i hi
    rw [horder]
    exact mem_extend.2 (.inr hi)
  obtain ⟨cursor, completed, order, planned⟩ := run'
  cases hplanned
  simp only [prepare, if_true, extend_of_mem hmem]

theorem tick_follows (k : h.Keeps h.id) (s : Settings) (run : Run) (g : Random.Generator)
    (cs : List γ) (x : Stage H) (hids : cs.map h.id = ids) :
    (tick h s run g cs x).Follows
      ((program ids (prepare s run ids g).1.completed (prepare s run ids g).1.order).tick h cs x)
      (fun m p => (prepare s m.1 ids m.2).2 = (prepare s run ids g).2 ∧
        program ids (prepare s m.1 ids m.2).1.completed (prepare s m.1 ids m.2).1.order = p)
      ({}, (prepare s run ids g).2) := by
  obtain ⟨ho, hcs, hst, hpaused, hended⟩ :=
    walk_follows k (prepare s run ids g).1 [] (prepare s run ids g).1.order cs x hids
      fun _ hi => absurd hi List.not_mem_nil
  rw [tick, hids]
  refine ⟨ho, hcs, hst, fun hr => ?_, fun r hr hne => Prod.ext (hended r hr hne) rfl⟩
  obtain ⟨horder, hplanned, hprogram⟩ := hpaused hr
  dsimp only [Turn.map]
  rw [prepare_again s run _ g horder hplanned]
  refine ⟨rfl, ?_⟩
  rw [← hprogram, horder]
  rfl

end Selector

end Conduct
