import Conduct.Proofs.Survival.Walk
import Conduct.Rehearsal.World

/-! A run of a sequence or a selector survives edits of its children.

The children of a node may be other ones at every tick. What a run remembers by their ids is what the
events of its ticks tell, so no child that finished is ticked again, and the verdict is on all that
finished. Main statement: `Amid.survives`.
-/

set_option autoImplicit false

namespace Conduct

variable {H : Host} {γ : Type} {id : String} {es : List Event}

/-! ## Runs over changing children -/

/-- The events of a run after a tick of a sequence or a selector. -/
def Behavior.log (h : Handling H γ) (b : Behavior H) (cs : List γ) (stage : Stage H)
    (es : List Event) : List Event :=
  match b with
  | .sequence s run => (Sequence.tick h.recorded s run cs (stage.recorded es)).stage.events
  | .selector s run g => (Selector.tick h.recorded s run g cs (stage.recorded es)).stage.events
  | _ => es

/-- A sequence or a selector in the middle of a run that has the given events so far. Its children
may be other ones at every tick. -/
inductive Amid (h : Handling H γ) : Behavior H → List Event → Prop
  | sequence (s : Sequence.Settings) : Amid h (.sequence s {}) []
  | selector (s : Selector.Settings) (g : Random.Generator) : Amid h (.selector s {} g) []
  | ticked {b : Behavior H} {es : List Event} (d : Amid h b es) (cs : List γ) (stage : Stage H)
      (hp : ¬ Concluded (b.tick h cs stage).outcome) :
      Amid h (b.tick h cs stage).state.1 (b.log h cs stage es)

/-- A run of a sequence or a selector remembers what its events tell. -/
def Behavior.Recalls (es : List Event) : Behavior H → Prop
  | .sequence _ run => run.Recalls es
  | .selector _ run _ => run.Recalls es
  | _ => False

variable {h : Handling H γ}

theorem Sequence.tick_walked (s : Settings) {run : Run} (hr : run.Recalls es) (cs : List γ)
    (stage : Stage H) :
    ∃ news, (tick h.recorded s run cs (stage.recorded es)).stage.events = es ++ news ∧
      Walked s (cs.map h.id) es news (tick h s run cs stage).outcome
        (tick h s run cs stage).state.1 := by
  obtain ⟨ho, hs, -⟩ := tick_recorded h s run cs stage es
  obtain ⟨news, he, w⟩ := walk_walked h s run 0 cs (stage.recorded es) hr
  rw [← ho, ← hs]
  exact ⟨news, he, w⟩

theorem Selector.tick_walked (hid : ∀ c x, h.id (h.tick c x).state = h.id c) (s : Settings)
    {run : Run} (hr : run.Recalls es) (g : Random.Generator) (cs : List γ) (stage : Stage H) :
    ∃ news, (tick h.recorded s run g cs (stage.recorded es)).stage.events = es ++ news ∧
      Walked (cs.map h.id) (cs.map h.id) es news (tick h s run g cs stage).outcome
        (tick h s run g cs stage).state.1.1 := by
  obtain ⟨ho, hs, -⟩ := tick_recorded h s run g cs stage es
  obtain ⟨news, he, w⟩ := walk_walked h hid (prepare s run (cs.map h.id) g).1
    (prepare s run (cs.map h.id) g).1.order cs (stage.recorded es) (hr.prepare s (cs.map h.id) g)
  rw [← ho, ← hs]
  exact ⟨news, he, w.fair, w.paused, w.concluded, fun hf id hid _ =>
    w.failed hf id (mem_order s run g hid) hid⟩

theorem Amid.recalls (hid : ∀ c x, h.id (h.tick c x).state = h.id c) {b : Behavior H}
    (d : Amid h b es) : b.Recalls es := by
  induction d with
  | sequence s => exact Sequence.Run.recalls_nil
  | selector s g => exact Selector.Run.recalls_nil
  | @ticked b es d cs stage hp ih =>
    cases b with
    | sequence s run =>
      obtain ⟨news, he, w⟩ := Sequence.tick_walked (h := h) s ih cs stage
      have hrun := w.paused hp
      rwa [← he] at hrun
    | selector s run g =>
      obtain ⟨news, he, w⟩ := Selector.tick_walked hid s ih g cs stage
      have hrun := w.paused hp
      rwa [← he] at hrun
    | _ => exact ih.elim

/-- In a run of a sequence or a selector, no tick ticks a child twice or a child that finished in the
run, and a verdict ends the run. A sequence that no child stops has seen all present children finish,
and fails if and only if some child failed in the run; a selector fails only if all present children
failed in the run. -/
theorem Amid.survives (hid : ∀ c x, h.id (h.tick c x).state = h.id c) {b : Behavior H}
    (d : Amid h b es) (cs : List γ) (stage : Stage H) :
    ∃ news, b.log h cs stage es = es ++ news ∧ (tickedIds news).Nodup ∧
      (∀ id ∈ tickedIds news, ¬ Finished es id) ∧
      (Concluded (b.tick h cs stage).outcome →
        (b.tick h cs stage).state.1.reset = (b.tick h cs stage).state.1) ∧
      (∀ s run, b = .sequence s run → Concluded (b.tick h cs stage).outcome →
        (∀ id status, Reported news id status → s.stops status = false) →
        (∀ c ∈ cs, Finished (es ++ news) (h.id c)) ∧
          ∃ verdict, (b.tick h cs stage).outcome = .ok verdict ∧
            (verdict = .success ∨ verdict = .failure) ∧
            (verdict = .failure ↔ ∃ id, Reported (es ++ news) id .failure)) ∧
      (∀ s run g, b = .selector s run g → (b.tick h cs stage).outcome = .ok .failure →
        ∀ c ∈ cs, Reported (es ++ news) (h.id c) .failure) := by
  have hr := d.recalls hid
  cases b with
  | sequence s run =>
    obtain ⟨news, he, w⟩ := Sequence.tick_walked (h := h) s hr cs stage
    refine ⟨news, he, w.fair.once, w.fair.unfinished, fun hc => ?_, ?_, ?_⟩
    · simp only [Behavior.tick, Turn.map, Behavior.reset]
      rw [w.concluded hc]
    · rintro s run ⟨⟩ hc hn
      obtain ⟨hall, hverdict⟩ := w.exhausted hc hn
      exact ⟨fun c hcs => hall _ (List.mem_map_of_mem hcs), hverdict⟩
    · rintro s run g ⟨⟩
  | selector s run g =>
    obtain ⟨news, he, w⟩ := Selector.tick_walked hid s hr g cs stage
    refine ⟨news, he, w.fair.once, w.fair.unfinished, fun hc => ?_, ?_, ?_⟩
    · simp only [Behavior.tick, Turn.map, Behavior.reset]
      rw [w.concluded hc]
    · rintro s run ⟨⟩
    · rintro s run g ⟨⟩ hf c hcs
      exact w.failed hf _ (List.mem_map_of_mem hcs) (List.mem_map_of_mem hcs)
  | _ => exact hr.elim

/-! ## Trees -/

section Trees

variable {t t' child : Tree H}

theorem Amid.insertChild (d : Amid (Tree.handling Tree.tick) t.value.behavior es) {index : Nat}
    (hi : t.insertChild index child = .ok t') :
    Amid (Tree.handling Tree.tick) t'.value.behavior es := by
  obtain ⟨ds, rfl⟩ := Tree.insertChild_eq hi
  exact d

theorem Amid.removeChild? (d : Amid (Tree.handling Tree.tick) t.value.behavior es)
    (hi : t.removeChild? id = some (child, t')) :
    Amid (Tree.handling Tree.tick) t'.value.behavior es := by
  obtain ⟨ds, rfl⟩ := Tree.removeChild?_eq hi
  exact d

theorem Amid.tick (d : Amid (Tree.handling Tree.tick) t.value.behavior es) (stage : Stage H)
    (hp : ¬ Concluded (t.tick stage).outcome) :
    Amid (Tree.handling Tree.tick) (t.tick stage).state.value.behavior
      (t.value.behavior.log (Tree.handling Tree.tick) t.children stage es) := by
  rw [Tree.behavior_tick]
  refine d.ticked t.children stage fun hc => hp ?_
  obtain ⟨verdict, ho, hv⟩ := hc
  refine ⟨verdict, ?_, hv⟩
  rw [Tree.outcome_tick, ho]
  cases verdict with
  | ready => cases hv
  | _ => rfl

end Trees

/-- Children that always report the same. -/
def steady : Handling H (String × Status) where
  id := Prod.fst
  tick c x := ⟨.ok c.2, c, x⟩
  reset c := c
  notice _ s := s

/-- A run fails because of a child that has been taken out since, for which another one came in. -/
theorem survives_exchange :
    ∃ b : Behavior Rehearsal.host,
      Amid steady b [.ticked "a" (some .failure), .ticked "b" (some .running)] ∧
      b.log steady [("c", .success), ("b", .success)] (Rehearsal.clock 0)
          [.ticked "a" (some .failure), .ticked "b" (some .running)] =
        [.ticked "a" (some .failure), .ticked "b" (some .running), .ticked "c" (some .success),
          .ticked "b" (some .success)] ∧
      (b.tick steady [("c", .success), ("b", .success)] (Rehearsal.clock 0)).outcome = .ok .failure := by
  let d := (Amid.sequence (h := steady (H := Rehearsal.host)) { abortOnFailure := false }).ticked
    [("a", .failure), ("b", .running)] (Rehearsal.clock 0) (by rintro ⟨_, h, ht⟩; cases h; cases ht)
  obtain ⟨news, he, -, -, -, hsequence, -⟩ :=
    d.survives (fun _ _ => rfl) [("c", .success), ("b", .success)] (Rehearsal.clock 0)
  have hnews : news = [.ticked "c" (some .success), .ticked "b" (some .success)] := by
    have he : [Event.ticked "a" (some .failure), .ticked "b" (some .running)] ++
        [.ticked "c" (some .success), .ticked "b" (some .success)] = _ ++ news := he
    exact (List.append_cancel_left he).symm
  have hstops : ∀ id status, Reported news id status →
      ({ abortOnFailure := false } : Sequence.Settings).stops status = false := by
    intro id status hr
    rw [hnews] at hr
    simp only [Reported, List.mem_cons, List.not_mem_nil, or_false, Event.ticked.injEq,
      Option.some.injEq] at hr
    rcases hr with ⟨-, rfl⟩ | ⟨-, rfl⟩
    · rfl
    · rfl
  obtain ⟨-, verdict, ho, -, hfailure⟩ := hsequence _ _ rfl ⟨.failure, rfl, rfl⟩ hstops
  refine ⟨_, d, rfl, ?_⟩
  rw [ho, hfailure.2 ⟨"a", List.mem_cons_self⟩]

end Conduct
