import Conduct.Proofs.Errors.Control
import Conduct.Proofs.Survival

/-! Errors are not swallowed.

An error passes up from where it is reported: every tick around it that is completed comes to an error
too, unless an inverter on the way is told to make a success of it. A sequence, a selector or a
repeater does nothing more to its children in that tick, and an action does not try again. Main
statement: `Tree.error_prevails`.
-/

set_option autoImplicit false

namespace Conduct

variable {H : Host} {γ : Type}

/-! ## An error ends the tick of a sequence, a selector or a repeater -/

/-- Nothing comes after an error. -/
def EndsOnError (es : List Event) : Prop :=
  ∀ before id after, es = before ++ .ticked id (some .error) :: after → after = []

theorem endsOnError_nil : EndsOnError [] := by
  intro before id after he
  cases before with
  | nil => cases he
  | cons e before => cases he

theorem endsOnError_single (e : Event) : EndsOnError [e] := by
  intro before id after he
  cases before with
  | nil => exact (List.cons.inj he).2.symm
  | cons e before =>
    have hnil := (List.cons.inj he).2
    cases before with
    | nil => cases hnil
    | cons e before => cases hnil

theorem EndsOnError.cons {e : Event} {es : List Event} (he : ∀ id, e ≠ .ticked id (some .error))
    (h : EndsOnError es) : EndsOnError (e :: es) := by
  intro before id after hes
  cases before with
  | nil => exact absurd (List.cons.inj hes).1 (he id)
  | cons e before => exact h before id after (List.cons.inj hes).2

/-- What happens between the stages ends with the first error. -/
def EndsBetween (x y : Stage H.recorded) : Prop :=
  ∃ news, y.events = x.events ++ news ∧ EndsOnError news

theorem endsBetween_same {x y : Stage H.recorded} (he : y.events = x.events) : EndsBetween x y :=
  ⟨[], by rw [he, List.append_nil], endsOnError_nil⟩

theorem endsBetween_single {x y : Stage H.recorded} {e : Event} (he : y.events = x.events ++ [e]) :
    EndsBetween x y :=
  ⟨[e], he, endsOnError_single e⟩

theorem EndsBetween.cons {x y z : Stage H.recorded} {e : Event} (h : EndsBetween y z)
    (hy : y.events = x.events ++ [e]) (he : ∀ id, e ≠ .ticked id (some .error)) :
    EndsBetween x z := by
  obtain ⟨news, hz, hnews⟩ := h
  refine ⟨e :: news, ?_, hnews.cons he⟩
  rw [hz, hy, List.append_assoc, List.singleton_append]

theorem Sequence.walk_ends (h : Handling H γ) (s : Settings) (run : Run) (index : Nat) (cs : List γ)
    (x : Stage H.recorded) : EndsBetween x (walk h.recorded s run index cs x).stage := by
  induction cs generalizing run index x with
  | nil => exact endsBetween_same rfl
  | cons c cs ih =>
    have he := h.events_recorded c x
    have ho := h.outcome_recorded c x
    simp only [walk]
    split
    · exact ih run (index + 1) x
    · cases hout : (h.tick c x.forget).outcome with
      | error p =>
        rw [hout] at ho
        simp only [ho]
        exact endsBetween_single he
      | ok r =>
        rw [hout] at he ho
        simp only [ho]
        cases r with
        | ready | running | error => exact endsBetween_single he
        | success | failure =>
          dsimp only
          split
          · exact endsBetween_single he
          · exact (ih _ _ _).cons he (by simp [Except.toOption])

theorem Selector.walk_ends (h : Handling H γ) (run : Run) (ids : List String) (cs : List γ)
    (x : Stage H.recorded) : EndsBetween x (walk h.recorded run ids cs x).stage := by
  induction ids generalizing run cs x with
  | nil => exact endsBetween_same rfl
  | cons id ids ih =>
    simp only [walk]
    cases hd : cs.dropWhile fun c => h.recorded.id c != id with
    | nil => exact ih run cs x
    | cons c after =>
      have he := h.events_recorded c x
      have ho := h.outcome_recorded c x
      dsimp only
      split
      · exact ih run cs x
      · cases hout : (h.tick c x.forget).outcome with
        | error p =>
          rw [hout] at ho
          simp only [ho]
          exact endsBetween_single he
        | ok r =>
          rw [hout] at he ho
          simp only [ho]
          cases r with
          | ready | running | error | success => exact endsBetween_single he
          | failure => exact (ih _ _ _).cons he (by simp [Except.toOption])

theorem Repeater.loop_ends (h : Handling H γ) (s : Settings) (left : Nat) (run : Run) (c : γ)
    (x : Stage H.recorded) : EndsBetween x (loop h.recorded s left run c x).stage := by
  induction left generalizing run c x with
  | zero => exact endsBetween_same rfl
  | succ left ih =>
    simp only [loop]
    split
    · exact endsBetween_same rfl
    · generalize hp : prepare h.recorded s run c x = p
      obtain ⟨c', x'⟩ := p
      have he := h.events_recorded c' x'
      have ho := h.outcome_recorded c' x'
      -- The iteration from where the child may have been reset.
      have hrest : ∀ y, EndsBetween x' y → EndsBetween x y := by
        intro y hy
        unfold prepare at hp
        split at hp
        · cases hp
          exact hy.cons rfl (by simp)
        · cases hp
          exact hy
      apply hrest
      cases hout : (h.tick c' x'.forget).outcome with
      | error p =>
        rw [hout] at ho
        simp only [ho]
        exact endsBetween_single he
      | ok r =>
        rw [hout] at he ho
        simp only [ho]
        cases r with
        | ready | running | error => exact endsBetween_single he
        | success | failure =>
          dsimp only
          split
          · exact endsBetween_single he
          · exact (ih _ _ _).cons he (by simp [Except.toOption])

/-- What a sequence, a selector or a repeater does to its children in a tick. -/
def Behavior.events (h : Handling H γ) (b : Behavior H) (cs : List γ) (x : Stage H) : List Event :=
  match b with
  | .repeater s run => (Repeater.tick h.recorded s run cs (x.recorded [])).stage.events
  | b => b.log h cs x []

theorem Behavior.events_ends (h : Handling H γ) (b : Behavior H) (cs : List γ) (x : Stage H) :
    EndsOnError (b.events h cs x) := by
  have hends : ∀ y, EndsBetween (x.recorded []) y → EndsOnError y.events := by
    rintro y ⟨news, hy, hnews⟩
    rwa [hy]
  cases b with
  | sequence s run => exact hends _ (Sequence.walk_ends h s run 0 cs _)
  | selector s run g => exact hends _ (Selector.walk_ends h _ _ cs _)
  | repeater s run =>
    apply hends
    cases cs with
    | nil => exact endsBetween_same rfl
    | cons c cs => exact Repeater.loop_ends h s _ run c _
  | _ => exact endsOnError_nil

/-! ## An error of an action is not tried again -/

/-- What an attempt came to is an error: a fault, or the status for one, or the status that no tick
may report. -/
def Faulty : Outcome Status → Prop
  | .fault _ => True
  | .value status => status = .error ∨ status = .ready
  | .panic _ => False

theorem Action.tick_faulty {s : Settings} {script : Option (Script H Status)} {run : Run}
    {x : Stage H} (hd : run.delayed x.now = false)
    (hf : Faulty (perform s script { run with nextAttempt := none } x).1) :
    (tick s script run x).outcome = .ok .error := by
  unfold tick attempt
  rw [hd]
  simp only [Bool.false_eq_true, if_false]
  generalize perform s script { run with nextAttempt := none } x = p at hf
  obtain ⟨outcome, run', x'⟩ := p
  cases outcome with
  | fault e => rfl
  | panic p => exact hf.elim
  | value status =>
    rcases hf with rfl | rfl
    · rfl
    · rfl

/-! ## Trees -/

namespace Tree

variable {t a u : Tree H} {stage x y : Stage H} {p q : Position}

/-- The nodes from the top down to a position, other than the one there, are candid. -/
def CandidTo (p : Position) (t : Tree H) : Prop :=
  ∀ p' i p'' d, p = p' ++ i :: p'' → t.at? p' = some d → d.value.behavior.Candid

theorem candidTo_anew : t.anew.CandidTo p ↔ t.CandidTo p := by
  have hbehavior : ∀ d : Tree H, d.anew.value.behavior = d.value.behavior.anew := by
    rintro ⟨n, cs⟩
    rw [anew_node]
    rfl
  constructor
  · intro h p' i p'' d hp hd
    have hd' : t.anew.at? p' = some (anew d) := by
      unfold anew
      rw [Rose.at?_map, hd, Option.map_some]
    have hcandid := h p' i p'' (anew d) hp hd'
    rwa [hbehavior, Behavior.candid_anew] at hcandid
  · intro h p' i p'' d hp hd
    rw [anew, Rose.at?_map, Option.map_eq_some_iff] at hd
    obtain ⟨c, hc, rfl⟩ := hd
    have hcandid := h p' i p'' c hp hc
    rwa [← Behavior.candid_anew, ← hbehavior] at hcandid

/-- A tick is not fine if one that it made is not, at a position that candid nodes lead to. -/
theorem not_fine_of_call (hc : a.CandidTo p) (hu : (u, y) ∈ a.callsAt p x)
    (he : ¬ Fine (u.tick y).outcome) : ¬ Fine (a.tick x).outcome := by
  induction p generalizing a x with
  | nil =>
    cases List.mem_singleton.1 hu
    exact he
  | cons i p ih =>
    obtain ⟨w, hw, c, z, hcall, hu⟩ := mem_callsAt_cons.1 hu
    have htop : a.value.behavior.Candid := hc [] i p a rfl rfl
    have hchild : c.CandidTo p := by
      have hfirst : w.first.CandidTo p := by
        intro p' j p'' d hp hd
        refine hc (i :: p') j p'' d (by rw [hp, List.cons_append]) ?_
        rw [Rose.at?, Option.bind_eq_bind, (watch_at hw).1, Option.bind_some, hd]
      rwa [← candidTo_anew, (w.leads.keeps keeps_anew).1 (c, z) hcall, candidTo_anew]
    have hcnot := ih hchild hu
    rintro ⟨r, ho, hr⟩
    rw [outcome_tick] at ho
    cases hout : (a.value.behavior.tick (handling tick) a.children x).outcome with
    | error p =>
      rw [hout] at ho
      cases ho
    | ok reported =>
      rw [hout] at ho
      cases ho
      have hfine : Fine (a.value.behavior.tick (handling tick) a.children x).outcome := by
        refine ⟨reported, hout, ?_⟩
        rintro rfl
        exact hr rfl
      exact hcnot (Behavior.fine_calls keeps_id htop hfine w (List.mem_of_getElem? hw) (c, z) hcall)

/-- In a tree of usual nodes, whatever the settings and the states of its nodes, if a tick reports an
error, every completed tick around it does, as long as no inverter from there to the error is told to
make a success of errors. A sequence, a selector or a repeater does nothing more to its children after
an error, and an action does not try again. -/
theorem error_prevails (hb : t.Everywhere fun n _ => n.behavior.kind? ≠ none)
    (ha : (a, x) ∈ t.callsAt q stage) :
    (∀ p u y, (u, y) ∈ a.callsAt p x → (u.tick y).outcome = .ok .error →
      (∀ p' i p'' d s, p = p' ++ i :: p'' → t.at? (q ++ p') = some d →
        d.value.behavior = .inverter s → s.invertError = false) →
      ∀ r, (a.tick x).outcome = .ok r → r = .error) ∧
    (∀ before id after, a.value.behavior.events (handling tick) a.children x =
      before ++ .ticked id (some .error) :: after → after = []) ∧
    (∀ s script run, a.value.behavior = .action s script run → run.delayed x.now = false →
      Faulty (Action.perform s script { run with nextAttempt := none } x).1 →
      (a.tick x).outcome = .ok .error) := by
  refine ⟨?_, ?_, ?_⟩
  · intro p u y hu he hinverters r hr
    obtain ⟨b, hq, hba⟩ := Option.map_eq_some_iff.1 (anew_of_mem_callsAt ha)
    have hcandid : a.CandidTo p := by
      rw [← candidTo_anew, ← hba, candidTo_anew]
      intro p' i p'' d hp hd
      have hd' : t.at? (q ++ p') = some d := by rw [Rose.at?_append, hq, Option.bind_some, hd]
      have hsettings := fun s => hinverters p' i p'' d s hp hd'
      obtain ⟨n, cs⟩ := d
      have hkind := (Rose.everywhere_node.1 (hb.at? hd')).1
      simp only [Rose.value] at hsettings ⊢
      cases hn : n.behavior with
      | inverter s => exact hsettings s hn
      | extension e played => exact absurd (by rw [hn]; rfl) hkind
      | _ => trivial
    by_contra hne
    have hnot : ¬ Fine (u.tick y).outcome := by
      rw [he]
      exact not_fine_error
    exact not_fine_of_call hcandid hu hnot ⟨r, hr, hne⟩
  · exact a.value.behavior.events_ends (handling tick) a.children x
  · intro s script run hn hd hf
    have hfaulty := Action.tick_faulty hd hf
    rw [outcome_tick, hn]
    simp only [Behavior.tick, Turn.map, hfaulty]
    rfl

section Sheltered

/-- An action whose script comes to the same at every call. -/
def acting (id : String) (outcome : Outcome Status) : Tree Rehearsal.host :=
  .node (.fresh id .action "A" {} .nil
    (.action { retryCount := 3 } (some fun _ scene => (outcome, scene)) {})) []

/-- A parallel that asks for one success, and gets it together with an error, below a repeater
without end and an inverter that makes a success of errors. -/
def sheltered : Tree Rehearsal.host :=
  .node (.fresh "i" .inverter "I" {} .nil (.inverter { invertError := true }))
    [.node (.fresh "r" .repeater "R" {} .nil (.repeater { repeatCount := -1 } {}))
      [.node (.fresh "p" .parallel "P" {} .nil (.parallel { policy := .requireOne } .nil))
        [acting "good" (.value .success), acting "bad" (.fault (.missing "agent"))]]]

/-- The error passes through the parallel and the repeater, and not through the inverter. -/
theorem error_prevails_sheltered :
    ∃ a x, (a, x) ∈ sheltered.callsAt [0] (Rehearsal.clock 0) ∧ (a.tick x).outcome = .ok .error ∧
      (sheltered.tick (Rehearsal.clock 0)).outcome = .ok .success := by
  have hb : sheltered.Everywhere fun n _ => n.behavior.kind? ≠ none := by
    simp [sheltered, acting, Rose.Everywhere, Rose.EverywhereAll, Node.fresh, Behavior.kind?]
  obtain ⟨a, x, ha, r, hr, u, y, hu, he⟩ : ∃ a x, (a, x) ∈ sheltered.callsAt [0] (Rehearsal.clock 0) ∧
      ∃ r, (a.tick x).outcome = .ok r ∧
        ∃ u y, (u, y) ∈ a.callsAt [0, 1] x ∧ (u.tick y).outcome = .ok .error :=
    ⟨_, _, List.mem_singleton_self _, _, rfl, _, _, List.mem_singleton_self _, rfl⟩
  have hinverters : ∀ p' i p'' d s, [0, 1] = p' ++ i :: p'' → sheltered.at? ([0] ++ p') = some d →
      d.value.behavior = .inverter s → s.invertError = false := by
    rintro (_ | ⟨i, _ | ⟨j, p'⟩⟩) k p'' d s hp hd hs
    · cases hd
      cases hs
    · cases hp
      cases hd
      cases hs
    · simp at hp
  have hall := (error_prevails hb ha).1 [0, 1] u y hu he hinverters r hr
  exact ⟨a, x, ha, hall ▸ hr, rfl⟩

end Sheltered

end Tree

end Conduct
