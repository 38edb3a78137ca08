import Conduct.Proofs.Errors
import Conduct.Proofs.Passage

/-! How far flags reach.

Every node is ticked with the flags that the tick at the top found and those that the roots above the
node raise, and every tick leaves the flags as it found them, whatever panics below it. The log gets
one trace of each completed tick of a node for which the debug flag is up, after the traces of all
ticks that it made, and none of other ticks. Main statement: `Tree.flags_scoped`.
-/

set_option autoImplicit false

namespace Conduct

variable {H : Host}

namespace Tree

/-- The flags with which a tick that finds the given ones comes to a position: these, and those that
the roots above the position raise. -/
def flagsAt : Position → Tree H → Flags → Flags
  | [], _, flags => flags
  | i :: p, t, flags =>
    match t.children[i]? with
    | some c => flagsAt p c (flags.or t.value.behavior.raised)
    | none => flags.or t.value.behavior.raised

/-- The trace of a tick itself, if it is completed and the debug flag is up or is raised at its top. -/
def ownTrace (t : Tree H) (x : Stage H) : List LogEntry :=
  match (tick t x).outcome with
  | .ok status =>
    if (x.flags.or t.value.behavior.raised).debug then
      [⟨"debug", t.value.traceText status, t.id⟩]
    else []
  | .error _ => []

/-- The traces that a tick leaves, the newest first: its own one, and before it those of all ticks
that it made, one tick after the other. -/
inductive Traced : Tree H → Stage H → List LogEntry → Prop
  | tick {t : Tree H} {x : Stage H} {made : List (Tree H × Stage H)} {ess : List (List LogEntry)}
      (hmade : (t.calls x).Perm made) (h : List.Forall₂ (fun e es => Traced e.1 e.2 es) made ess) :
      Traced t x (t.ownTrace x ++ ess.reverse.flatten)

variable {t u : Tree H} {x y : Stage H} {p : Position}

/-! ## From the ticks that are made to the tick that makes them -/

/-- No script in the tree touches the log. -/
def Discreet (t : Tree H) : Prop := t.Everywhere fun n _ => n.behavior.Discreet

theorem discreet_node {n : Node H} {cs : List (Tree H)} :
    Discreet (.node n cs) ↔ n.behavior.Discreet ∧ ∀ c ∈ cs, Discreet c := Rose.everywhere_node

theorem discreet_anew : t.anew.Discreet ↔ t.Discreet := by
  have hnode : (fun (n : Node H) (_ : List (Tree H)) => n.anew.behavior.Discreet) =
      fun n _ => n.behavior.Discreet := by
    funext n _
    exact propext Behavior.discreet_anew
  unfold Discreet anew
  rw [Rose.everywhere_map, hnode]

theorem Discreet.call {e : Tree H × Stage H} (hd : t.Discreet) (he : e ∈ t.calls x) :
    e.1.Discreet := by
  obtain ⟨n, cs⟩ := t
  obtain ⟨c, hc, hanew⟩ := anew_of_mem_calls he
  rw [← discreet_anew, hanew, discreet_anew]
  exact (discreet_node.1 hd).2 c hc

/-- A tick passes from the stage with the flags of its top up through the ticks that it makes. -/
theorem exists_passes (hd : t.Discreet) (x : Stage H) :
    ∃ made, (handling tick).Passes (x.raise t.value.behavior.raised) made
        (t.value.behavior.tick (handling tick) t.children x).stage ∧ (t.calls x).Perm made := by
  obtain ⟨n, cs⟩ := t
  have hwatched := (Behavior.tick_watched (handling tick) n.behavior cs x).2.2.2
  obtain ⟨made, hpasses, hperm⟩ := Behavior.tick_passed (h := handling tick)
    (discreet_node.1 hd).1 (cs.map (Watched.of (handling tick))) x
  rw [hwatched] at hpasses
  rw [Handling.calls_of, List.nil_append] at hperm
  exact ⟨made, hpasses, hperm⟩

/-! ## Flags -/

/-- If all ticks that a tick makes keep the flags, they all find those of its top up, too. -/
theorem flags_of_calls (hd : t.Discreet)
    (hk : ∀ e ∈ t.calls x, (tick e.1 e.2).stage.flags = e.2.flags) :
    (t.value.behavior.tick (handling tick) t.children x).stage.flags =
        x.flags.or t.value.behavior.raised ∧
      ∀ e ∈ t.calls x, e.2.flags = x.flags.or t.value.behavior.raised := by
  obtain ⟨made, hpasses, hperm⟩ := exists_passes hd x
  obtain ⟨hstage, hmade⟩ := hpasses.flags fun e he => hk e (hperm.mem_iff.2 he)
  exact ⟨hstage, fun e he => hmade e (hperm.mem_iff.1 he)⟩

/-- A tick leaves the flags as it found them, also one that a panic unwinds. -/
theorem flags_tick_discreet (hd : t.Discreet) (x : Stage H) : (tick t x).stage.flags = x.flags := by
  induction t, x using ofCalls with
  | h t x ih =>
    cases ho : (tick t x).outcome with
    | ok r => exact flags_tick ho
    | error e =>
      obtain ⟨hstage, -⟩ := flags_of_calls hd fun e he => ih e he (hd.call he)
      -- No panic gets past a root, so nothing was raised here.
      have hraised : t.value.behavior.raised = ⟨false, false⟩ := by
        cases hb : t.value.behavior with
        | root s started =>
          obtain ⟨r, hr⟩ := completes_of_root hb x
          rw [hr] at ho
          cases ho
        | _ => rfl
      obtain ⟨n, cs⟩ := t
      rw [tick_node] at ho ⊢
      simp only [Node.tick] at ho ⊢
      split at ho
      · exact hstage.trans (by simp [hraised, Flags.or])
      · cases ho

theorem flags_call (hd : t.Discreet) {e : Tree H × Stage H} (he : e ∈ t.calls x) :
    e.2.flags = x.flags.or t.value.behavior.raised :=
  (flags_of_calls hd fun e he => flags_tick_discreet (hd.call he) e.2).2 e he

theorem flagsAt_anew (p : Position) (t : Tree H) (flags : Flags) :
    flagsAt p t.anew flags = flagsAt p t flags := by
  induction p generalizing t flags with
  | nil => rfl
  | cons i p ih =>
    obtain ⟨n, cs⟩ := t
    have hraised : n.anew.behavior.raised = n.behavior.raised := n.behavior.raised_anew
    rw [anew_node]
    simp only [flagsAt, Rose.children, Rose.value, List.getElem?_map, hraised]
    cases cs[i]? with
    | none => rfl
    | some c => exact ih c _

/-- Every tick at a position finds the flags that the roots above it raise, and those of the top. -/
theorem flags_of_mem_callsAt (hd : t.Discreet) (hu : (u, y) ∈ t.callsAt p x) :
    y.flags = flagsAt p t x.flags ∧ u.Discreet := by
  induction p generalizing t x with
  | nil =>
    cases List.mem_singleton.1 hu
    exact ⟨rfl, hd⟩
  | cons i p ih =>
    obtain ⟨w, hw, c, z, hc, hu⟩ := mem_callsAt_cons.1 hu
    have hcall := mem_calls hw hc
    obtain ⟨hy, hdiscreet⟩ := ih (hd.call hcall) hu
    refine ⟨?_, hdiscreet⟩
    have hanew := (w.leads.keeps keeps_anew).1 (c, z) hc
    rw [hy, flags_call hd hcall, flagsAt, (watch_at hw).1]
    dsimp only at hanew ⊢
    rw [← flagsAt_anew, hanew, flagsAt_anew]

/-! ## Traces -/

/-- If the ticks that a tick makes leave these traces, the tick leaves them and its own one. -/
theorem traces_of_passes {made : List (Tree H × Stage H)} {ess : List (List LogEntry)}
    (hpasses : (handling tick).Passes (x.raise t.value.behavior.raised) made
      (t.value.behavior.tick (handling tick) t.children x).stage)
    (hflags : (t.value.behavior.tick (handling tick) t.children x).stage.flags =
      x.flags.or t.value.behavior.raised)
    (hess : List.Forall₂ (fun e es =>
      (tick e.1 e.2).stage.scene.traces = e.2.scene.traces.map (es ++ ·)) made ess) :
    (tick t x).stage.scene.traces =
      x.scene.traces.map (t.ownTrace x ++ ess.reverse.flatten ++ ·) := by
  have hbelow := hpasses.traces hess
  have hraise : (x.raise t.value.behavior.raised).scene.traces = x.scene.traces := rfl
  rw [hraise] at hbelow
  obtain ⟨n, cs⟩ := t
  unfold ownTrace
  rw [tick_node]
  simp only [Node.tick, Rose.value, Rose.children] at hflags hbelow ⊢
  cases (n.behavior.tick (handling tick) cs x).outcome with
  | error e => simpa using hbelow
  | ok reported =>
    simp only [Stage.close, hflags]
    by_cases hdebug : (x.flags.or n.behavior.raised).debug
    · simp only [hdebug, if_true]
      refine ((n.behavior.tick (handling tick) cs x).stage.scene.traces_write_debug rfl).trans ?_
      rw [hbelow, Option.map_map]
      rfl
    · simpa [hdebug] using hbelow

theorem traced_tick (hd : t.Discreet) (x : Stage H) :
    ∃ es, Traced t x es ∧ (tick t x).stage.scene.traces = x.scene.traces.map (es ++ ·) := by
  induction t, x using ofCalls with
  | h t x ih =>
    obtain ⟨made, hpasses, hperm⟩ := exists_passes hd x
    have hflags := (flags_of_calls (x := x) hd fun e he => flags_tick_discreet (hd.call he) e.2).1
    have hess : ∃ ess, List.Forall₂ (fun e es => Traced e.1 e.2 es ∧
        (tick e.1 e.2).stage.scene.traces = e.2.scene.traces.map (es ++ ·)) made ess := by
      refine exists_forall₂_iff.2 fun e he => ?_
      have hcall := hperm.mem_iff.2 he
      exact ih e hcall (hd.call hcall)
    obtain ⟨ess, hess⟩ := hess
    exact ⟨_, .tick hperm (hess.imp fun _ _ h => h.1),
      traces_of_passes hpasses hflags (hess.imp fun _ _ h => h.2)⟩

/-- Every tick that a tick of a tree makes, at any depth, finds the flags that the top found and those
that the roots above it raise, and leaves the flags as it found them. If a log is attached, the tick
leaves in it one trace of each completed tick for which the debug flag is up, after the traces of what
that tick made, and no other trace. -/
theorem flags_scoped (hd : t.Discreet) (x : Stage H) :
    (∀ p u y, (u, y) ∈ t.callsAt p x →
      y.flags = flagsAt p t x.flags ∧ (tick u y).stage.flags = y.flags) ∧
    ∃ es, Traced t x es ∧ (tick t x).stage.scene.traces = x.scene.traces.map (es ++ ·) := by
  refine ⟨fun p u y hu => ?_, traced_tick hd x⟩
  obtain ⟨hy, hdiscreet⟩ := flags_of_mem_callsAt hd hu
  exact ⟨hy, flags_tick_discreet hdiscreet y⟩

section Nested

/-- A root that wants to be traced, above an action that succeeds and one that panics, beside a root
that wants to be profiled. -/
def nested : Tree Rehearsal.host :=
  .node (.fresh "p" .parallel "P" {} .nil (.parallel {} .nil))
    [.node (.fresh "traced" .root "Root" {} .nil (.root { debug := true } none))
      [.node (.fresh "s" .sequence "S" {} .nil (.sequence {} {}))
        [acting "steady" (.value .success), acting "broken" (.panic ⟨none⟩)]],
      .node (.fresh "profiled" .root "Root" {} .nil (.root { profiling := true } none))
        [acting "calm" (.value .success)]]

/-- A stage with an empty log. -/
def blank : Stage Rehearsal.host where
  scene := { (Rehearsal.clock 0).scene with log := some [] }
  flags := ⟨false, false⟩
  visits := []

/-- The action below the second root is ticked without the debug flag, which the panic left up. The
one that succeeds is traced before its root, and no other node is. -/
theorem flags_scoped_nested : nested.Discreet ∧
    (∃ u y, (u, y) ∈ nested.callsAt [1, 0] blank ∧ y.flags = ⟨false, true⟩) ∧
    (nested.tick blank).stage.flags = ⟨false, false⟩ ∧
    ∃ es, Traced nested blank es ∧ es.map LogEntry.node = ["traced", "steady"] := by
  have hacting : ∀ id outcome, (acting id outcome).Discreet := by
    intro id outcome
    refine discreet_node.2 ⟨?_, nofun⟩
    rintro f ⟨⟩ flags scene
    rfl
  have hd : nested.Discreet := by
    simp [nested, discreet_node, Node.fresh, Behavior.Discreet, hacting]
  obtain ⟨hcalls, es, htraced, htraces⟩ := flags_scoped hd blank
  refine ⟨hd, ?_, (hcalls [] _ _ (List.mem_singleton_self _)).2, es, htraced, ?_⟩
  · obtain ⟨u, y, hu⟩ : ∃ u y, (u, y) ∈ nested.callsAt [1, 0] blank :=
      ⟨_, _, List.mem_singleton_self _⟩
    exact ⟨u, y, hu, (hcalls [1, 0] u y hu).1⟩
  · have hnodes : (nested.tick blank).stage.scene.traces.map (List.map LogEntry.node) =
        some ["traced", "steady"] := rfl
    rw [htraces] at hnodes
    simpa [blank, Scene.traces] using hnodes

end Nested

end Tree

end Conduct
