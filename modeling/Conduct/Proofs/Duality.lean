import Conduct.Proofs.Duality.Walk
import Conduct.Rehearsal.World
import Mathlib.Data.List.Nodup

/-! Selectors and sequences are dual.

A selector that takes its children as they are stored does what an inverter does over a sequence of
the same children, each in an inverter of its own. Their ticks report the same, tick the children on
stages that are alike and one after the other, and leave the same of them, tick after tick and reset
after reset. Main statement: `InStep.dual`.
-/

set_option autoImplicit false

namespace Conduct.Tree

variable {H : Host} {t u q c w : Tree H} {x y z : Stage H}

/-! ## Below the top -/

/-- The subtrees that are so many levels below the top. -/
def generation : Nat → Tree H → List (Tree H)
  | 0, t => [t]
  | depth + 1, t => t.children.flatMap (generation depth)

/-- The ticks that a tick of a tree makes so many levels below the top: what each subtree is then, and
the stage that it is ticked on. -/
def callsBelow : Nat → Tree H → Stage H → List (Tree H × Stage H)
  | 0, t, x => [(t, x)]
  | depth + 1, t, x => (t.calls x).flatMap fun e => callsBelow depth e.1 e.2

theorem generation_one (t : Tree H) : generation 1 t = t.children := by
  simp only [generation, List.flatMap_singleton']

theorem callsBelow_one (t : Tree H) (x : Stage H) : callsBelow 1 t x = t.calls x :=
  List.flatMap_singleton' _

/-- The same subtree is ticked, on a stage that is alike. -/
def SameCall (e f : Tree H × Stage H) : Prop := e.1 = f.1 ∧ e.2.Alike f.2

theorem InTurn.same {calls calls' : List (Tree H × Stage H)}
    (ht : (handling tick).InTurn x calls z) (hsame : List.Forall₂ SameCall calls calls')
    (hxy : x.Alike y) {z' : Stage H} (hz : z.Alike z') : (handling tick).InTurn y calls' z' := by
  induction hsame generalizing x y with
  | nil =>
    cases ht with
    | done hxz => exact .done ((hxy.symm.trans hxz).trans hz)
  | @cons e f calls calls' hef _ ih =>
    obtain ⟨c, x'⟩ := e
    obtain ⟨d, y'⟩ := f
    obtain ⟨rfl, hef⟩ : c = d ∧ x'.Alike y' := hef
    cases ht with
    | next hxx hrest =>
      exact .next ((hxy.symm.trans hxx).trans hef) (ih hrest (tick_alike c hef).stage)

/-- With the debug flag down, a tick leaves a stage like that of its behavior. -/
theorem alike_tick (hd : x.flags.debug = false)
    (hf : ∀ r, (t.value.behavior.tick (handling tick) t.children x).outcome = .ok r →
      (t.value.behavior.tick (handling tick) t.children x).stage.flags = x.flags) :
    (t.value.behavior.tick (handling tick) t.children x).stage.Alike (tick t x).stage := by
  obtain ⟨n, cs⟩ := t
  rw [tick_node]
  simp only [Node.tick]
  split
  · exact .refl _
  · next r ho => exact .of_close (by rw [hf r ho, hd]) (hf r ho) n _

/-! ## Inverters -/

/-- A tree in an inverter with the usual settings. -/
structure Wraps (c w : Tree H) : Prop where
  behavior : w.value.behavior = .inverter {}
  children : w.children = [c]

namespace Wraps

variable (hw : Wraps c w)

include hw

theorem behavior_tick_eq (y : Stage H) :
    w.value.behavior.tick (handling tick) w.children y =
      ⟨(tick c y).outcome.map (Inverter.turnRound {}), (.inverter {}, [(tick c y).state]),
        (tick c y).stage⟩ := by
  rw [hw.behavior, hw.children]
  rfl

theorem outcome_tick (y : Stage H) :
    (tick w y).outcome = (tick c y).outcome.map Status.invert := by
  rw [Tree.outcome_tick, hw.behavior_tick_eq]
  have hready := tick_ne_ready c y
  cases ho : (tick c y).outcome with
  | error p => rfl
  | ok r =>
    cases r with
    | ready => exact absurd ho hready
    | _ => rfl

theorem tick (y : Stage H) : Wraps (tick c y).state (tick w y).state where
  behavior := by rw [behavior_tick, hw.behavior_tick_eq]
  children := by rw [children_tick, hw.behavior_tick_eq]

theorem stage_tick (hd : y.flags.debug = false) :
    (Tree.tick c y).stage.Alike (Tree.tick w y).stage := by
  have ha := alike_tick (t := w) hd
  rw [hw.behavior_tick_eq] at ha
  refine ha fun r ho => ?_
  cases hc : (Tree.tick c y).outcome with
  | error p =>
    rw [hc] at ho
    cases ho
  | ok r => exact flags_tick hc

theorem reset : Wraps c.reset w.reset where
  behavior := by
    rw [value_reset]
    exact congrArg Behavior.reset hw.behavior
  children := by
    rw [children_reset, hw.children]
    rfl

theorem calls (y : Stage H) : w.calls y = [(c, y)] := by
  unfold Tree.calls Behavior.watch
  rw [hw.behavior, hw.children]
  rfl

end Wraps

/-! ## One tick -/

theorem oneToOne_zip {as bs : List String} (ha : as.Nodup) (hb : bs.Nodup) :
    OneToOne fun a b => (a, b) ∈ as.zip bs := by
  intro a b a' b' h h'
  obtain ⟨i, hi, he⟩ := List.mem_iff_getElem.1 h
  obtain ⟨j, hj, he'⟩ := List.mem_iff_getElem.1 h'
  rw [List.getElem_zip, Prod.mk.injEq] at he he'
  rw [← he.1, ← he.2, ← he'.1, ← he'.2, ha.getElem_inj_iff, hb.getElem_inj_iff]

/-- A watched child and the inverter around it, with the same ticks of the child behind them. -/
structure Abreast (P : String → String → Prop) (v w : Watched (handling (tick (H := H)))) :
    Prop where
  wraps : Wraps v.now w.now
  id : P v.now.id w.now.id
  calls : List.Forall₂ SameCall v.calls (w.calls.flatMap fun e => e.1.calls e.2)

theorem opposed (P : String → String → Prop) :
    (handling (tick (H := H))).watched.Opposed P (Abreast P) (handling tick).watched where
  id h := h.id
  keeps v x := id_tick v.now x
  outcome := by
    intro v w x y h hxy _
    have ho := h.wraps.outcome_tick y
    rw [← (tick_alike v.now hxy).outcome] at ho
    exact ho
  state := by
    intro v w x y h hxy
    refine ⟨?_, ?_, ?_⟩
    · have hw := h.wraps.tick y
      rw [← (tick_alike v.now hxy).state] at hw
      exact hw
    · have hid := h.id
      rw [← id_tick v.now x, ← id_tick w.now y] at hid
      exact hid
    · have hcalls : List.Forall₂ SameCall [(v.now, x)] (w.now.calls y) := by
        rw [h.wraps.calls y]
        exact .cons ⟨rfl, hxy⟩ .nil
      show List.Forall₂ SameCall (v.calls ++ [(v.now, x)])
        ((w.calls ++ [(w.now, y)]).flatMap fun e => e.1.calls e.2)
      rw [List.flatMap_append, List.flatMap_singleton]
      exact List.rel_append h.calls hcalls
  stage := by
    intro v w x y h hxy hd
    exact (tick_alike v.now hxy).stage.trans (h.wraps.stage_tick (by rw [← hxy.flags, hd]))
  flags := flags_tick

/-- A selector over children, and an inverter over a sequence over inverters around the same
children. -/
structure Mirrored (run : Selector.Run) (run' : Sequence.Run) (t q u : Tree H) : Prop where
  selector : ∃ s g, s.executionOrder = .sequential ∧ t.value.behavior = .selector s run g
  distinct : (t.children.map Tree.id).Nodup
  inverter : Wraps q u
  sequence : q.value.behavior = .sequence {} run'
  apart : (q.children.map Tree.id).Nodup
  wraps : List.Forall₂ Wraps t.children q.children

/-- A child and the inverter around it have these ids. -/
def Together (t q : Tree H) (a b : String) : Prop :=
  (a, b) ∈ (t.children.map Tree.id).zip (q.children.map Tree.id)

/-- Trees that mirror each other and remember the same. -/
def Dual (t u : Tree H) : Prop :=
  ∃ q run run', Mirrored run run' t q u ∧
    (run.planned = true → run.order = t.children.map Tree.id) ∧ Matched (Together t q) run run'

theorem abreast_of {t q : Tree H} (hW : List.Forall₂ Wraps t.children q.children) :
    List.Forall₂ (Abreast (Together t q)) (t.children.map (Watched.of (handling tick)))
      (q.children.map (Watched.of (handling tick))) := by
  obtain ⟨hlength, hall⟩ := List.forall₂_iff_zip.1 hW
  refine List.forall₂_map_left_iff.2 (List.forall₂_map_right_iff.2 (List.forall₂_iff_zip.2
    ⟨hlength, fun hmem => ⟨hall hmem, ?_, .nil⟩⟩))
  have hids := List.mem_map_of_mem (f := Prod.map Tree.id Tree.id) hmem
  rw [← List.zip_map] at hids
  exact hids

theorem prepare_sequential {s : Selector.Settings} {run : Selector.Run} {ids : List String}
    (hs : s.executionOrder = .sequential) (ho : run.planned = true → run.order = ids)
    (g : Random.Generator) :
    Selector.prepare s run ids g = ({ run with order := ids, planned := true }, g) := by
  have hplan : Selector.plan s ids g = (ids, g) := by
    unfold Selector.plan
    rw [hs]
  have hsame : Selector.extend ids ids = ids := Selector.extend_of_mem fun _ h => h
  unfold Selector.prepare
  cases hp : run.planned with
  | true =>
    rw [if_pos rfl, ho hp]
    dsimp only
    rw [hsame]
  | false =>
    rw [if_neg Bool.false_ne_true, hplan]
    dsimp only
    rw [hsame]

/-- What the behaviors of a selector and of a sequence that mirrors it come to with watched children. -/
structure SideBySide (t q : Tree H) (x y : Stage H) : Prop where
  outcome : (q.value.behavior.tick (handling tick) q.children y).outcome =
    (t.value.behavior.tick (handling tick) t.children x).outcome.map Status.invert
  stage : (t.value.behavior.tick (handling tick) t.children x).stage.Alike
    (q.value.behavior.tick (handling tick) q.children y).stage
  flags : ∀ r, (t.value.behavior.tick (handling tick) t.children x).outcome = .ok r →
    (t.value.behavior.tick (handling tick) t.children x).stage.flags = x.flags
  watch : List.Forall₂ (Abreast (Together t q))
    (t.value.behavior.watch (handling tick) t.children x)
    (q.value.behavior.watch (handling tick) q.children y)
  inTurn : (handling tick).InTurn x (t.calls x)
    (t.value.behavior.tick (handling tick) t.children x).stage
  remembers : ∃ s g run run', s.executionOrder = .sequential ∧
    (t.value.behavior.tick (handling tick) t.children x).state.1 = .selector s run g ∧
    (q.value.behavior.tick (handling tick) q.children y).state.1 = .sequence {} run' ∧
    (run.planned = true → run.order = t.children.map Tree.id) ∧ Matched (Together t q) run run'

theorem ids_watched (cs : List (Tree H)) :
    (cs.map (Watched.of (handling tick))).map (handling tick).watched.id = cs.map Tree.id :=
  Handling.map_id_watched (handling tick) cs

section Watching

variable {run : Selector.Run} {run' : Sequence.Run} (m : Mirrored run run' t q u)

include m

/-- A selector in order goes along its children as they are stored. -/
theorem Mirrored.tick_selector (ho : run.planned = true → run.order = t.children.map Tree.id)
    (x : Stage H) : ∃ s g, s.executionOrder = .sequential ∧
      t.value.behavior.tick (handling tick).watched (t.children.map (Watched.of (handling tick))) x =
        (Selector.walk (handling tick).watched
          { run with order := t.children.map Tree.id, planned := true }
          ((t.children.map (Watched.of (handling tick))).map (handling tick).watched.id)
          ([] ++ t.children.map (Watched.of (handling tick))) x).map fun (run, cs) =>
            (.selector s run g, cs) := by
  obtain ⟨s, g, hs, hb⟩ := m.selector
  refine ⟨s, g, hs, ?_⟩
  rw [hb, ids_watched, List.nil_append]
  simp only [Behavior.tick, Selector.tick]
  rw [ids_watched, prepare_sequential hs ho g]
  rfl

theorem Mirrored.sideBySide (ho : run.planned = true → run.order = t.children.map Tree.id)
    (hm : Matched (Together t q) run run') (hxy : x.Alike y) (hd : x.flags.debug = false) :
    SideBySide t q x y := by
  have hfresh : ∀ w ∈ t.children.map (Watched.of (handling tick)), w.calls = [] := by
    rintro w hw
    obtain ⟨c, -, rfl⟩ := List.mem_map.1 hw
    rfl
  have hnodup : (([] ++ t.children.map (Watched.of (handling tick))).map
      (handling tick).watched.id).Nodup := by
    rw [List.nil_append, ids_watched]
    exact m.distinct
  have hm : Matched (Together t q)
      { run with order := t.children.map Tree.id, planned := true } run' :=
    ⟨hm.completed, hm.cursor, hm.unfailed⟩
  have hturned := walk_opposed (opposed (Together t q)) (oneToOne_zip m.distinct m.apart) _ _ hm []
    _ _ (abreast_of m.wraps) hnodup x y hxy hd
  obtain ⟨rest, hrest, hturn⟩ := Selector.walk_inTurn (h := handling tick) id_tick
    { run with order := t.children.map Tree.id, planned := true } [] _ hnodup hfresh x
  obtain ⟨s, g, hs, htick⟩ := m.tick_selector ho x
  obtain ⟨hot, hbt, -, hst⟩ := Behavior.tick_watched (handling tick) t.value.behavior t.children x
  obtain ⟨hoq, hbq, -, hsq⟩ := Behavior.tick_watched (handling tick) q.value.behavior q.children y
  have hwatch : t.value.behavior.watch (handling tick) t.children x = rest := by
    unfold Behavior.watch
    rw [htick]
    exact hrest
  obtain ⟨more, hmore, hW⟩ := hturned.children
  rw [m.sequence] at hoq hbq hsq
  rw [htick] at hot hbt hst
  refine ⟨?_, ?_, ?_, ?_, ?_, s, g, _, _, hs, hbt.symm, ?_, hturned.order, hturned.matched⟩
  · rw [m.sequence, ← hot, ← hoq]
    exact hturned.outcome
  · rw [m.sequence, ← hst, ← hsq]
    exact hturned.stage
  · rw [← hot, ← hst]
    exact hturned.flags
  · have hsame : more = rest := hmore.symm.trans hrest
    unfold Behavior.watch
    rw [htick, m.sequence]
    exact hrest ▸ hsame ▸ hW
  · rw [← hst]
    unfold calls
    rw [hwatch]
    exact hturn
  · rw [m.sequence]
    exact hbq.symm

end Watching

theorem SideBySide.outcome_tick (sb : SideBySide t q x y) (hu : Wraps q u) :
    (tick t x).outcome = (tick u y).outcome := by
  rw [hu.outcome_tick, Tree.outcome_tick, Tree.outcome_tick, sb.outcome]
  cases (t.value.behavior.tick (handling tick) t.children x).outcome with
  | error p => rfl
  | ok r =>
    cases r with
    | _ => rfl

theorem SideBySide.stage_tick (sb : SideBySide t q x y) (hu : Wraps q u) (hxy : x.Alike y)
    (hd : x.flags.debug = false) :
    (t.value.behavior.tick (handling tick) t.children x).stage.Alike (tick t x).stage ∧
      (tick t x).stage.Alike (tick u y).stage := by
  have hdy : y.flags.debug = false := by rw [← hxy.flags, hd]
  have hflags : ∀ r, (q.value.behavior.tick (handling tick) q.children y).outcome = .ok r →
      (q.value.behavior.tick (handling tick) q.children y).stage.flags = y.flags := by
    intro r hr
    rw [sb.outcome] at hr
    cases ho : (t.value.behavior.tick (handling tick) t.children x).outcome with
    | error p =>
      rw [ho] at hr
      cases hr
    | ok r' => rw [← sb.stage.flags, sb.flags r' ho, hxy.flags]
  have ht := alike_tick hd sb.flags
  have hq := alike_tick hdy hflags
  exact ⟨ht, ((ht.symm.trans sb.stage).trans hq).trans (hu.stage_tick hdy)⟩

theorem ids_children_tick (t : Tree H) (x : Stage H) :
    (tick t x).state.children.map Tree.id = t.children.map Tree.id := by
  rw [children_tick]
  exact Behavior.map_tick keeps_id t.value.behavior t.children x

theorem SideBySide.wraps (sb : SideBySide t q x y) :
    List.Forall₂ Wraps (tick t x).state.children (tick q y).state.children := by
  obtain ⟨-, -, hnt, -⟩ := Behavior.tick_watched (handling tick) t.value.behavior t.children x
  obtain ⟨-, -, hnq, -⟩ := Behavior.tick_watched (handling tick) q.value.behavior q.children y
  rw [children_tick, children_tick, ← hnt, ← hnq]
  exact List.forall₂_map_left_iff.2 (List.forall₂_map_right_iff.2 (sb.watch.imp fun _ _ h => h.wraps))

theorem SideBySide.calls (sb : SideBySide t q x y) (hu : Wraps q u) :
    List.Forall₂ SameCall (callsBelow 1 t x) (callsBelow 3 u y) := by
  have hbelow : callsBelow 3 u y = (q.value.behavior.watch (handling tick) q.children y).flatMap
      fun w => w.calls.flatMap fun e => e.1.calls e.2 := by
    rw [← List.flatMap_assoc, callsBelow, hu.calls, List.flatMap_singleton, callsBelow]
    simp only [callsBelow_one]
    rfl
  rw [callsBelow_one, hbelow]
  exact List.rel_flatMap sb.watch fun _ _ h => h.calls

/-! ## Histories -/

/-- A selector in order and its mirror, since they were made, ticked on stages that are alike, with
the debug flag down, and reset. -/
inductive InStep : Tree H → Tree H → Prop
  | made {t q u : Tree H} (m : Mirrored {} {} t q u) : InStep t u
  | ticked {t u : Tree H} (d : InStep t u) {x y : Stage H} (hxy : x.Alike y)
      (hd : x.flags.debug = false) : InStep (tick t x).state (tick u y).state
  | reset {t u : Tree H} (d : InStep t u) : InStep t.reset u.reset

theorem Dual.ticked (d : Dual t u) (hxy : x.Alike y) (hd : x.flags.debug = false) :
    Dual (tick t x).state (tick u y).state := by
  obtain ⟨q, run, run', m, ho, hm⟩ := d
  have sb := m.sideBySide ho hm hxy hd
  obtain ⟨s, g, next, next', hs, hb, hq, ho, hm⟩ := sb.remembers
  have htogether : Together (tick t x).state (tick q y).state = Together t q := by
    unfold Together
    rw [ids_children_tick, ids_children_tick]
  refine ⟨(tick q y).state, next, next', ?_, ?_, htogether ▸ hm⟩
  · refine ⟨⟨s, g, hs, ?_⟩, ?_, m.inverter.tick y, ?_, ?_, sb.wraps⟩
    · rw [behavior_tick, hb]
    · rw [ids_children_tick]
      exact m.distinct
    · rw [behavior_tick, hq]
    · rw [ids_children_tick]
      exact m.apart
  · rw [ids_children_tick]
    exact ho

theorem ids_children_reset (t : Tree H) :
    t.reset.children.map Tree.id = t.children.map Tree.id := by
  rw [children_reset, List.map_map]
  exact List.map_congr_left fun c _ => id_reset c

theorem Mirrored.reset {run : Selector.Run} {run' : Sequence.Run} (m : Mirrored run run' t q u) :
    Mirrored {} {} t.reset q.reset u.reset := by
  obtain ⟨s, g, hs, hb⟩ := m.selector
  refine ⟨⟨s, g, hs, ?_⟩, ?_, m.inverter.reset, ?_, ?_, ?_⟩
  · rw [value_reset]
    exact congrArg Behavior.reset hb
  · rw [ids_children_reset]
    exact m.distinct
  · rw [value_reset]
    exact congrArg Behavior.reset m.sequence
  · rw [ids_children_reset]
    exact m.apart
  · rw [children_reset, children_reset]
    exact List.forall₂_map_left_iff.2 (List.forall₂_map_right_iff.2
      (m.wraps.imp fun _ _ h => h.reset))

theorem InStep.all (d : InStep t u) : Dual t u := by
  induction d with
  | made m => exact ⟨_, _, _, m, nofun, matched_nil⟩
  | ticked _ hxy hd ih => exact ih.ticked hxy hd
  | reset _ ih =>
    obtain ⟨q, run, run', m, -, -⟩ := ih
    exact ⟨_, _, _, m.reset, nofun, matched_nil⟩

/-! ## What the children undergo -/

theorem notice_eq (t : Tree H) (s : H.State) : t.notice s =
    t.children.foldl (fun s c => notice c s) (t.value.behavior.notice s) := by
  obtain ⟨n, cs⟩ := t
  unfold notice
  rw [Rose.preorder_node, List.foldl_cons, List.foldl_flatMap]
  rfl

theorem Wraps.notice (hw : Wraps c w) (s : H.State) : w.notice s = c.notice s := by
  rw [notice_eq, hw.behavior, hw.children]
  rfl

theorem foldl_notice {cs ws : List (Tree H)} (hW : List.Forall₂ Wraps cs ws) (s : H.State) :
    ws.foldl (fun s w => Tree.notice w s) s = cs.foldl (fun s c => Tree.notice c s) s := by
  induction hW generalizing s with
  | nil => rfl
  | cons hw _ ih => rw [List.foldl_cons, List.foldl_cons, hw.notice, ih]

theorem flatMap_children {cs ws : List (Tree H)} (hW : List.Forall₂ Wraps cs ws) :
    ws.flatMap Rose.children = cs := by
  induction hW with
  | nil => rfl
  | cons hw _ ih => rw [List.flatMap_cons, hw.children, ih, List.singleton_append]

theorem Dual.generation (d : Dual t u) : generation 1 t = generation 3 u := by
  obtain ⟨q, _, _, m, -, -⟩ := d
  have hbelow : Tree.generation 3 u = q.children.flatMap Rose.children := by
    rw [Tree.generation, m.inverter.children, List.flatMap_singleton, Tree.generation]
    exact congrArg (q.children.flatMap ·) (funext generation_one)
  rw [hbelow, generation_one, flatMap_children m.wraps]

theorem Dual.notice (d : Dual t u) (s : H.State) : t.notice s = u.notice s := by
  obtain ⟨q, _, _, m, -, -⟩ := d
  obtain ⟨_, _, _, hb⟩ := m.selector
  rw [m.inverter.notice, notice_eq t, notice_eq q, m.sequence, hb, foldl_notice m.wraps]
  rfl

/-- A selector over children in their order, and an inverter over a sequence over the same children in
inverters, report the same at every tick, or panic with the same. They tick the same of the
children as often, on stages that are alike and one after the other, and leave alike stages behind.
What they make of the children is the same at all times, and so is what is noticed of a reset. -/
theorem InStep.dual (d : InStep t u) (hxy : x.Alike y) (hd : x.flags.debug = false) :
    (tick t x).outcome = (tick u y).outcome ∧ (tick t x).stage.Alike (tick u y).stage ∧
      List.Forall₂ SameCall (callsBelow 1 t x) (callsBelow 3 u y) ∧
      (handling tick).InTurn x (callsBelow 1 t x) (tick t x).stage ∧
      (handling tick).InTurn y (callsBelow 3 u y) (tick u y).stage ∧
      generation 1 t = generation 3 u ∧
      generation 1 (tick t x).state = generation 3 (tick u y).state ∧
      ∀ s, t.notice s = u.notice s := by
  obtain ⟨q, run, run', m, ho, hm⟩ := d.all
  have sb := m.sideBySide ho hm hxy hd
  obtain ⟨ht, htu⟩ := sb.stage_tick m.inverter hxy hd
  have hcalls := sb.calls m.inverter
  have hturn : (handling tick).InTurn x (callsBelow 1 t x) (tick t x).stage := by
    rw [callsBelow_one]
    exact sb.inTurn.ends ht
  exact ⟨sb.outcome_tick m.inverter, htu, hcalls, hturn, InTurn.same hturn hcalls hxy htu,
    d.all.generation, (d.all.ticked hxy hd).generation, d.all.notice⟩

/-! ## A child that takes two ticks -/

section Slow

/-- A leaf that is running at its first tick and fails at all others. -/
def slow (id : String) : Tree Rehearsal.host :=
  .node (.fresh id .action "Slow" {} .nil (.extension { answer := fun played _ scene =>
    (.value (if played = 0 then .running else .failure), scene) } 0)) []

def inverted (c : Tree Rehearsal.host) : Tree Rehearsal.host :=
  .node (.fresh ("not " ++ c.id) .inverter "Inverter" {} .nil (.inverter {})) [c]

def choice : Tree Rehearsal.host :=
  .node (.fresh "choice" .selector "Selector" {} .nil (.selector {} {} (.ofSeed 0)))
    [slow "a", slow "b"]

def mirror : Tree Rehearsal.host :=
  inverted (.node (.fresh "all" .sequence "Sequence" {} .nil (.sequence {} {}))
    [inverted (slow "a"), inverted (slow "b")])

/-- In the second tick both go on with the child that was running, and come to the next one. -/
theorem dual_slow :
    ∃ t u, InStep t u ∧ (tick t (Rehearsal.clock 1)).outcome = (tick u (Rehearsal.clock 1)).outcome ∧
      (callsBelow 3 u (Rehearsal.clock 1)).map (fun e => e.1.id) = ["a", "b"] := by
  have hmade : Mirrored {} {} choice (.node (.fresh "all" .sequence "Sequence" {} .nil
      (.sequence {} {})) [inverted (slow "a"), inverted (slow "b")]) mirror :=
    ⟨⟨{}, .ofSeed 0, rfl, rfl⟩, by decide, ⟨rfl, rfl⟩, rfl, by decide,
      .cons ⟨rfl, rfl⟩ (.cons ⟨rfl, rfl⟩ .nil)⟩
  have d := (InStep.made hmade).ticked (.refl (Rehearsal.clock 0)) rfl
  obtain ⟨ho, -, hcalls, -⟩ := d.dual (.refl (Rehearsal.clock 1)) rfl
  refine ⟨_, _, d, ho, ?_⟩
  have hids := List.forall₂_map_left_iff.2 (List.forall₂_map_right_iff.2
    (hcalls.imp fun _ _ h => congrArg Tree.id h.1))
  rw [List.forall₂_eq_eq_eq] at hids
  exact hids.symm

end Slow

end Conduct.Tree
