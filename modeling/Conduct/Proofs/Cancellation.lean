import Conduct.Proofs.Cancellation.Parallel
import Conduct.Proofs.CleanRuns
import Conduct.Proofs.Ids

/-! Running children are cancelled.

A parallel that is told to abort when a run fails then resets every child that is running, but for
those that no tick of the run has come to: they are running since an earlier run, which succeeded
without waiting for them. Main statements: `Tree.cancels_or_spares` and
`RootedTree.Ran.cancels`.
-/

set_option autoImplicit false

namespace Conduct

variable {H : Host}

namespace Tree

open Parallel (Knows Advanced stopped)

variable {t u a c : Tree H} {x y : Stage H} {p : Position}

/-! ## What parallels know in a tree -/

/-- If the node is a parallel, what it knows of its children is right. -/
def InformedNode (n : Node H) (cs : List (Tree H)) : Prop :=
  ∀ s results, n.behavior = .parallel s results → ∀ c ∈ cs, Knows id status s results c

/-- All parallels in the tree know their children. -/
def Informed (t : Tree H) : Prop := t.Everywhere InformedNode

theorem Informed.knows {s : Parallel.Settings} {results : Parallel.Results} (ht : t.Informed)
    (hb : t.value.behavior = .parallel s results) (hc : c ∈ t.children) :
    Knows id status s results c := by
  obtain ⟨n, cs⟩ := t
  exact (Rose.everywhere_node.1 ht).1 s results hb c hc

theorem Informed.child (ht : t.Informed) (hc : c ∈ t.children) : c.Informed := by
  obtain ⟨n, cs⟩ := t
  exact (Rose.everywhere_node.1 ht).2 c hc

theorem shows : (handling (tick (H := H))).Shows status where
  keeps := keeps_id
  ticked t x r ho := by
    refine ⟨?_, fun hr => tick_ne_ready t x (hr ▸ ho)⟩
    obtain ⟨n, cs⟩ := t
    have ho : (tick (.node n cs) x).outcome = .ok r := ho
    show (tick (.node n cs) x).state.status = r
    rw [tick_node] at ho ⊢
    simp only [Node.tick] at ho ⊢
    split at ho
    · cases ho
    · exact Except.ok.inj ho
  unwound t x p ho := by
    obtain ⟨n, cs⟩ := t
    have ho : (tick (.node n cs) x).outcome = .error p := ho
    show (tick (.node n cs) x).state.status = n.status
    rw [tick_node] at ho ⊢
    simp only [Node.tick] at ho ⊢
    split at ho
    · rfl
    · cases ho
  reset t hr := by
    have hready : ((handling (tick (H := H))).reset t).status = .ready := status_reset t
    rw [hready] at hr
    cases hr

/-- Before a run begins, parallels have nothing to know. -/
theorem informed_of_rested
    (h : t.Everywhere fun n _ => n.behavior.reset = n.behavior ∧ n.status ≠ .running) :
    t.Informed := by
  induction t using Rose.ofChildren with
  | h n cs ih =>
    obtain ⟨⟨hreset, -⟩, hcs⟩ := Rose.everywhere_node.1 h
    refine Rose.everywhere_node.2 ⟨fun s results hb c hc => ?_, fun c hc => ih c hc (hcs c hc)⟩
    rw [hb] at hreset
    cases hreset
    obtain ⟨m, ds⟩ := c
    exact Parallel.knows_of_still (Rose.everywhere_node.1 (hcs _ hc)).1.2

theorem informed_reset (t : Tree H) : t.reset.Informed := by
  apply informed_of_rested
  unfold reset
  rw [Rose.everywhere_map]
  induction t using Rose.ofChildren with
  | h n cs ih => exact Rose.everywhere_node.2 ⟨⟨n.behavior.reset_reset, nofun⟩, ih⟩

theorem nodup_map_id (h : t.ids.Nodup) : (t.children.map id).Nodup := by
  obtain ⟨n, cs⟩ := t
  rw [ids_node, List.nodup_cons] at h
  exact h.2.sublist (sublist_flatMap_ids cs)

theorem ids_of_mem_calls {e : Tree H × Stage H} (hids : t.ids.Nodup) (he : e ∈ t.calls x) :
    e.1.ids.Nodup := by
  obtain ⟨n, cs⟩ := t
  obtain ⟨c, hc, hanew⟩ := anew_of_mem_calls he
  rw [← ids_anew, hanew, ids_anew]
  exact nodup_ids_of_mem hids hc

theorem informed_calls {w : Watched (handling (tick (H := H)))} {i : Nat} (ht : t.Informed)
    (hw : (t.value.behavior.watch (handling tick) t.children x)[i]? = some w)
    (htick : ∀ e ∈ t.calls x, e.1.Informed → (tick e.1 e.2).state.Informed) :
    (∀ e ∈ w.calls, e.1.Informed) ∧ w.now.Informed := by
  have hfirst := ht.child (List.mem_of_getElem? (watch_at hw).1)
  exact w.leads.upholds hfirst (fun e he => htick e (mem_calls hw he)) fun d _ => informed_reset d

theorem informed_tick (hids : t.ids.Nodup) (ht : t.Informed) (x : Stage H) :
    (tick t x).state.Informed := by
  induction t, x using ofCalls with
  | h t x ih =>
    have hchildren : ∀ d ∈ (tick t x).state.children, Informed d := by
      intro d hd
      obtain ⟨-, -, hnow, -⟩ := Behavior.tick_watched (handling tick) t.value.behavior t.children x
      rw [children_tick, ← hnow] at hd
      obtain ⟨w, hw, rfl⟩ := List.mem_map.1 hd
      obtain ⟨i, hi⟩ := List.mem_iff_getElem?.1 hw
      exact (informed_calls ht hi fun e he => ih e he (ids_of_mem_calls hids he)).2
    have hnode : InformedNode (tick t x).state.value (tick t x).state.children := by
      intro s results hb
      rw [behavior_tick] at hb
      rw [children_tick]
      cases hbehavior : t.value.behavior with
      | parallel s' results' =>
        rw [hbehavior] at hb
        cases hb
        have hknows : ∀ c ∈ t.children, Knows id status s results' c :=
          fun c hc => ht.knows hbehavior hc
        exact Parallel.tick_knows shows (nodup_map_id hids) hknows x
      | _ =>
        rw [hbehavior] at hb
        cases hb
    generalize (tick t x).state = u at hchildren hnode
    obtain ⟨n, cs⟩ := u
    exact Rose.everywhere_node.2 ⟨hnode, hchildren⟩

theorem informed_of_mem_callsAt (hids : t.ids.Nodup) (ht : t.Informed)
    (ha : (a, y) ∈ t.callsAt p x) : a.Informed ∧ a.ids.Nodup := by
  induction p generalizing t x with
  | nil =>
    cases List.mem_singleton.1 ha
    exact ⟨ht, hids⟩
  | cons i p ih =>
    obtain ⟨w, hw, c, z, hc, ha⟩ := mem_callsAt_cons.1 ha
    have hcalls := informed_calls ht hw fun e he hinformed =>
      informed_tick (ids_of_mem_calls hids he) hinformed e.2
    exact ih (ids_of_mem_calls hids (mem_calls hw hc)) (hcalls.1 (c, z) hc) ha

/-! ## Children that are left over -/

/-- A child of a parallel is left over in a tick: it is running, but the run under way knows nothing of
it, and the tick does not come to it. -/
def LeftOver (t : Tree H) (x : Stage H) (results : Parallel.Results) (i : Nat) (c : Tree H) : Prop :=
  c.status = .running ∧ results.get? c.id = none ∧ t.callsAt [i] x = []

theorem callsAt_single {w : Watched (handling (tick (H := H)))} {i : Nat}
    (hw : (t.value.behavior.watch (handling tick) t.children x)[i]? = some w) :
    t.callsAt [i] x = w.calls := by
  rw [callsAt, hw]
  exact List.flatMap_singleton' w.calls

/-- A tick that cancels goes over the child at an index and then stops it, if it is known to run. -/
theorem exists_stopped (hids : a.ids.Nodup) {s : Parallel.Settings} {results : Parallel.Results}
    (hb : a.value.behavior = .parallel s results) (hs : s.abortOnFailure = true) {r : Status}
    (ho : (a.tick y).outcome = .ok r) (hr : r = .failure ∨ r = .error) {i : Nat}
    (hc : a.children[i]? = some c) :
    ∃ results' w, Advanced (handling tick).watched (s.maxConcurrency ≠ none) False results results'
        (.of (handling tick) c) w ∧
      a.callsAt [i] y = w.calls ∧
      (a.tick y).state.children[i]? = some (stopped (handling tick) results' w.now) := by
  obtain ⟨hwatched, -⟩ := Behavior.tick_watched (handling tick) a.value.behavior a.children y
  have hwatch : a.value.behavior.watch (handling tick) a.children y =
      (Parallel.tick (handling tick).watched s results (a.children.map (Watched.of (handling tick)))
        y).state.2 := by
    rw [hb]
    rfl
  obtain ⟨r', ho', hsettled⟩ : ∃ r', (Parallel.tick (handling tick).watched s results
      (a.children.map (Watched.of (handling tick))) y).outcome = .ok r' ∧ r'.settled = r := by
    rw [outcome_tick] at ho
    obtain ⟨r', hr', hsettled⟩ := map_eq_ok ho
    rw [hb] at hwatched hr'
    exact ⟨r', hwatched.trans hr', hsettled⟩
  have hne : r' ≠ .running ∧ r' ≠ .success := by
    constructor
    · rintro rfl
      subst hsettled
      simp [Status.settled] at hr
    · rintro rfl
      subst hsettled
      simp [Status.settled] at hr
  have hnodup :
      ((a.children.map (Watched.of (handling tick))).map (handling tick).watched.id).Nodup := by
    rw [Handling.map_id_watched]
    exact nodup_map_id hids
  obtain ⟨results', ds, hds, hstate⟩ := Parallel.tick_cancels hnodup hs ho' hne.1 hne.2
  have hfirst : (a.children.map (Watched.of (handling tick)))[i]? = some (.of (handling tick) c) := by
    rw [List.getElem?_map, hc, Option.map_some]
  obtain ⟨w, hwds, hadvanced⟩ := forall₂_getElem? hds hfirst
  have hw : (a.value.behavior.watch (handling tick) a.children y)[i]? =
      some (stopped (handling tick).watched results' w) := by
    rw [hwatch, hstate, List.getElem?_map, hwds, Option.map_some]
  obtain ⟨hcalls, hnow⟩ := Parallel.stopped_watched (handling tick) results' w
  have hcallsAt := callsAt_single hw
  have hchild := (watch_at hw).2
  rw [hcalls] at hcallsAt
  rw [hnow] at hchild
  exact ⟨results', w, hadvanced, hcallsAt, hchild⟩

/-- What is known of a child after the ticks says if it is to be stopped. -/
theorem known_iff {s : Parallel.Settings} {results results' : Parallel.Results} {capped : Prop}
    {w : Watched (handling (tick (H := H)))} {i : Nat} (hknows : Knows id status s results c)
    (hadvanced : Advanced (handling tick).watched capped False results results'
      (.of (handling tick) c) w) (hcalls : a.callsAt [i] y = w.calls) :
    results'.get? w.now.id = some .running ↔
      w.now.status = .running ∧ ¬ a.LeftOver y results i c := by
  cases hadvanced with
  | unwound z ho' hcut hget => exact hcut.elim
  | @ticked z q ho' hget =>
    have hcalls : a.callsAt [i] y = [(c, z)] := hcalls
    have hget : results'.get? c.id = some q := hget
    have hstatus : (c.tick z).state.status = q := (shows.ticked c z q ho').1
    have hleft : ¬ a.LeftOver y results i c := by
      rintro ⟨-, -, hnone⟩
      rw [hcalls] at hnone
      cases hnone
    show results'.get? (c.tick z).state.id = _ ↔ (c.tick z).state.status = _ ∧ _
    rw [id_tick, hget, hstatus, and_iff_left hleft, Option.some.injEq]
  | left hleft hget =>
    have hcalls : a.callsAt [i] y = [] := hcalls
    have hget : results'.get? c.id = results.get? c.id := hget
    show results'.get? c.id = _ ↔ c.status = _ ∧ _
    rw [hget]
    constructor
    · intro hrunning
      refine ⟨hknows.told _ hrunning, ?_⟩
      rintro ⟨-, hnone, -⟩
      rw [hrunning] at hnone
      cases hnone
    · rintro ⟨hrunning, hnot⟩
      cases hreport : results.get? c.id with
      | none => exact absurd ⟨hrunning, hreport, hcalls⟩ hnot
      | some q => rw [← hknows.told q hreport, hrunning]

theorem LeftOver.spared {s : Parallel.Settings} {results results' : Parallel.Results} {capped : Prop}
    {w : Watched (handling (tick (H := H)))} {i : Nat} (hl : a.LeftOver y results i c)
    (hknows : Knows id status s results c) (hs : s.abortOnFailure = true)
    (hadvanced : Advanced (handling tick).watched capped False results results'
      (.of (handling tick) c) w) (hcalls : a.callsAt [i] y = w.calls) :
    w.now = c ∧ capped ∧ s.Hasty := by
  obtain ⟨hrunning, hnone, hno⟩ := hl
  rw [hno] at hcalls
  cases hadvanced with
  | unwound z ho' hcut hget => exact hcut.elim
  | ticked z ho' hget => cases hcalls
  | left hleft hget =>
    refine ⟨rfl, ?_, ?_⟩
    · rcases hleft with hcapped | hcut | hfinished
      · exact hcapped
      · exact hcut.elim
      · have hfinished : Parallel.finished results c.id = true := hfinished
        rw [Parallel.finished, hnone] at hfinished
        cases hfinished
    · by_contra hslow
      have htracked := hknows.tracks hs hslow hrunning
      rw [hnone] at htracked
      cases htracked

/-- When a parallel that aborts has failed, a child is running if and only if it is left over. Any
other child that was running after its tick, or without one, is reset. -/
theorem cancels_or_spares (hids : a.ids.Nodup) (ha : a.Informed) {s : Parallel.Settings}
    {results : Parallel.Results} (hb : a.value.behavior = .parallel s results)
    (hs : s.abortOnFailure = true) {r : Status} (ho : (a.tick y).outcome = .ok r)
    (hr : r = .failure ∨ r = .error) {i : Nat} (hc : a.children[i]? = some c) :
    ∃ d c' : Tree H,
      (a.callsAt [i] y = [] ∧ d = c ∨ ∃ z, a.callsAt [i] y = [(c, z)] ∧ d = (c.tick z).state) ∧
      (a.tick y).state.children[i]? = some c' ∧
      (c'.status = .running ↔ a.LeftOver y results i c) ∧
      (d.status ≠ .running → c' = d) ∧
      (d.status = .running → ¬ a.LeftOver y results i c → c' = d.reset) ∧
      (a.LeftOver y results i c → s.maxConcurrency ≠ none ∧ s.Hasty) := by
  obtain ⟨results', w, hadvanced, hcalls, hchild⟩ := exists_stopped hids hb hs ho hr hc
  have hknows := ha.knows hb (List.mem_of_getElem? hc)
  have hstop := known_iff hknows hadvanced hcalls
  have hspared := fun hl : a.LeftOver y results i c => hl.spared hknows hs hadvanced hcalls
  have hreset : w.now.status = .running ∧ ¬ a.LeftOver y results i c →
      stopped (handling tick) results' w.now = w.now.reset := fun h => if_pos (hstop.2 h)
  have hkept : ¬ (w.now.status = .running ∧ ¬ a.LeftOver y results i c) →
      stopped (handling tick) results' w.now = w.now := fun h => if_neg (mt hstop.1 h)
  refine ⟨w.now, _, ?_, hchild, ⟨fun hrunning => ?_, fun hl => ?_⟩, fun hne => hkept (hne ·.1),
    fun hrunning hnot => hreset ⟨hrunning, hnot⟩, fun hl => (hspared hl).2⟩
  · cases hadvanced with
    | unwound z ho' hcut hget => exact hcut.elim
    | ticked z ho' hget => exact .inr ⟨z, hcalls, rfl⟩
    | left hleft hget => exact .inl ⟨hcalls, rfl⟩
  · by_contra hnot
    by_cases hr : w.now.status = .running
    · rw [hreset ⟨hr, hnot⟩] at hrunning
      exact shows.reset _ hrunning
    · rw [hkept (hr ·.1)] at hrunning
      exact hr hrunning
  · rw [hkept (·.2 hl), (hspared hl).1]
    exact hl.1

end Tree

/-- If the builders of a host build behaviors that remember nothing, all that is built does so. -/
theorem Catalog.reset_of_build {catalog : Catalog H} {kind : Kind} {properties : Properties}
    {b : Behavior H} (hc : ∀ e ∈ catalog.builders, ∀ properties b, e.2 properties = .ok b → b.reset = b)
    (h : catalog.build kind properties = .ok b) : b.reset = b := by
  unfold build at h
  split at h
  · next builder hlookup =>
    obtain ⟨before, after, hsplit, -⟩ := List.lookup_eq_some_iff.1 hlookup
    have hmem : (kind, builder) ∈ catalog.builders := by simp [hsplit]
    exact hc _ hmem properties b h
  · have husual : ({ catalog with builders := [] } : Catalog H).build kind properties = .ok b := by
      cases kind <;> exact h
    have hanew := (build_anew rfl husual).1
    rw [← hanew, Behavior.reset_anew]

namespace RootedTree

variable {catalog : Catalog H} {t u : RootedTree H}

theorem Ran.informed
    (hc : ∀ e ∈ catalog.builders, ∀ properties b, e.2 properties = .ok b → b.reset = b)
    (hm : Made catalog t.tree) (hu : Ran t u) : u.tree.Informed ∧ u.tree.ids.Nodup := by
  have hids : ∀ {u : RootedTree H}, Ran t u → u.tree.ids.Nodup := by
    intro u hu
    rw [← Tree.ids_anew, hu.anew, Tree.ids_anew]
    exact hm.distinct
  refine ⟨?_, hids hu⟩
  induction hu with
  | start =>
    apply Tree.informed_of_rested
    refine hm.nodes.imp ?_
    rintro n cs ⟨-, hbuild, hfresh, -⟩
    refine ⟨Catalog.reset_of_build hc hbuild, ?_⟩
    rw [hfresh]
    exact nofun
  | @tick u hu stage ih => exact Tree.informed_tick (hids hu) ih stage
  | @reset u hu ih => exact Tree.informed_reset u.tree

/-- In a tree that was loaded, whatever ticks and resets came before, a parallel that aborts resets
the children that are running when it fails, and no child is running after that. The only exception
are children that are left over, which stay as they are. They need a parallel that does not tick all
children at once and that succeeds while some are running. -/
theorem Ran.cancels
    (hc : ∀ e ∈ catalog.builders, ∀ properties b, e.2 properties = .ok b → b.reset = b)
    {next next' : Nat} {record : Record} (hl : load catalog next record = .ok (t, next'))
    (hu : Ran t u) {p : Position} {stage y : Stage H} {a : Tree H}
    (ha : (a, y) ∈ u.tree.callsAt p stage) {s : Parallel.Settings} {results : Parallel.Results}
    (hb : a.value.behavior = .parallel s results) (hs : s.abortOnFailure = true) {r : Status}
    (ho : (a.tick y).outcome = .ok r) (hr : r = .failure ∨ r = .error) {i : Nat} {c : Tree H}
    (hi : a.children[i]? = some c) :
    ∃ d c' : Tree H,
      (a.callsAt [i] y = [] ∧ d = c ∨ ∃ z, a.callsAt [i] y = [(c, z)] ∧ d = (c.tick z).state) ∧
      (a.tick y).state.children[i]? = some c' ∧
      (c'.status = .running ↔ a.LeftOver y results i c) ∧
      (d.status ≠ .running → c' = d) ∧
      (d.status = .running → ¬ a.LeftOver y results i c → c' = d.reset) ∧
      (a.LeftOver y results i c → s.maxConcurrency ≠ none ∧ s.Hasty) := by
  obtain ⟨hinformed, hids⟩ := hu.informed hc (made_load hl)
  obtain ⟨hinformed, hids⟩ := Tree.informed_of_mem_callsAt hids hinformed ha
  exact Tree.cancels_or_spares hids hinformed hb hs ho hr hi

section Relay

open Rehearsal (clock)

/-- An action that reports a status first, another one from a time on, and the last one from the next
time on. -/
def relayScript (first second third : Status) : Script Rehearsal.host Status := fun _ scene =>
  (.value (if scene.now = 0 then first else if scene.now = 1 then second else third), scene)

def relayCatalog : Catalog Rehearsal.host where
  actions := .ofList [("a", relayScript .failure .failure .error),
    ("b", relayScript .running .success .running), ("c", relayScript .running .running .running)]

/-- A parallel that wants one success and ticks two of its three children at once. -/
def relay : Record :=
  .node ⟨"r", "Root", "Root", {}, .nil⟩
    [.node ⟨"p", "Parallel", "Relay", {}, .ofList [("policy", .str "require_one"),
        ("abortOnFailure", .bool true), ("maxConcurrency", .ofNat 2)]⟩
      [.node ⟨"a", "Action", "A", {}, .ofList [("script", .str "a")]⟩ [],
        .node ⟨"b", "Action", "B", {}, .ofList [("script", .str "b")]⟩ [],
        .node ⟨"c", "Action", "C", {}, .ofList [("script", .str "c")]⟩ []]]

/-- The parallel fails in its second run while its last child is still running from the first one. -/
theorem left_over_relay : ∃ t u a y, ∃ c : Tree Rehearsal.host,
    load relayCatalog 0 relay = .ok (t, 0) ∧ Ran t u ∧
    (a, y) ∈ u.tree.callsAt [0] (clock 2) ∧
    (∃ s results, a.value.behavior = .parallel s results ∧ s.abortOnFailure = true) ∧
    (a.tick y).outcome = .ok .error ∧
    (a.tick y).state.children[2]? = some c ∧ c.status = .running := by
  obtain ⟨t, hl⟩ : ∃ t, load relayCatalog 0 relay = .ok (t, 0) := ⟨_, rfl⟩
  have hu : Ran t ((t.tick (clock 0)).state.tick (clock 1)).state :=
    (Ran.start.tick (clock 0)).tick (clock 1)
  obtain ⟨a, y, c, hrest⟩ : ∃ a y, ∃ c : Tree Rehearsal.host,
      (a, y) ∈ ((t.tick (clock 0)).state.tick (clock 1)).state.tree.callsAt [0] (clock 2) ∧
      (∃ s results, a.value.behavior = .parallel s results ∧ s.abortOnFailure = true) ∧
      (a.tick y).outcome = .ok .error ∧
      (a.tick y).state.children[2]? = some c ∧ c.status = .running := by
    cases hl
    exact ⟨_, _, _, List.mem_singleton_self _, ⟨_, _, rfl, rfl⟩, rfl, rfl, rfl⟩
  exact ⟨t, _, a, y, c, hl, hu, hrest⟩

/-- In its first run the parallel fails at once, and the child that is running then is reset. -/
theorem cancels_relay : ∃ t a y c z, load relayCatalog 0 relay = .ok (t, 0) ∧
    (a, y) ∈ t.tree.callsAt [0] (clock 2) ∧ (a.tick y).outcome = .ok .error ∧
    a.children[1]? = some c ∧ a.callsAt [1] y = [(c, z)] ∧ (c.tick z).outcome = .ok .running ∧
    (a.tick y).state.children[1]? = some (c.tick z).state.reset := by
  obtain ⟨t, hl⟩ : ∃ t, load relayCatalog 0 relay = .ok (t, 0) := ⟨_, rfl⟩
  obtain ⟨a, y, c, z, s, results, ha, hb, hs, ho, hi, hcall, hrunning⟩ : ∃ a y c z s results,
      (a, y) ∈ t.tree.callsAt [0] (clock 2) ∧ a.value.behavior = .parallel s results ∧
      s.abortOnFailure = true ∧ (a.tick y).outcome = .ok .error ∧ a.children[1]? = some c ∧
      a.callsAt [1] y = [(c, z)] ∧ (c.tick z).outcome = .ok .running := by
    cases hl
    exact ⟨_, _, _, _, _, _, List.mem_singleton_self _, rfl, rfl, rfl, rfl, rfl, rfl⟩
  obtain ⟨d, c', hd, hc', -, -, hreset, -⟩ :=
    Ran.cancels (fun e he => absurd he List.not_mem_nil) hl .start ha hb hs ho (.inr rfl) hi
  have hleft : ¬ a.LeftOver y results 1 c := by
    rintro ⟨-, -, hnone⟩
    rw [hcall] at hnone
    cases hnone
  rw [hcall] at hd
  rcases hd with ⟨hd, -⟩ | ⟨z', hz, rfl⟩
  · cases hd
  · cases hz
    rw [hreset (Tree.shows.ticked c z _ hrunning).1 hleft] at hc'
    exact ⟨t, a, y, c, z, hl, ha, ho, hi, hcall, hrunning, hc'⟩

end Relay

end RootedTree

end Conduct
