import Conduct.Proofs.Calls
import Conduct.Proofs.Equipment.Leaf
import Conduct.Proofs.Equipment.Parallel
import Conduct.Proofs.Path
import Conduct.Proofs.Reload

/-! A tree without findings wants nothing when it is ticked.

What a node was built from does not change in a run, so what was found of the tree as it was loaded,
namely nothing, holds of every subtree whenever it is ticked. Main statements:
`Tree.findings_eq_nil_iff`, `Tree.not_misconfigured` and `RootedTree.Ran.equipped`.
-/

set_option autoImplicit false

namespace Conduct

variable {H : Host}

/-! ## Nodes -/

namespace Behavior

variable {b : Behavior H}

/-- The script that the settings name is there, and a path starts with a name. -/
def Resolved : Behavior H → Prop
  | .action s script _ => s.deed = .custom → s.script ≠ none → script ≠ none
  | .condition s script path => (s.subject = .custom → s.script ≠ none → script ≠ none) ∧
      (path = [] ∨ ∃ name rest, path = .key name :: rest)
  | _ => True

theorem resolved_anew : b.anew.Resolved ↔ b.Resolved := by cases b <;> exact Iff.rfl

theorem findings_anew (count : Nat) : b.anew.findings count = b.findings count := by
  cases b <;> rfl

/-- Nothing is found wrong of a root or a decorator only where it has a child. -/
theorem findings_childless (hk : b.kind? = some .root ∨ b.kind? = some .inverter ∨
    b.kind? = some .repeater) : b.findings 0 ≠ [] := by
  cases b with
  | root s started => exact nofun
  | inverter s => exact nofun
  | repeater s run => exact nofun
  | _ => rcases hk with hk | hk | hk <;> cases hk

theorem exists_parallel (hb : b.kind? = some .parallel) : ∃ s results, b = .parallel s results := by
  cases b with
  | parallel s results => exact ⟨s, results, rfl⟩
  | _ => cases hb

end Behavior

namespace Catalog

variable {c : Catalog H} {kind : Kind} {b : Behavior H}

theorem namedScript_ne_none {α : Type} {scripts : Dict (Script H α)} {name : Option String}
    {script : Option (Script H α)} (h : namedScript scripts true name = .ok script)
    (hname : name ≠ none) : script ≠ none := by
  cases name with
  | none => exact absurd rfl hname
  | some name =>
    obtain ⟨f, -, rfl⟩ := map_eq_ok h
    exact Option.some_ne_none f

theorem path_eq_ok {s : Condition.Settings} {p : PropertyPath} (h : path s = .ok p) :
    p = [] ∨ ∃ name rest, p = .key name :: rest := by
  unfold path at h
  split at h
  · exact .inr (PropertyPath.eq_key_of_parse (mapError_eq_ok h))
  · cases h
    exact .inl rfl

theorem Usual.resolved (h : c.Usual kind b) : b.Resolved := by
  cases h with
  | action hscript =>
    intro hd
    rw [decide_eq_true hd] at hscript
    exact namedScript_ne_none hscript
  | condition hscript hpath =>
    refine ⟨fun hs => ?_, path_eq_ok hpath⟩
    rw [decide_eq_true hs] at hscript
    exact namedScript_ne_none hscript
  | _ => trivial

end Catalog

/-- A node of its kind with that many children, which has what its settings name and of which nothing
is found wrong. -/
def Node.Fit (n : Node H) (count : Nat) : Prop :=
  n.behavior.kind? = some n.kind ∧ n.behavior.Resolved ∧ n.behavior.findings count = []

theorem Node.fit_anew {n : Node H} {count : Nat} : n.anew.Fit count ↔ n.Fit count := by
  unfold Fit anew fresh
  simp only [Behavior.kind?_anew, Behavior.resolved_anew, Behavior.findings_anew]

namespace Tree

variable {t a : Tree H} {y : Stage H}

theorem findingsAt_eq_nil_iff {p : Position} :
    t.findingsAt p = [] ↔ t.Everywhere fun n cs => n.flaws cs.length = [] := by
  induction t using Rose.ofChildren generalizing p with
  | h n cs ih =>
    have hbelow : ∀ index, findingsBelow p index cs = [] ↔
        ∀ c ∈ cs, c.Everywhere fun n cs => n.flaws cs.length = [] := by
      induction cs with
      | nil => simp [findingsBelow]
      | cons c cs ihcs =>
        intro index
        obtain ⟨hc, hcs⟩ := List.forall_mem_cons.1 ih
        rw [findingsBelow, List.append_eq_nil_iff, List.forall_mem_cons, hc, ihcs hcs]
    rw [findingsAt, List.append_eq_nil_iff, List.map_eq_nil_iff, hbelow, Rose.everywhere_node]

theorem findings_eq_nil_iff :
    t.findings = [] ↔ t.Everywhere fun n cs => n.flaws cs.length = [] := findingsAt_eq_nil_iff

/-- A tick of the tree in which its top wants what the settings should have given it: a fault with a
message of its own and not of a script, a single child, or children to wait for. -/
inductive Misconfigured (a : Tree H) (y : Stage H) : Prop
  | action {s : Action.Settings} {script : Option (Script H Status)} {run run' : Action.Run}
      {text : String} (hb : a.value.behavior = .action s script run)
      (hf : (Action.perform s script run' y).1 = .fault (.message text))
      (hown : ∀ f, script = some f → (y.run f).1 ≠ .fault (.message text))
  | condition {s : Condition.Settings} {script : Option (Script H Bool)} {path : PropertyPath}
      {text : String} (hb : a.value.behavior = .condition s script path)
      (hown : script = none ∨ s.subject ≠ .custom)
      (hf : Condition.ask s path y.scene = .error (.message text))
  | childless (hk : a.value.kind = .root ∨ a.value.kind = .inverter ∨ a.value.kind = .repeater)
      (hc : a.children = [])
  | idle (hk : a.value.kind = .parallel) (hr : (tick a y).outcome = .ok .running)
      (hi : ∀ i, callsAt [i] a y = [])

theorem exists_callsAt {s : Parallel.Settings} {results : Parallel.Results}
    (hb : a.value.behavior = .parallel s results) (hs : s.maxConcurrency ≠ some 0)
    (hr : (tick a y).outcome = .ok .running) : ∃ i, callsAt [i] a y ≠ [] := by
  rw [outcome_tick] at hr
  obtain ⟨reported, ho, hreported⟩ := map_eq_ok hr
  rw [settled_eq_running.1 hreported] at ho
  rw [← (Behavior.tick_watched (handling tick) a.value.behavior a.children y).1, hb] at ho
  obtain ⟨w, hw, hcalls⟩ := Parallel.exists_ticked (h := (handling tick).watched)
    (T := fun w => w.calls ≠ []) (fun _ _ => List.concat_ne_nil _ _) hs ho
  obtain ⟨i, hi⟩ := List.getElem?_of_mem hw
  have hwatch : (a.value.behavior.watch (handling tick) a.children y)[i]? = some w := by
    rw [Behavior.watch, hb]
    exact hi
  refine ⟨i, fun hnone => hcalls ?_⟩
  rw [callsAt, hwatch] at hnone
  rw [List.eq_nil_iff_forall_not_mem]
  intro c hc
  cases List.flatMap_eq_nil_iff.1 hnone c hc

/-- A node that is fit wants nothing. -/
theorem not_misconfigured (hfit : a.value.Fit a.children.length) : ¬ Misconfigured a y := by
  obtain ⟨hkind, hresolved, hfindings⟩ := hfit
  intro hm
  cases hm with
  | action hb hf hown =>
    rw [hb] at hresolved hfindings
    obtain ⟨f, hscript, hmessage⟩ := Action.script_of_message hfindings hresolved hf
    exact hown f hscript hmessage
  | @condition s script path text hb hown hf =>
    rw [hb] at hresolved hfindings
    have hcustom : s.subject ≠ .custom := by
      intro hs
      have hscript := hresolved.1 hs (Condition.script_ne_none hfindings hs)
      rcases hown with hnone | hne
      · exact hscript hnone
      · exact hne hs
    exact Condition.ask_ne_message hfindings hresolved.2 hcustom text hf
  | childless hk hc =>
    rw [hc] at hfindings
    refine Behavior.findings_childless ?_ hfindings
    rw [hkind]
    exact hk.imp (congrArg some) (Or.imp (congrArg some) (congrArg some))
  | idle hk hr hi =>
    rw [hk] at hkind
    obtain ⟨s, results, hb⟩ := Behavior.exists_parallel hkind
    rw [hb] at hfindings
    obtain ⟨i, hcalls⟩ := exists_callsAt hb (Parallel.maxConcurrency_ne_zero hfindings) hr
    exact hcalls (hi i)

end Tree

namespace RootedTree

variable {t u : RootedTree H} {catalog : Catalog H}

/-- Whatever is ticked at a position was built as the loaded tree has it there. -/
theorem Ran.at?_of_mem_callsAt (hb : t.tree.Built) (hu : Ran t u) {p : Position} {stage y : Stage H}
    {a : Tree H} (h : (a, y) ∈ u.tree.callsAt p stage) : t.tree.at? p = some a.anew := by
  have hat := Tree.anew_of_mem_callsAt h
  rw [← hat, ← hb.anew, ← hu.anew]
  exact Rose.at?_map Node.anew p u.tree

theorem fit_load (hc : catalog.builders = []) {next next' : Nat} {r : Record}
    (hl : load catalog next r = .ok (t, next')) (hv : t.tree.findings = []) :
    t.tree.Everywhere fun n cs => n.Fit cs.length := by
  have hbuilt := built_load hc hl
  have hmade := made_load hl
  refine ((hbuilt.kinds.and hmade.nodes).and (Tree.findings_eq_nil_iff.1 hv)).imp ?_
  rintro n cs ⟨⟨⟨hkind, -⟩, -, hbuild, -⟩, hflaws⟩
  refine ⟨hkind, (Catalog.usual_of_build hc hbuild).resolved, ?_⟩
  rw [Node.flaws, List.append_eq_nil_iff, List.map_eq_nil_iff] at hflaws
  exact hflaws.2

/-- In a tree that was loaded, with any scripts, and of which nothing was found wrong, no node ever wants
what its settings should have given it. -/
theorem Ran.equipped (hc : catalog.builders = []) {next next' : Nat} {r : Record}
    (hl : load catalog next r = .ok (t, next')) (hv : t.tree.findings = []) (hu : Ran t u)
    (stage : Stage H) (p : Position) (a : Tree H) (y : Stage H)
    (h : (a, y) ∈ u.tree.callsAt p stage) : ¬ a.Misconfigured y := by
  have hat := hu.at?_of_mem_callsAt (built_load hc hl) h
  have hfit := (fit_load hc hl hv).at? hat
  obtain ⟨n, cs⟩ := a
  rw [Tree.anew_node, Rose.everywhere_node, Node.fit_anew, List.length_map] at hfit
  exact Tree.not_misconfigured hfit.1

section Watch

open Rehearsal (clock)

/-- A root above a parallel that ticks so many children at once, of which the first is never done and
the second attacks. -/
def watch (atOnce : Nat) : Record :=
  .node ⟨"r", "Root", "Root", {}, .nil⟩
    [.node ⟨"p", "Parallel", "Watch", {}, Dict.From.insert .nil "maxConcurrency" (.ofNat atOnce)⟩
      [.node ⟨"w", "Action", "Work", {}, Dict.From.insert .nil "script" (.str "work")⟩ [],
        .node ⟨"a", "Action", "Attack", {},
          Dict.From.insert (Dict.From.insert .nil "actionType" (.str "attack")) "targetId"
            (.str "x")⟩ []]]

/-- A parallel that ticks one child at once is running on its second tick, and ticks its first child
again. One that ticks none waits for ever, as was found before. -/
theorem equipped_watch :
    (∃ t a y, load tools 0 (watch 1) = .ok (t, 0) ∧ t.tree.findings = [] ∧
      (a, y) ∈ (t.tick (clock 0)).state.tree.callsAt [0] (clock 1) ∧ a.value.kind = .parallel ∧
      (a.tick y).outcome = .ok .running ∧ ¬ a.Misconfigured y) ∧
    ∃ t a y, load tools 0 (watch 0) = .ok (t, 0) ∧ t.tree.findings ≠ [] ∧
      (a, y) ∈ t.tree.callsAt [0] (clock 0) ∧ a.Misconfigured y := by
  constructor
  · obtain ⟨t, hl⟩ : ∃ t, load tools 0 (watch 1) = .ok (t, 0) := ⟨_, rfl⟩
    have hv : t.tree.findings = [] := by
      cases hl
      rfl
    have hu : Ran t (t.tick (clock 0)).state := Ran.start.tick (clock 0)
    obtain ⟨a, y, hcall, hkind, hrunning⟩ : ∃ a y,
        (a, y) ∈ (t.tick (clock 0)).state.tree.callsAt [0] (clock 1) ∧ a.value.kind = .parallel ∧
          (a.tick y).outcome = .ok .running := by
      cases hl
      exact ⟨_, _, List.mem_singleton_self _, rfl, rfl⟩
    exact ⟨t, a, y, hl, hv, hcall, hkind, hrunning,
      Ran.equipped rfl hl hv hu (clock 1) [0] a y hcall⟩
  · obtain ⟨t, hl⟩ : ∃ t, load tools 0 (watch 0) = .ok (t, 0) := ⟨_, rfl⟩
    have hv : t.tree.findings ≠ [] := by
      cases hl
      exact List.cons_ne_nil _ _
    obtain ⟨a, y, hcall, hm⟩ : ∃ a y, (a, y) ∈ t.tree.callsAt [0] (clock 0) ∧ a.Misconfigured y := by
      cases hl
      refine ⟨_, _, List.mem_singleton_self _, .idle rfl rfl ?_⟩
      intro i
      match i with
      | 0 => rfl
      | 1 => rfl
      | i + 2 => rfl
    exact ⟨t, a, y, hl, hv, hcall, hm⟩

end Watch

end RootedTree

end Conduct
