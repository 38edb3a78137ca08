import Conduct.Proofs.Building
import Conduct.Proofs.Tidiness.Behavior
import Conduct.Rehearsal.World

/-! No run leaves anything behind.

In a tidy tree every node that is running is paused and every other one is idle. A completed tick of
a tidy tree leaves a tidy tree, and a reset leaves one whatever came before, such as a panic. Main
statement: `RootedTree.Ran.clean`.
-/

set_option autoImplicit false

namespace Conduct

variable {H : Host}

namespace Tree

/-- What the top of a tree reported last. -/
def status (t : Tree H) : Status := t.value.status

/-- A node is paused if it is running, and else idle. -/
def TidyNode (n : Node H) (cs : List (Tree H)) : Prop :=
  (n.status ≠ .running → n.behavior.Idle status cs) ∧
    (n.status = .running → n.behavior.Paused id status cs)

/-- Every node is paused or idle as its status tells. -/
def Tidy (t : Tree H) : Prop := t.Everywhere TidyNode

/-- A node whose settings are tame, with a behavior of its kind and children with distinct ids. -/
def SoundNode (n : Node H) (cs : List (Tree H)) : Prop :=
  n.behavior.Tame ∧ n.behavior.kind? = some n.kind ∧ (cs.map id).Nodup

/-- What the tree was built from is sound. -/
def Sound (t : Tree H) : Prop := t.anew.Everywhere SoundNode

/-! ## Sound trees -/

theorem tame_anew (b : Behavior H) : b.anew.Tame ↔ b.Tame := by cases b <;> rfl

theorem sound_node {n : Node H} {cs : List (Tree H)} :
    Sound (.node n cs) ↔ SoundNode n cs ∧ ∀ c ∈ cs, Sound c := by
  have hids : (cs.map anew).map id = cs.map id := by
    rw [List.map_map]
    exact List.map_congr_left fun c _ => id_anew c
  have hnode : SoundNode n.anew (cs.map anew) ↔ SoundNode n cs := by
    unfold SoundNode
    rw [hids]
    exact and_congr (tame_anew n.behavior)
      (and_congr (by rw [Node.anew, Node.fresh, Behavior.kind?_anew]) Iff.rfl)
  unfold Sound
  rw [anew_node, Rose.everywhere_node, hnode]
  simp only [List.mem_map, forall_exists_index, and_imp, forall_apply_eq_imp_iff₂]

theorem Sound.tick {t : Tree H} (h : t.Sound) (stage : Stage H) : (tick t stage).state.Sound := by
  unfold Sound at h ⊢
  rwa [anew_tick]

theorem Sound.reset {t : Tree H} (h : t.Sound) : t.reset.Sound := by
  unfold Sound at h ⊢
  rwa [anew_reset]

/-! ## Tidy trees -/

theorem status_reset (t : Tree H) : t.reset.status = .ready := by
  cases t
  rfl

theorem tidy_reset (t : Tree H) : t.reset.Tidy := by
  unfold Tidy reset
  rw [Rose.everywhere_map]
  induction t using Rose.ofChildren with
  | h n cs ih =>
    refine Rose.everywhere_node.2 ⟨⟨fun _ => ⟨n.behavior.reset_reset, ?_⟩, nofun⟩, ih⟩
    intro c hc hr
    obtain ⟨d, -, rfl⟩ := List.mem_map.1 hc
    have := status_reset d
    rw [reset, hr] at this
    cases this

theorem status_anew (t : Tree H) : t.anew.status = .ready := by
  cases t
  rw [anew_node]
  rfl

theorem tidy_anew (t : Tree H) : t.anew.Tidy := by
  unfold Tidy anew
  rw [Rose.everywhere_map]
  induction t using Rose.ofChildren with
  | h n cs ih =>
    refine Rose.everywhere_node.2 ⟨⟨fun _ => ⟨n.behavior.reset_anew, ?_⟩, nofun⟩, ih⟩
    intro c hc hr
    obtain ⟨d, -, rfl⟩ := List.mem_map.1 hc
    have := status_anew d
    rw [anew, hr] at this
    cases this

/-- A tick handles sound trees of a bounded height tidily, if completed ticks of them leave tidy
trees. -/
theorem handling_tidy {l : Nat} (hl : ∀ t : Tree H, t.height ≤ l → t.Sound → t.Tidy →
    ∀ stage r, (tick t stage).outcome = .ok r →
      (tick t stage).state.Tidy ∧ (tick t stage).state.status = r) :
    (handling (tick (H := H))).Tidy status (fun t => t.Sound ∧ t.height ≤ l)
      (fun t => t.Sound ∧ t.height ≤ l ∧ t.Tidy) where
  id := id_tick
  shape c hc := ⟨hc.1, hc.2.1⟩
  unwound c x hc := ⟨hc.1.tick x, (height_tick_le c x).trans hc.2.1⟩
  ticked c x r hc ho := by
    obtain ⟨htidy, hstatus⟩ := hl c hc.2.1 hc.1 hc.2.2 x r ho
    refine ⟨⟨hc.1.tick x, (height_tick_le c x).trans hc.2.1, htidy⟩, hstatus, ?_⟩
    rintro rfl
    exact tick_ne_ready c x ho
  reset c hc := by
    have hheight : c.reset.height = c.height := Rose.height_map Node.reset c
    refine ⟨⟨hc.1.reset, hheight ▸ hc.2, tidy_reset c⟩, ?_⟩
    rw [show (handling tick).reset c = c.reset from rfl, status_reset]
    decide

theorem tidy_tick_of_height_le (l : Nat) (t : Tree H) (hl : t.height ≤ l) (hs : t.Sound)
    (ht : t.Tidy) (stage : Stage H) (r : Status) (ho : (tick t stage).outcome = .ok r) :
    (tick t stage).state.Tidy ∧ (tick t stage).state.status = r := by
  induction l generalizing t stage r with
  | zero => exact absurd t.height_pos (by omega)
  | succ l ih =>
    obtain ⟨n, cs⟩ := t
    obtain ⟨⟨htame, hkind, hids⟩, hsound⟩ := sound_node.1 hs
    obtain ⟨⟨hidle, hpaused⟩, htidy⟩ := Rose.everywhere_node.1 ht
    have hgood : ∀ c ∈ cs, Sound c ∧ c.height ≤ l ∧ Tidy c := by
      intro c hc
      have := Rose.height_lt_of_mem (v := n) hc
      exact ⟨hsound c hc, by omega, htidy c hc⟩
    have hrun : n.behavior.Idle status cs ∨ n.behavior.Paused (handling tick).id status cs := by
      by_cases hr : n.status = .running
      · exact .inr (hpaused hr)
      · exact .inl (hidle hr)
    rw [tick_node] at ho ⊢
    simp only [Node.tick] at ho ⊢
    cases hout : (n.behavior.tick (handling tick) cs stage).outcome with
    | error p =>
      simp only [hout] at ho
      cases ho
    | ok reported =>
      obtain ⟨hgood', hidle', hpaused'⟩ := Behavior.tick_tidy
        (handling_tidy fun t hl hs ht stage r ho => ih t hl hs ht stage r ho) htame
        (by rw [hkind]; exact Option.some_ne_none _) cs stage hgood hids hrun hout
      simp only [hout] at ho ⊢
      cases ho
      refine ⟨Rose.everywhere_node.2 ⟨⟨fun hr => hidle' ?_, fun hr => hpaused' ?_⟩,
        fun c hc => (hgood' c hc).2.2⟩, rfl⟩
      · exact fun he => hr (settled_eq_running.2 he)
      · exact settled_eq_running.1 hr

/-- A completed tick leaves a sound and tidy tree tidy, with what it reported at the top. -/
theorem Tidy.tick {t : Tree H} (ht : t.Tidy) (hs : t.Sound) {stage : Stage H} {r : Status}
    (ho : (tick t stage).outcome = .ok r) :
    (Tree.tick t stage).state.Tidy ∧ (Tree.tick t stage).state.status = r :=
  tidy_tick_of_height_le t.height t (Nat.le_refl _) hs ht stage r ho

/-- Below a node that is not running nothing is left of a run. -/
theorem Tidy.quiet {t : Tree H} (ht : t.Tidy) (hr : t.status ≠ .running) :
    t.Everywhere fun n _ => n.behavior.reset = n.behavior ∧ n.status ≠ .running := by
  induction t using Rose.ofChildren with
  | h n cs ih =>
    obtain ⟨⟨hidle, -⟩, htidy⟩ := Rose.everywhere_node.1 ht
    obtain ⟨hreset, hstill⟩ := hidle hr
    exact Rose.everywhere_node.2 ⟨⟨hreset, hr⟩, fun c hc => ih c hc (htidy c hc) (hstill c hc)⟩

end Tree

/-! ## Runs of whole trees -/

/-- The node apart from its status, the account of its ticks and the state of its generator. -/
def Node.bare (n : Node H) : Node H :=
  { n with
    behavior :=
      match n.behavior with
      | .selector s run _ => .selector s run s.generator
      | b => b
    status := .ready
    tickCount := 0
    lastTick := none }

/-- A node that remembers nothing of a run is as it was built, apart from its account and the state
of its generator. -/
theorem Node.bare_eq_anew {n : Node H} (hk : n.behavior.kind? ≠ none)
    (hr : n.behavior.reset = n.behavior) : n.bare = n.anew := by
  obtain ⟨id, kind, name, layout, properties, behavior, status, tickCount, lastTick⟩ := n
  simp only [bare, anew, fresh, Node.mk.injEq, true_and, and_true]
  simp only at hr hk
  cases behavior with
  | selector s run g =>
    have hrun : {} = run := (Behavior.selector.inj hr).2.1
    simp only [Behavior.anew, hrun]
  | extension e played => exact absurd rfl hk
  | _ => exact hr.symm

namespace RootedTree

/-- What a whole tree comes to by ticks and resets. -/
inductive Ran (t : RootedTree H) : RootedTree H → Prop
  | start : Ran t t
  | tick {u : RootedTree H} (hu : Ran t u) (stage : Stage H) : Ran t (u.tick stage).state
  | reset {u : RootedTree H} (hu : Ran t u) : Ran t u.reset

variable {t u : RootedTree H}

theorem Ran.anew (hu : Ran t u) : u.tree.anew = t.tree.anew := by
  induction hu with
  | start => rfl
  | @tick u hu stage ih => rw [← ih]; exact Tree.anew_tick u.tree stage
  | @reset u hu ih => rw [← ih]; exact Tree.anew_reset u.tree

/-- A panic does not get past a root. -/
theorem outcome_tick (hs : u.tree.Sound) (stage : Stage H) :
    ∃ r, (u.tree.tick stage).outcome = .ok r := by
  obtain ⟨⟨n, cs⟩, hroot⟩ := u
  have hroot : n.kind = .root := hroot
  obtain ⟨⟨-, hkind, -⟩, -⟩ := Tree.sound_node.1 hs
  rw [hroot] at hkind
  cases hb : n.behavior with
  | root s started => exact Tree.completes_of_root (t := .node n cs) hb stage
  | _ =>
    rw [hb] at hkind
    cases hkind

theorem Ran.tidy (hb : t.tree.Built) (hs : t.tree.Sound) (hu : Ran t u) :
    u.tree.Tidy ∧ u.tree.Sound := by
  have hsound : ∀ {u : RootedTree H}, Ran t u → u.tree.Sound := by
    intro u hu
    unfold Tree.Sound at hs ⊢
    rwa [hu.anew]
  refine ⟨?_, hsound hu⟩
  induction hu with
  | start => exact hb.anew ▸ Tree.tidy_anew t.tree
  | @tick u hu stage ih =>
    obtain ⟨r, ho⟩ := outcome_tick (hsound hu) stage
    exact (ih.tick (hsound hu) ho).1
  | @reset u hu ih => exact Tree.tidy_reset u.tree

theorem sound_of_built (hb : t.tree.Built) (ht : t.tree.Everywhere fun n _ => n.behavior.Tame) :
    t.tree.Sound := by
  unfold Tree.Sound
  rw [hb.anew]
  exact ht.and hb.kinds

theorem map_bare (hs : u.tree.Sound) (hq : u.tree.Everywhere fun n _ =>
    n.behavior.reset = n.behavior ∧ n.status ≠ .running) :
    Rose.map Node.bare u.tree = u.tree.anew := by
  have hkinds : u.tree.Everywhere fun n _ => n.behavior.kind? ≠ none := by
    refine (Rose.everywhere_map.1 hs).imp fun n cs hn => ?_
    have hkind := hn.2.1
    rw [Node.anew, Node.fresh, Behavior.kind?_anew] at hkind
    rw [hkind]
    exact Option.some_ne_none _
  exact Rose.map_congr ((hkinds.and hq).imp fun n _ hn => Node.bare_eq_anew hn.1 hn.2.1)

/-- In a tree that was loaded with tame settings, whatever ticks and resets came before, nothing is
left of a run below a node that is not running, and of the children of a sequence or a selector that
is running the one at its cursor is running and no other. After a verdict the tree is as it was
loaded, apart from the accounts of its nodes and the states of its generators. -/
theorem Ran.clean {catalog : Catalog H} (hc : catalog.builders = []) {next next' : Nat}
    {record : Record} (hl : load catalog next record = .ok (t, next'))
    (ht : t.tree.Everywhere fun n _ => n.behavior.Tame) (hu : Ran t u) :
    (u.tree.Everywhere fun n cs =>
      (n.status ≠ .running → (Rose.node n cs).Everywhere fun m _ =>
        m.behavior.reset = m.behavior ∧ m.status ≠ .running) ∧
      (n.status = .running → ∀ s run, n.behavior = .sequence s run →
        ∃ pre c post, Alone Tree.status cs pre c post ∧ run.cursor = pre.length) ∧
      (n.status = .running → ∀ s run g, n.behavior = .selector s run g →
        ∃ pre c post, Alone Tree.status cs pre c post ∧ run.cursor = pre.length)) ∧
    ∀ stage verdict, (u.tick stage).outcome = .ok verdict → verdict.isTerminal = true →
      Rose.map Node.bare (u.tick stage).state.tree = t.tree := by
  have hb := built_load hc hl
  have hs := sound_of_built hb ht
  obtain ⟨htidy, hsound⟩ := hu.tidy hb hs
  refine ⟨htidy.subtrees.imp ?_, ?_⟩
  · intro n cs hn
    obtain ⟨⟨-, hpaused⟩, -⟩ := Rose.everywhere_node.1 hn
    refine ⟨Tree.Tidy.quiet hn, fun hr s run hb => ?_, fun hr s run g hb => ?_⟩
    · have hp := hpaused hr
      rw [hb] at hp
      obtain ⟨pre, c, post, halone, hcursor, -⟩ := hp
      exact ⟨pre, c, post, halone, hcursor.trans (Nat.zero_add _)⟩
    · have hp := hpaused hr
      rw [hb] at hp
      obtain ⟨-, pre, c, post, halone, hcursor, -⟩ := hp
      exact ⟨pre, c, post, halone, hcursor⟩
  · intro stage verdict ho hv
    have hafter : Ran t (u.tick stage).state := hu.tick stage
    obtain ⟨htidy', hsound'⟩ := hafter.tidy hb hs
    have hstatus : (u.tick stage).state.tree.status = verdict := (htidy.tick hsound ho).2
    have hne : (u.tick stage).state.tree.status ≠ .running := by
      rw [hstatus]
      rintro rfl
      cases hv
    rw [map_bare hsound' (htidy'.quiet hne), hafter.anew, hb.anew]

/-- A root above a sequence above an action that waits for a second. -/
def waiting : Record :=
  .node ⟨"r", "Root", "Root", {}, .nil⟩
    [.node ⟨"s", "Sequence", "Sequence", {}, .nil⟩
      [.node ⟨"w", "Action", "Wait", {}, Dict.From.insert .nil "actionType" (.str "wait")⟩ []]]

/-- A run that waits and then succeeds leaves the tree as it was loaded. -/
theorem clean_waiting : ∃ t : RootedTree Rehearsal.host,
    load {} 0 waiting = .ok (t, 0) ∧ (t.tree.Everywhere fun n _ => n.behavior.Tame) ∧
      ((t.tick (Rehearsal.clock 0)).state.tick (Rehearsal.clock 1000)).outcome = .ok .success ∧
      Rose.map Node.bare
        ((t.tick (Rehearsal.clock 0)).state.tick (Rehearsal.clock 1000)).state.tree = t.tree := by
  obtain ⟨t, hl⟩ : ∃ t : RootedTree Rehearsal.host, load {} 0 waiting = .ok (t, 0) := ⟨_, rfl⟩
  have ht : t.tree.Everywhere fun n _ => n.behavior.Tame := by
    cases hl
    exact ⟨trivial, ⟨trivial, ⟨trivial, trivial⟩, trivial⟩, trivial⟩
  have ho : ((t.tick (Rehearsal.clock 0)).state.tick (Rehearsal.clock 1000)).outcome =
      .ok .success := by
    cases hl
    rfl
  have hran : Ran t (t.tick (Rehearsal.clock 0)).state := Ran.start.tick (Rehearsal.clock 0)
  exact ⟨t, hl, ht, ho, (Ran.clean rfl hl ht hran).2 (Rehearsal.clock 1000) .success ho rfl⟩

end RootedTree

end Conduct
