import Conduct.Proofs.Resumption.Control
import Conduct.Proofs.Resumption.Leaf
import Conduct.Rehearsal.World

/-! Pauses make no difference.

Take the running entries out of what the leaves of a tree play. What the tree did in a run of many
ticks, it then does in one tick: it reports the same, and its leaves come to the same in the same
order. That goes for the first run and for all runs after it. Main statement:
`Tree.Unpaused.performs`.
-/

set_option autoImplicit false

namespace Conduct.Tree

variable {H : Host} {t u t' : Tree H} {stream unpaused : Nat → Status} {x : Stage H} {r : Status}
  {es : List (String × Status)}

/-! ## Trees that come to a report -/

/-- Control nodes that can be resumed, over leaves that play streams. -/
inductive Calm : Tree H → Prop
  | leaf {t : Tree H} {stream : Nat → Status} (ht : t.Leaf) (hp : t.Plays stream) : Calm t
  | node {t : Tree H} (hb : t.value.behavior.Resumable) (hcs : ∀ c ∈ t.children, Calm c) : Calm t

theorem height_lt_of_mem_children {c : Tree H} (hc : c ∈ t.children) : c.height < t.height := by
  obtain ⟨n, cs⟩ := t
  exact Rose.height_lt_of_mem hc

theorem Calm.reset (h : t.Calm) : t.reset.Calm := by
  induction h with
  | leaf ht hp => exact .leaf ht.reset hp.reset
  | @node t hb _ ih =>
    refine .node ?_ ?_
    · rw [value_reset]
      exact hb.reset
    · simpa only [children_reset, List.forall_mem_map] using ih

/-- Ticks that come to a report on some trees, and leave such trees, handle them so. -/
theorem handling_settles {P : Tree H → Prop} (hreset : ∀ t, P t → P t.reset)
    (htick : ∀ t, P t → ∀ x, P (tick t x).state ∧ ∃ r, (tick t x).outcome = .ok r) :
    (handling (tick (H := H))).Settles P where
  keeps := keeps_id
  grows := visits_tick
  ticked := by
    intro t ht x
    obtain ⟨hp, r, ho⟩ := htick t ht x
    refine ⟨hp, r, ho, ?_⟩
    rintro rfl
    exact tick_ne_ready t x ho
  rested := hreset _

theorem calm_tick_of_height_le (l : Nat) (t : Tree H) (hheight : t.height ≤ l) (ht : t.Calm)
    (x : Stage H) : (tick t x).state.Calm ∧ ∃ r, (tick t x).outcome = .ok r := by
  induction l generalizing t x with
  | zero =>
    have := Rose.height_pos t
    omega
  | succ l ih =>
    cases ht with
    | leaf ht hp => exact ⟨.leaf (ht.tick x) (hp.tick x), _, hp.outcome x⟩
    | node hb hcs =>
      have hsettles : (handling tick).Settles fun t : Tree H => t.height ≤ l ∧ t.Calm := by
        refine handling_settles (fun t ht => ⟨?_, ht.2.reset⟩) fun t ht x => ?_
        · rw [reset, Rose.height_map]
          exact ht.1
        · obtain ⟨hcalm, ho⟩ := ih t ht.1 ht.2 x
          exact ⟨⟨(height_tick_le t x).trans ht.1, hcalm⟩, ho⟩
      have hcs' : ∀ c ∈ t.children, c.height ≤ l ∧ Calm c := by
        intro c hc
        have := height_lt_of_mem_children hc
        exact ⟨by omega, hcs c hc⟩
      obtain ⟨hb', hcs', r, ho⟩ := Behavior.calm_tick hsettles hb hcs' x
      refine ⟨.node ?_ ?_, r.settled, ?_⟩
      · rw [behavior_tick]
        exact hb'
      · rw [children_tick]
        exact fun c hc => (hcs' c hc).2
      · rw [outcome_tick, ho]
        rfl

/-- No tick of a calm tree panics, and it leaves the tree calm. -/
theorem settles : (handling (tick (H := H))).Settles Calm :=
  handling_settles (fun _ => Calm.reset) fun t =>
    calm_tick_of_height_le t.height t (Nat.le_refl _)

/-! ## The same tree without pauses -/

/-- Two trees that were built alike, at the start of a run, but for the running entries of the
streams that the leaves of the first one play. -/
inductive Unpaused : Tree H → Tree H → Prop
  | leaf {t u : Tree H} {stream unpaused : Nat → Status} (ht : t.Leaf) (hu : u.Leaf)
      (hid : t.id = u.id) (htp : t.Plays stream) (hup : u.Plays unpaused)
      (hs : Skips stream unpaused) : Unpaused t u
  | node {t u : Tree H} (hid : t.id = u.id) (hb : u.value.behavior = t.value.behavior)
      (hpatient : t.value.behavior.Patient) (hfresh : t.value.behavior.reset = t.value.behavior)
      (hcs : List.Forall₂ Unpaused t.children u.children) : Unpaused t u

theorem forall₂_of_mem {α : Type} {R S : α → α → Prop} {l m : List α}
    (h : ∀ a ∈ l, ∀ b, R a b → S a b) (hlm : List.Forall₂ R l m) : List.Forall₂ S l m :=
  ((List.forall₂_and_left _ _).2 ⟨h, hlm⟩).imp fun _ _ hab => hab.1 _ hab.2

theorem Unpaused.id_eq (h : Unpaused t u) : t.id = u.id := by
  cases h with
  | leaf _ _ hid _ _ _ => exact hid
  | node hid _ _ _ _ => exact hid

theorem Unpaused.calm (h : Unpaused t u) : t.Calm ∧ u.Calm := by
  induction t using Rose.ofChildren generalizing u with
  | h n cs ih =>
    cases h with
    | leaf ht hu _ htp hup _ => exact ⟨.leaf ht htp, .leaf hu hup⟩
    | node _ hb hpatient hfresh hcs =>
      have hresumable := hpatient.resumable hfresh
      have hboth : List.Forall₂ (fun c d => Calm c ∧ Calm d) cs u.children :=
        forall₂_of_mem (fun c hc d hcd => ih c hc hcd) hcs
      obtain ⟨ht, hu⟩ := Program.forall_of_forall₂ hboth
      exact ⟨.node hresumable ht, .node (hb ▸ hresumable) hu⟩

theorem Unpaused.reset (h : Unpaused t u) : Unpaused t.reset u.reset := by
  induction t using Rose.ofChildren generalizing u with
  | h n cs ih =>
    cases h with
    | leaf ht hu hid htp hup hs =>
      refine .leaf ht.reset hu.reset ?_ htp.reset hup.reset hs
      rw [id_reset, id_reset, hid]
    | node hid hb hpatient hfresh hcs =>
      refine .node ?_ ?_ ?_ ?_ ?_
      · rw [id_reset, id_reset, hid]
      · rw [value_reset, value_reset]
        exact congrArg Behavior.reset hb
      · rw [value_reset]
        exact hpatient.reset
      · rw [value_reset]
        exact n.behavior.reset_reset
      · rw [children_reset, children_reset, List.forall₂_map_left_iff, List.forall₂_map_right_iff]
        exact forall₂_of_mem (fun c hc d => ih c hc) hcs

/-! ## Runs of trees -/

theorem outcome_behavior (ho : (tick t x).outcome = .ok r) :
    ∃ r', (t.value.behavior.tick (handling tick) t.children x).outcome = .ok r' ∧
      r = r'.settled := by
  rw [outcome_tick] at ho
  cases hb : (t.value.behavior.tick (handling tick) t.children x).outcome with
  | error p =>
    rw [hb] at ho
    cases ho
  | ok r' =>
    rw [hb] at ho
    exact ⟨r', rfl, (Except.ok.inj ho).symm⟩

/-- A run of a node that takes children is a run of its behavior. -/
theorem runs_behavior (hopen : t.value.behavior.limit.isClosed = false)
    (hrun : Runs tick t r es t') : t'.id = t.id ∧ ∃ r', r = r'.settled ∧
      Runs (Behavior.advance (handling tick)) (t.value.behavior, t.children) r' es
        (t'.value.behavior, t'.children) := by
  induction hrun with
  | @ends t x r es ho hr he =>
    obtain ⟨r', ho', rfl⟩ := outcome_behavior ho
    refine ⟨id_tick t x, r', rfl, ?_⟩
    rw [Stage.Adds, endings_of_open ho hopen] at he
    rw [behavior_tick, children_tick]
    exact .ends ho' (fun hr' => hr (settled_eq_running.2 hr')) he
  | @waits t t' x r es ds ho he rest ih =>
    obtain ⟨r₀, ho', hr₀⟩ := outcome_behavior ho
    rw [settled_eq_running.1 hr₀.symm] at ho'
    obtain ⟨hid, r', hr, hrest⟩ := ih (by rw [limit_tick, hopen])
    refine ⟨hid.trans (id_tick t x), r', hr, ?_⟩
    rw [Stage.Adds, endings_of_open ho hopen] at he
    rw [behavior_tick, children_tick] at hrest
    exact .waits ho' he hrest

theorem height_runs (hrun : Runs tick t r es t') : t'.height = t.height := by
  have hanew : t'.anew = t.anew := hrun.keeps anew_tick
  rw [← Rose.height_map Node.anew t', ← Rose.height_map Node.anew t]
  exact congrArg Rose.height hanew

/-- What a tree does in a run, it does in one tick without the running entries of its leaves. -/
theorem Unpaused.answers_of_height_le (l : Nat) (hheight : t.height ≤ l) (hu : Unpaused t u)
    (hrun : Runs Tree.tick t r es t') (y : Stage H) :
    (Tree.tick u y).Answers y r es (Unpaused t') := by
  induction l generalizing t u r es t' y with
  | zero =>
    have := Rose.height_pos t
    omega
  | succ l ih =>
    cases hu with
    | leaf ht hu hid htp hup hs =>
      obtain ⟨rfl, hentry, ht', hid', stream', htp', hs'⟩ := ht.run htp hs hrun
      have ho := hup.outcome y
      rw [hentry] at ho
      have hadds := hu.adds ho
      rw [if_neg hrun.ne_running, ← hid] at hadds
      refine ⟨ho, hadds, .leaf ht' (hu.tick y) ?_ htp' (hup.tick y) hs'⟩
      rw [hid', hid, id_tick]
    | node hid hb hpatient hfresh hcs =>
      have hcondenses : (handling tick).Condenses Calm
          fun c d : Tree H => c.height ≤ l ∧ Unpaused c d :=
        { toSettles := settles
          id := fun hcd => hcd.2.id_eq
          calm := fun hcd => hcd.2.calm
          reset := by
            intro c d hcd
            refine ⟨?_, hcd.2.reset⟩
            rw [show (handling tick).reset c = Rose.map Node.reset c from rfl, Rose.height_map]
            exact hcd.1
          run := by
            intro c d r es c' hcd hrun y
            obtain ⟨ho, he, hst⟩ := ih hcd.1 hcd.2 hrun y
            exact ⟨ho, he, (height_runs hrun).trans_le hcd.1, hst⟩ }
      obtain ⟨hid', r', rfl, hrun'⟩ := runs_behavior hpatient.isClosed_limit hrun
      have hcs' : List.Forall₂ (fun c d => c.height ≤ l ∧ Unpaused c d) t.children u.children :=
        forall₂_of_mem (fun c hc d hcd =>
          ⟨by have := height_lt_of_mem_children hc; omega, hcd⟩) hcs
      obtain ⟨ho, he, hstate, hended, hrest⟩ :=
        Behavior.condenses hcondenses (hpatient.resumable hfresh) hcs' hrun' y
      rw [← hb] at ho he hstate hrest
      have ho' : (Tree.tick u y).outcome = .ok r'.settled := by
        rw [outcome_tick, ho]
        rfl
      have hopen : u.value.behavior.limit.isClosed = false := by rw [hb, hpatient.isClosed_limit]
      refine ⟨ho', (endings_of_open ho' hopen).trans he, .node ?_ ?_ ?_ ?_ ?_⟩
      · rw [hid', hid, id_tick]
      · rw [behavior_tick]
        exact hstate
      · rw [show t'.value.behavior = _ from hended]
        exact ((hpatient.resumable hfresh).ended _).patient
      · rw [show t'.value.behavior = _ from hended]
        exact Behavior.reset_ended hfresh _
      · rw [children_tick]
        exact hrest.imp fun _ _ hcd => hcd.2

/-- Runs of a tree one after the other, with what it reports and what its leaves come to in each of
them. -/
inductive Course : Tree H → List (Status × List (String × Status)) → Tree H → Prop
  | nil (t : Tree H) : Course t [] t
  | cons {t t₁ t' : Tree H} {r : Status} {es : List (String × Status)}
      {runs : List (Status × List (String × Status))} (hrun : Runs tick t r es t₁)
      (rest : Course t₁ runs t') : Course t ((r, es) :: runs) t'

/-- A tree does in single ticks, one after the other and on whatever stages, what another one did in
runs. -/
def Performs : Tree H → List (Status × List (String × Status)) → Prop
  | _, [] => True
  | t, (r, es) :: runs => ∀ x, (tick t x).Answers x r es fun t' => t'.Performs runs

/-- Without the running entries of its leaves a tree does in one tick what it does in a run, for all
runs one after the other. -/
theorem Unpaused.performs {runs : List (Status × List (String × Status))} (hu : Unpaused t u)
    (hcourse : Course t runs t') : u.Performs runs := by
  induction hcourse generalizing u with
  | nil t => trivial
  | cons hrun rest ih =>
    intro x
    obtain ⟨ho, he, hst⟩ := hu.answers_of_height_le _ (Nat.le_refl _) hrun x
    exact ⟨ho, he, ih hst⟩

/-! ## Trees that have one without pauses -/

/-- Patient control nodes at the start of a run, over leaves that play streams. -/
inductive Starts : Tree H → Prop
  | leaf {t : Tree H} {stream : Nat → Status} (ht : t.Leaf) (hp : t.Plays stream)
      (hready : ∀ n, stream n ≠ .ready) : Starts t
  | node {t : Tree H} (hpatient : t.value.behavior.Patient)
      (hfresh : t.value.behavior.reset = t.value.behavior) (hcs : ∀ c ∈ t.children, Starts c) :
      Starts t

theorem Starts.exists_unpaused (ht : t.Starts) : ∃ u, Unpaused t u := by
  induction ht with
  | @leaf t stream ht hp hready =>
    obtain ⟨unpaused, hs, hready'⟩ := exists_skips hready
    exact ⟨player t.id unpaused, .leaf ht (leaf_player _ _) rfl hp (plays_player _ hready') hs⟩
  | @node t hpatient hfresh hcs ih =>
    obtain ⟨us, hus⟩ := exists_forall₂_iff.2 ih
    exact ⟨.node t.value us, .node rfl rfl hpatient hfresh hus⟩

/-! ## A run of three ticks -/

/-- Some first entries of a stream, and successes after them. -/
def entries (l : List Status) (n : Nat) : Status := l.getD n .success

theorem skips_entries (l : List Status) :
    Skips (entries l) (entries (l.filter fun s => s ≠ .running)) := by
  induction l with
  | nil => exact fun _ _ => rfl
  | cons s l ih =>
    by_cases hs : s = .running
    · rw [List.filter_cons_of_neg (by simpa using hs)]
      exact (skips_of_running hs).2 ih
    · rw [List.filter_cons_of_pos (by simpa using hs)]
      exact (skips_of_ne_running hs).2 ⟨rfl, ih⟩

theorem entries_ne_ready {l : List Status} (hl : .ready ∉ l) (n : Nat) : entries l n ≠ .ready := by
  unfold entries
  rw [List.getD_eq_getElem?_getD]
  cases hn : l[n]? with
  | none => decide
  | some s =>
    rintro rfl
    exact hl (List.mem_of_getElem? hn)

theorem unpaused_player (id : String) {l : List Status} (hl : .ready ∉ l) :
    Unpaused (player (H := H) id (entries l))
      (player id (entries (l.filter fun s => s ≠ .running))) :=
  .leaf (leaf_player _ _) (leaf_player _ _) rfl (plays_player _ (entries_ne_ready hl))
    (plays_player _ (entries_ne_ready fun h => hl (List.mem_of_mem_filter h))) (skips_entries l)

/-- A sequence of a leaf and of another one twice. -/
def twice (a b : List Status) : Tree Rehearsal.host :=
  .node (.fresh "s" .sequence "Sequence" {} .nil (.sequence {} {}))
    [player "a" (entries a), .node
      (.fresh "r" .repeater "Repeater" {} .nil (.repeater { repeatCount := 2 } {}))
      [player "b" (entries b)]]

/-- The run pauses at the first leaf, and between two successes of the other one. -/
theorem performs_twice :
    Unpaused (twice [.running] [.success, .running]) (twice [] [.success]) ∧
      (∃ t', Course (twice [.running] [.success, .running])
        [(.success, [("b", .success), ("b", .success), ("a", .success)])] t') ∧
      (twice [] [.success]).Performs
        [(.success, [("b", .success), ("b", .success), ("a", .success)])] := by
  have ha := unpaused_player (H := Rehearsal.host) "a" (l := [.running]) (by decide)
  have hb := unpaused_player (H := Rehearsal.host) "b" (l := [.success, .running]) (by decide)
  have hu : Unpaused (twice [.running] [.success, .running]) (twice [] [.success]) :=
    .node rfl rfl trivial rfl (.cons ha (.cons (.node rfl rfl trivial rfl (.cons hb .nil)) .nil))
  let t := twice [.running] [.success, .running]
  let x := Rehearsal.clock 0
  have h₁ : x.Adds (tick t x).stage [] := rfl
  have h₂ : x.Adds (tick (tick t x).state x).stage [("b", .success), ("a", .success)] := by
    unfold Stage.Adds
    decide +kernel
  have h₃ : x.Adds (tick (tick (tick t x).state x).state x).stage [("b", .success)] := by
    unfold Stage.Adds
    decide +kernel
  have hrun := Runs.waits rfl h₁ (.waits rfl h₂ (.ends rfl (by decide) h₃))
  exact ⟨hu, ⟨_, .cons hrun (.nil _)⟩, hu.performs (.cons hrun (.nil _))⟩

end Conduct.Tree
