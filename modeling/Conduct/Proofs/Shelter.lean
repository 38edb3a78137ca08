import Conduct.Proofs.Errors
import Conduct.Proofs.TimeBudget
import Conduct.RootedTree

/-! A root is a shelter from panics.

A panic cuts off every tick on its way up to the next root. The root reports an error and resets the
child that the panic came from, so nothing is left of what the unwound nodes remembered of their runs.
Their accounts are left alone, while nodes whose ticks were completed before the panic keep them
entered. Main statement: `RootedTree.shelters`.
-/

set_option autoImplicit false

namespace Conduct

variable {H : Host}

/-- A reset leaves every node ready and with nothing in mind of a run. -/
theorem Tree.fresh_reset (t : Tree H) :
    t.reset.Everywhere fun n _ => n.status = .ready ∧ n.behavior.reset = n.behavior := by
  unfold Tree.reset
  rw [Rose.everywhere_map]
  induction t using Rose.ofChildren with
  | h n cs ih => exact Rose.everywhere_node.2 ⟨⟨rfl, n.behavior.reset_reset⟩, ih⟩

namespace RootedTree

/-- A tick of a whole tree of usual nodes comes to a report, whatever panics below. Wherever in it a
panic reaches a root, the root reports an error and forgets when its run started, and all nodes below
are ready and remember nothing of a run. Of all nodes below, those ticks are entered into the account
that no panic cut off, and nothing else. The record of the tree stays, and so do the flags. -/
theorem shelters {t : RootedTree H}
    (hb : t.tree.Everywhere fun n _ => n.behavior.kind? = some n.kind) (stage : Stage H) :
    (∃ r, (t.tick stage).outcome = .ok r) ∧ (t.tick stage).stage.flags = stage.flags ∧
    (t.tick stage).state.tree.record = t.tree.record ∧
    ∀ q u x s started (child : Tree H) rest p, (u, x) ∈ t.tree.callsAt q stage →
      u.value.behavior = .root s started → u.children = child :: rest →
      (child.tick (x.raise s.flags)).outcome = .error p →
      (u.tick x).outcome = .ok .error ∧ (u.tick x).stage.flags = x.flags ∧
      (u.tick x).state.record = u.record ∧ (u.tick x).state.value.behavior = .root s none ∧
      (∃ child', (u.tick x).state.children = child' :: rest ∧
        child'.Everywhere fun n _ => n.status = .ready ∧ n.behavior.reset = n.behavior) ∧
      ∀ place c, u.at? place = some c → ∃ c', (u.tick x).state.at? place = some c' ∧
        c'.value.tickCount = c.value.tickCount + (u.endingsAt place x).length ∧
        c'.value.lastTick = (u.endingsAt place x).getLast?.or c.value.lastTick := by
  have hcompletes : ∃ r, (t.tree.tick stage).outcome = .ok r := by
    obtain ⟨⟨n, cs⟩, hroot⟩ := t
    have hroot : n.kind = .root := hroot
    have hkind := (Rose.everywhere_node.1 hb).1
    rw [hroot] at hkind
    cases hn : n.behavior with
    | root s started => exact Tree.completes_of_root (t := .node n cs) hn stage
    | _ =>
      rw [hn] at hkind
      cases hkind
  obtain ⟨r, hr⟩ := hcompletes
  refine ⟨⟨r, hr⟩, Tree.flags_tick hr, t.tree.record_tick stage, ?_⟩
  intro q u x s started child rest p hu hn hcs hp
  obtain ⟨n, cs⟩ := u
  obtain rfl : cs = child :: rest := hcs
  obtain ⟨ho, hchildren, hbehavior⟩ := Root.tick_panicked hn hp
  refine ⟨ho, Tree.flags_tick ho, Tree.record_tick _ x, hbehavior, ?_, ?_⟩
  · exact ⟨_, hchildren, Tree.fresh_reset _⟩
  · intro place c hc
    exact Tree.account_tick place _ c x hc

section Shaken

/-- A root below which an action succeeds and the next one panics. -/
def shaken : Tree Rehearsal.host :=
  .node (.fresh "inner" .root "Root" {} .nil (.root {} none))
    [.node (.fresh "s" .sequence "S" {} .nil (.sequence {} {}))
      [Tree.acting "steady" (.value .success), Tree.acting "broken" (.panic ⟨none⟩)]]

/-- That root inside a whole tree. -/
def sheltering : RootedTree Rehearsal.host :=
  wrap "outer" (.node (.fresh "p" .parallel "P" {} .nil (.parallel {} .nil)) [shaken])

/-- The inner root reports the error, with the tick of the one action entered and that of the other
not. -/
theorem shelters_shaken :
    ∃ u x, (u, x) ∈ sheltering.tree.callsAt [0, 0] (Rehearsal.clock 7) ∧
      (u.tick x).outcome = .ok .error ∧
      (∃ c, (u.tick x).state.at? [0, 0] = some c ∧ c.value.tickCount = 1 ∧
        c.value.lastTick = some 7) ∧
      ∃ c, (u.tick x).state.at? [0, 1] = some c ∧ c.value.tickCount = 0 ∧
        c.value.lastTick = none := by
  have hb : sheltering.tree.Everywhere fun n _ => n.behavior.kind? = some n.kind := by
    simp [sheltering, wrap, shaken, Tree.acting, Rose.Everywhere, Rose.EverywhereAll, Node.fresh,
      Behavior.kind?]
  obtain ⟨-, -, -, hroots⟩ := shelters hb (Rehearsal.clock 7)
  obtain ⟨ho, -, -, -, -, haccount⟩ := hroots [0, 0] shaken ((Rehearsal.clock 7).raise ⟨false, false⟩)
    {} none _ [] ⟨none⟩ (List.mem_singleton_self _) rfl rfl rfl
  refine ⟨shaken, _, List.mem_singleton_self _, ho, ?_, ?_⟩
  · obtain ⟨c, hc, hcount, hlast⟩ := haccount [0, 0] _ rfl
    exact ⟨c, hc, hcount, hlast⟩
  · obtain ⟨c, hc, hcount, hlast⟩ := haccount [0, 1] _ rfl
    exact ⟨c, hc, hcount, hlast⟩

end Shaken

end RootedTree

end Conduct
