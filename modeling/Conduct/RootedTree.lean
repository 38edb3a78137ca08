import Conduct.Tree.Findings
import Conduct.Tree.Load
import Conduct.Tree.Tick

/-! Whole trees, with a root at the top.

The top stays a root whatever is done to the tree: neither ticks and resets nor edits change the
kind of a node, and the top is never taken out. Main statements: `Tree.kind_tick`, `Tree.kind_graft`
and `Tree.kind_detach?`.
-/

set_option autoImplicit false

namespace Conduct

variable {H : Host}

namespace Tree

def kind (t : Tree H) : Kind := t.value.kind

theorem kind_reset (t : Tree H) : t.reset.kind = t.kind := by
  cases t
  rfl

theorem kind_clearStats (t : Tree H) : t.clearStats.kind = t.kind := by
  cases t
  rfl

theorem kind_tickWithin (levels : Nat) (t : Tree H) (stage : Stage H) :
    (tickWithin levels t stage).state.kind = t.kind := by
  cases levels with
  | zero => rfl
  | succ levels =>
    obtain ⟨n, children⟩ := t
    simp only [tickWithin, Node.tick]
    split <;> rfl

theorem kind_tick (t : Tree H) (stage : Stage H) : (tick t stage).state.kind = t.kind :=
  kind_tickWithin t.height t stage

theorem kind_insertChild {parent child grown : Tree H} {index : Nat}
    (h : insertChild parent index child = .ok grown) : grown.kind = parent.kind := by
  unfold insertChild at h
  split at h
  · cases h
  · cases hc : checkDistinct parent child with
    | error e => simp [hc, bind, Except.bind] at h
    | ok u =>
      simp only [hc, bind, Except.bind, Except.ok.injEq] at h
      subst h
      rfl

theorem kind_replace {p : Node H → Bool} {t found new : Tree H} (hf : Rose.find? p t = some found)
    (hk : new.kind = found.kind) : kind (Rose.replace p new t) = t.kind := by
  obtain ⟨n, children⟩ := t
  simp only [Rose.find?] at hf
  simp only [Rose.replace]
  split
  · next hp =>
    simp only [hp, if_true, Option.some.injEq] at hf
    rw [hk, ← hf]
  · rfl

theorem kind_graft {t child grown : Tree H} {parentId : String} {index : Nat}
    (h : graft t parentId index child = .ok grown) : grown.kind = t.kind := by
  unfold graft at h
  cases hd : checkDistinct t child with
  | error e => simp [hd, bind, Except.bind] at h
  | ok u =>
    simp only [hd, bind, Except.bind] at h
    cases hf : find? t parentId with
    | none => simp [hf] at h
    | some parent =>
      simp only [hf] at h
      cases hi : insertChild parent index child with
      | error e => simp [hi] at h
      | ok new =>
        simp only [hi, Except.ok.injEq] at h
        subst h
        exact kind_replace hf (kind_insertChild hi)

theorem kind_detach? {t found rest : Tree H} {id : String}
    (h : detach? t id = some (found, rest)) : rest.kind = t.kind := by
  obtain ⟨n, children⟩ := t
  simp only [detach?, Rose.detach?] at h
  split at h
  · simp only [Option.some.injEq, Prod.mk.injEq] at h
    rw [← h.2]
    rfl
  · cases hd : Rose.detachAmong? (named id) children with
    | none => simp [hd] at h
    | some pair =>
      simp only [hd, Option.map_some, Option.some.injEq, Prod.mk.injEq] at h
      rw [← h.2]
      rfl

end Tree

/-- A tree with a root at its top. -/
structure RootedTree (H : Host) where
  tree : Tree H
  rooted : tree.kind = .root

namespace RootedTree

/-- The tree, if its top is a root. -/
def ofTree (t : Tree H) : Except LoadError (RootedTree H) :=
  if h : t.kind = .root then .ok ⟨t, h⟩ else .error (.missingRoot t.kind.tag)

/-- Puts a tree under a root with default options, which gets the given id. -/
def wrap (id : String) (t : Tree H) : RootedTree H :=
  ⟨.node (.fresh id .root "Root" {} .nil (.root {} none)) [t], rfl⟩

/-- Builds a whole tree; the top of the record has to be a root. -/
def load (catalog : Catalog H) (next : Nat) (r : Record) :
    Except LoadError (RootedTree H × Nat) :=
  if Kind.ofTag? r.value.tag = some .root then do
    let (t, next) ← Tree.load catalog next r
    let t ← ofTree t
    .ok (t, next)
  else .error (.missingRoot r.value.tag)

def tick (t : RootedTree H) (stage : Stage H) : Turn H Status (RootedTree H) :=
  let turn := t.tree.tick stage
  ⟨turn.outcome, ⟨turn.state, (Tree.kind_tick t.tree stage).trans t.rooted⟩, turn.stage⟩

def reset (t : RootedTree H) : RootedTree H :=
  ⟨t.tree.reset, (Tree.kind_reset t.tree).trans t.rooted⟩

def clearStats (t : RootedTree H) : RootedTree H :=
  ⟨t.tree.clearStats, (Tree.kind_clearStats t.tree).trans t.rooted⟩

def graft (t : RootedTree H) (parentId : String) (index : Nat) (child : Tree H) :
    Except EditError (RootedTree H) :=
  match h : t.tree.graft parentId index child with
  | .ok grown => .ok ⟨grown, (Tree.kind_graft h).trans t.rooted⟩
  | .error e => .error e

/-- Takes out the node with the id; the top is never taken out. -/
def detach? (t : RootedTree H) (id : String) : Option (Tree H × RootedTree H) :=
  match h : t.tree.detach? id with
  | some (found, rest) => some (found, ⟨rest, (Tree.kind_detach? h).trans t.rooted⟩)
  | none => none

/-- Puts a tree in the place of the subtree with the id at its top. The top of the whole tree gives
way to a root only. -/
def replace (t : RootedTree H) (id : String) (new : Tree H) : RootedTree H :=
  let changed := t.tree.replace id new
  if h : changed.kind = .root then ⟨changed, h⟩ else t

end RootedTree

end Conduct
