import Conduct.Proofs.Loading
import Conduct.RootedTree

/-! What loading builds.

Where the host puts no behaviors of its own in the place of the usual ones, a loaded tree consists of
nodes that were never ticked, each with the behavior of its kind, and the children of a node have
distinct ids. Main statements: `Catalog.build_anew`, `Made.built` and `RootedTree.built_load`.
-/

set_option autoImplicit false

namespace Conduct

variable {H : Host}

namespace Catalog

variable {c : Catalog H} {kind : Kind} {properties : Properties} {b : Behavior H} {e : BuildError}

theorem build_eq_buildUsual (hc : c.builders = []) (kind : Kind) (properties : Properties) :
    c.build kind properties = c.buildUsual kind properties := by
  unfold build
  rw [hc, List.lookup_nil]

/-- The usual behaviors of a catalog, as they are built. -/
inductive Usual (c : Catalog H) : Kind → Behavior H → Prop
  | root (s : Root.Settings) : Usual c .root (.root s none)
  | selector (s : Selector.Settings) : Usual c .selector (.selector s {} s.generator)
  | sequence (s : Sequence.Settings) : Usual c .sequence (.sequence s {})
  | parallel (s : Parallel.Settings) : Usual c .parallel (.parallel s .nil)
  | inverter (s : Inverter.Settings) : Usual c .inverter (.inverter s)
  | repeater (s : Repeater.Settings) : Usual c .repeater (.repeater s {})
  | action {s : Action.Settings} {script : Option (Script H Status)}
      (h : namedScript c.actions (s.deed = .custom) s.script = .ok script) :
      Usual c .action (.action s script {})
  | condition {s : Condition.Settings} {script : Option (Script H Bool)} {p : PropertyPath}
      (h : namedScript c.conditions (s.subject = .custom) s.script = .ok script)
      (hp : path s = .ok p) : Usual c .condition (.condition s script p)

theorem usual_of_build (hc : c.builders = []) (h : c.build kind properties = .ok b) :
    c.Usual kind b := by
  rw [build_eq_buildUsual hc] at h
  cases kind with
  | root =>
    obtain ⟨s, -, rfl⟩ := map_eq_ok h
    exact .root s
  | selector =>
    obtain ⟨s, -, rfl⟩ := map_eq_ok h
    exact .selector s
  | sequence =>
    obtain ⟨s, -, rfl⟩ := map_eq_ok h
    exact .sequence s
  | parallel =>
    obtain ⟨s, -, rfl⟩ := map_eq_ok h
    exact .parallel s
  | inverter =>
    obtain ⟨s, -, rfl⟩ := map_eq_ok h
    exact .inverter s
  | repeater =>
    obtain ⟨s, -, rfl⟩ := map_eq_ok h
    exact .repeater s
  | action =>
    obtain ⟨s, -, h⟩ := bind_eq_ok h
    obtain ⟨script, hscript, h⟩ := bind_eq_ok h
    cases h
    exact .action hscript
  | condition =>
    obtain ⟨s, -, h⟩ := bind_eq_ok h
    obtain ⟨script, hscript, h⟩ := bind_eq_ok h
    obtain ⟨p, hpath, h⟩ := bind_eq_ok h
    cases h
    exact .condition hscript hpath
  | retry => cases h
  | timeout => cases h
  | cooldown => cases h

/-- What a usual behavior is built from is all there is to it, and it is of its kind. -/
theorem build_anew (hc : c.builders = []) (h : c.build kind properties = .ok b) :
    b.anew = b ∧ b.kind? = some kind := by
  cases usual_of_build hc h <;> exact ⟨rfl, rfl⟩

/-! ## What usual behaviors are refused for -/

theorem settings_eq_error {σ : Type} {known : List (Json.Setting σ)} {start : σ}
    (h : settings kind known start properties = .error e) : ∃ m, e = .badProperties kind.tag m := by
  obtain ⟨m, -, rfl⟩ := mapError_eq_error h
  exact ⟨m, rfl⟩

theorem namedScript_eq_error {α : Type} {scripts : Dict (Script H α)} {asked : Bool}
    {name : Option String} (h : namedScript scripts asked name = .error e) :
    ∃ name, e = .unknownScript name := by
  unfold namedScript at h
  split at h
  · next name =>
    have hscript := map_eq_error h
    unfold script at hscript
    split at hscript
    · cases hscript
    · cases hscript
      exact ⟨name, rfl⟩
  · cases h

theorem path_eq_error {s : Condition.Settings} (h : path s = .error e) : ∃ m, e = .badPath m := by
  unfold path at h
  split at h
  · obtain ⟨m, -, rfl⟩ := mapError_eq_error h
    exact ⟨m, rfl⟩
  · cases h

/-- A usual behavior is refused as that of a reserved kind, for its properties, for a script that the
host has not, or for its path. -/
theorem build_eq_error (hc : c.builders = []) (h : c.build kind properties = .error e) :
    (kind.isReserved = true ∧ e = .reserved kind.tag) ∨ (∃ m, e = .badProperties kind.tag m) ∨
      (∃ name, e = .unknownScript name) ∨ ∃ m, e = .badPath m := by
  rw [build_eq_buildUsual hc] at h
  cases kind with
  | root => exact .inr (.inl (settings_eq_error (map_eq_error h)))
  | selector => exact .inr (.inl (settings_eq_error (map_eq_error h)))
  | sequence => exact .inr (.inl (settings_eq_error (map_eq_error h)))
  | parallel => exact .inr (.inl (settings_eq_error (map_eq_error h)))
  | inverter => exact .inr (.inl (settings_eq_error (map_eq_error h)))
  | repeater => exact .inr (.inl (settings_eq_error (map_eq_error h)))
  | action =>
    rcases bind_eq_error.1 h with hs | ⟨s, -, h⟩
    · exact .inr (.inl (settings_eq_error hs))
    · rcases bind_eq_error.1 h with hs | ⟨script, -, h⟩
      · exact .inr (.inr (.inl (namedScript_eq_error hs)))
      · cases h
  | condition =>
    rcases bind_eq_error.1 h with hs | ⟨s, -, h⟩
    · exact .inr (.inl (settings_eq_error hs))
    · rcases bind_eq_error.1 h with hs | ⟨script, -, h⟩
      · exact .inr (.inr (.inl (namedScript_eq_error hs)))
      · rcases bind_eq_error.1 h with hp | ⟨path, -, h⟩
        · exact .inr (.inr (.inr (path_eq_error hp)))
        · cases h
  | retry =>
    cases h
    exact .inl ⟨rfl, rfl⟩
  | timeout =>
    cases h
    exact .inl ⟨rfl, rfl⟩
  | cooldown =>
    cases h
    exact .inl ⟨rfl, rfl⟩

/-- Only a tag can be unknown, and a kind has one. -/
theorem ne_unknownKind_of_build (hc : c.builders = []) (h : c.build kind properties = .error e)
    (tag : String) : e ≠ .unknownKind tag := by
  rcases build_eq_error hc h with ⟨-, rfl⟩ | ⟨m, rfl⟩ | ⟨name, rfl⟩ | ⟨m, rfl⟩ <;> exact nofun

end Catalog

/-! ## Loaded trees -/

theorem Behavior.isClosed_limit {b : Behavior H} {kind : Kind} (hb : b.kind? = some kind) :
    b.limit.isClosed = kind.isLeaf := by
  cases b <;> cases hb <;> rfl

/-- A tree as it is built: no node was ever ticked, every behavior is that of its kind, and the
children of a node have distinct ids. -/
structure Tree.Built (t : Tree H) : Prop where
  anew : t.anew = t
  kinds : t.Everywhere fun n cs => n.behavior.kind? = some n.kind ∧ (cs.map Tree.id).Nodup

namespace Made

variable {catalog : Catalog H} {t : Tree H}

theorem anew (hc : catalog.builders = []) (h : Made catalog t) : t.anew = t := by
  have hnodes : t.Everywhere fun n _ => n.anew = n := by
    refine h.nodes.imp ?_
    rintro n cs ⟨-, hbuild, hfresh, -⟩
    unfold Node.anew
    rw [(Catalog.build_anew hc hbuild).1, ← hfresh]
  exact Rose.map_eq_self hnodes

theorem built (hc : catalog.builders = []) (h : Made catalog t) : t.Built := by
  refine ⟨h.anew hc, ?_⟩
  have hids := Tree.everywhere_nodup h.distinct
  refine (h.nodes.and hids).imp ?_
  rintro n cs ⟨⟨-, hbuild, -⟩, hn⟩
  rw [Tree.ids_node, List.nodup_cons] at hn
  exact ⟨(Catalog.build_anew hc hbuild).2, hn.2.sublist (Tree.sublist_flatMap_ids cs)⟩

end Made

/-- A whole tree is refused for what is at its top, or else as a part of one would be. -/
theorem RootedTree.load_eq_error {catalog : Catalog H} {next : Nat} {r : Record} {err : LoadError}
    (h : load catalog next r = .error err) :
    (err = .missingRoot r.value.tag ∧ Kind.ofTag? r.value.tag ≠ some .root) ∨
      Tree.load catalog next r = .error err := by
  unfold load at h
  split at h
  · next hroot =>
    rcases bind_eq_error.1 h with ht | ⟨⟨t, next'⟩, ht, h⟩
    · exact .inr ht
    · -- what is loaded with the tag of a root has a root at its top
      obtain ⟨⟨u, pool⟩, hu, he⟩ := map_eq_ok ht
      cases he
      obtain ⟨e, rs⟩ := r
      obtain ⟨n, pool', ts, hn, -, -, rfl⟩ := Loading.tree_eq_ok_iff.1 hu
      obtain ⟨kind, b, hkind, -, -, rfl, -⟩ := Loading.node_eq_ok_iff.1 hn
      have hkindroot : kind = .root := Option.some.inj (hkind.symm.trans hroot)
      rcases bind_eq_error.1 h with hv | ⟨_, -, h⟩
      · unfold ofTree at hv
        split at hv
        · cases hv
        · next hne => exact absurd hkindroot hne
      · cases h
  · next hroot =>
    cases h
    exact .inl ⟨rfl, hroot⟩

/-- A whole tree is loaded in the same way as a part of one. -/
theorem RootedTree.tree_of_load {catalog : Catalog H} {next next' : Nat} {r : Record}
    {t : RootedTree H} (h : load catalog next r = .ok (t, next')) :
    Tree.load catalog next r = .ok (t.tree, next') := by
  unfold load at h
  split at h
  · obtain ⟨⟨u, m⟩, hu, h⟩ := bind_eq_ok h
    obtain ⟨v, hv, h⟩ := bind_eq_ok h
    cases h
    unfold ofTree at hv
    split at hv
    · cases hv
      exact hu
    · cases hv
  · cases h

theorem RootedTree.made_load {catalog : Catalog H} {next next' : Nat} {r : Record}
    {t : RootedTree H} (h : load catalog next r = .ok (t, next')) : Made catalog t.tree := by
  obtain ⟨⟨u, pool⟩, hu, he⟩ := map_eq_ok (tree_of_load h)
  cases he
  exact Loading.made_tree hu

theorem RootedTree.built_load {catalog : Catalog H} (hc : catalog.builders = []) {next next' : Nat}
    {r : Record} {t : RootedTree H} (h : load catalog next r = .ok (t, next')) : t.tree.Built :=
  (made_load h).built hc

end Conduct
