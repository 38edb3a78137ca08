import Conduct.Proofs.Ids
import Conduct.Tree.Load

/-! How trees are loaded.

A load draws every id from a pool that remembers all ids drawn before. So the ids of a loaded tree are
distinct, and the check that a parent makes of a new child finds no clash: `Loading.below` builds the
children in a row and leaves that check out. Main statements: `Loading.tree_eq_below`,
`Loading.tree_eq_ok_iff`, `Loading.made_tree` and `Made.reload`.
-/

set_option autoImplicit false

namespace Conduct

variable {H : Host}

theorem freshId_injective {m n : Nat} (h : freshId m = freshId n) : m = n := by
  have htext : toString m = toString n := (String.append_right_inj freshStart).1 h
  have hdigits := congrArg (fun s => Nat.ofDigitChars 10 s.toList 0) htext
  simpa [Nat.toString_eq_ofList_toDigits] using hdigits

theorem isEmpty_freshId (n : Nat) : (freshId n).isEmpty = false := by
  simp [freshId, freshStart]

namespace Loading

variable {l : Loading H} {p : Position} {pool pool' pool'' : IdPool} {e : Entry} {n : Node H}
  {cs done : List (Tree H)} {r : Record} {rs : List Record} {t child : Tree H}

/-! ## Drawing ids -/

theorem idOf_empty {catalog : Catalog H} (he : e.id.isEmpty = true) (next : Nat) :
    idOf ⟨catalog, false⟩ e next = (freshId next, next + 1) := by
  unfold idOf
  rw [he, Bool.or_true, if_pos rfl]

theorem idOf_given {catalog : Catalog H} (he : e.id.isEmpty = false) (next : Nat) :
    idOf ⟨catalog, false⟩ e next = (e.id, next) := by
  unfold idOf
  rw [he, Bool.or_self, if_neg Bool.false_ne_true]

theorem isEmpty_idOf (l : Loading H) (e : Entry) (next : Nat) :
    (l.idOf e next).1.isEmpty = false := by
  unfold idOf
  split
  · exact isEmpty_freshId next
  · next h =>
    simp only [Bool.or_eq_true, not_or, Bool.not_eq_true] at h
    exact h.2

theorem le_idOf (l : Loading H) (e : Entry) (next : Nat) : next ≤ (l.idOf e next).2 := by
  unfold idOf
  split
  · exact Nat.le_succ next
  · exact Nat.le_refl next

/-- Distinct ids that are new to the pool go into it, and no others. -/
structure Takes (pool : IdPool) (ids : List String) (pool' : IdPool) : Prop where
  distinct : ids.Nodup
  new : ∀ id ∈ ids, id ∉ pool.used
  used : ∀ id, id ∈ pool'.used ↔ id ∈ ids ∨ id ∈ pool.used
  next : pool.next ≤ pool'.next

theorem takes_nil (pool : IdPool) : Takes pool [] pool :=
  ⟨List.nodup_nil, fun _ h => absurd h List.not_mem_nil, fun _ => by simp, Nat.le_refl _⟩

theorem Takes.append {a b : List String} (ha : Takes pool a pool') (hb : Takes pool' b pool'') :
    Takes pool (a ++ b) pool'' := by
  have hdisjoint : ∀ x ∈ a, ∀ y ∈ b, x ≠ y := by
    rintro x hx y hy rfl
    exact hb.new x hy ((ha.used x).2 (.inl hx))
  refine ⟨List.nodup_append.2 ⟨ha.distinct, hb.distinct, hdisjoint⟩, ?_, ?_,
    Nat.le_trans ha.next hb.next⟩
  · intro id hid hold
    rcases List.mem_append.1 hid with h | h
    · exact ha.new id h hold
    · exact hb.new id h ((ha.used id).2 (.inr hold))
  · intro id
    rw [hb.used, ha.used, List.mem_append]
    tauto

/-- What a node is built from, and what the build fails with otherwise. -/
theorem node_eq_ok_iff : l.node p e pool = .ok (n, pool') ↔
    ∃ kind b, Kind.ofTag? e.tag = some kind ∧ l.catalog.build kind e.properties = .ok b ∧
      (l.idOf e pool.next).1 ∉ pool.used ∧
      n = .fresh (l.idOf e pool.next).1 kind e.name e.layout e.properties b ∧
      pool' = ⟨(l.idOf e pool.next).1 :: pool.used, (l.idOf e pool.next).2⟩ := by
  unfold node
  cases Kind.ofTag? e.tag with
  | none => simp
  | some kind =>
    cases hb : l.catalog.build kind e.properties with
    | error err => simp [hb, Except.mapError, bind, Except.bind]
    | ok b =>
      by_cases hid : (l.idOf e pool.next).1 ∈ pool.used
      · simp [hb, hid, Except.mapError, bind, Except.bind]
      · simp [hb, hid, Except.mapError, bind, Except.bind, eq_comm]

theorem node_eq_error {err : LoadError} (h : l.node p e pool = .error err) :
    (Kind.ofTag? e.tag = none ∧ err = .build (some p) (.unknownKind e.tag)) ∨
    (∃ kind b, Kind.ofTag? e.tag = some kind ∧ l.catalog.build kind e.properties = .error b ∧
      err = .build (some p) b) ∨
    ((l.idOf e pool.next).1 ∈ pool.used ∧ err = .duplicateId (l.idOf e pool.next).1 p) := by
  unfold node at h
  cases hk : Kind.ofTag? e.tag with
  | none =>
    rw [hk] at h
    cases h
    exact .inl ⟨rfl, rfl⟩
  | some kind =>
    rw [hk] at h
    rcases bind_eq_error.1 h with hb | ⟨b, -, h⟩
    · obtain ⟨b, hbuild, rfl⟩ := mapError_eq_error hb
      exact .inr (.inl ⟨kind, b, rfl, hbuild, rfl⟩)
    · dsimp only at h
      split at h
      · next hid =>
        cases h
        exact .inr (.inr ⟨List.contains_iff_mem.1 hid, rfl⟩)
      · cases h

theorem takes_node (h : l.node p e pool = .ok (n, pool')) : Takes pool [n.id] pool' := by
  obtain ⟨kind, b, -, -, hnew, rfl, rfl⟩ := node_eq_ok_iff.1 h
  refine ⟨List.nodup_singleton _, ?_, ?_, le_idOf l e pool.next⟩
  · intro id hid
    rw [List.mem_singleton.1 hid]
    exact hnew
  · intro id
    rw [List.mem_cons, List.mem_singleton]
    rfl

/-! ## Children without their parents -/

/-- Builds trees in a row, the first of which has the given index. -/
def trees (l : Loading H) (p : Position) :
    Nat → IdPool → List Record → Except LoadError (List (Tree H) × IdPool)
  | _, pool, [] => .ok ([], pool)
  | index, pool, r :: rs => do
    let (t, pool) ← l.tree (p.child index) pool r
    let (ts, pool) ← l.trees p (index + 1) pool rs
    .ok (t :: ts, pool)

/-- Builds what is below a node. A node that allows no children refuses the first one as soon as it is
built. -/
def below (l : Loading H) (p : Position) (n : Node H) (pool : IdPool) (rs : List Record) :
    Except LoadError (Tree H × IdPool) :=
  if n.behavior.limit.isClosed then
    match rs with
    | [] => .ok (.node n [], pool)
    | r :: _ => do
      let _ ← l.tree (p.child 0) pool r
      .error (.refused p n.kind n.name .tooManyNodes)
  else (l.trees p 0 pool rs).map fun (cs, pool) => (.node n cs, pool)

/-- Whatever is built from a record takes its ids into the pool. -/
def Draws (l : Loading H) (r : Record) : Prop :=
  ∀ {p : Position} {pool pool' : IdPool} {t : Tree H}, l.tree p pool r = .ok (t, pool') →
    Takes pool t.ids pool'

theorem trees_cons_eq_ok_iff {index : Nat} {ts : List (Tree H)} :
    l.trees p index pool (r :: rs) = .ok (ts, pool'') ↔
      ∃ t pool' ts', l.tree (p.child index) pool r = .ok (t, pool') ∧
        l.trees p (index + 1) pool' rs = .ok (ts', pool'') ∧ ts = t :: ts' := by
  constructor
  · intro h
    obtain ⟨⟨t, pool'⟩, ht, h⟩ := bind_eq_ok h
    obtain ⟨⟨ts', pool''⟩, hts, h⟩ := bind_eq_ok h
    cases h
    exact ⟨t, pool', ts', ht, hts, rfl⟩
  · rintro ⟨t, pool', ts', ht, hts, rfl⟩
    rw [trees]
    simp only [ht, hts, bind, Except.bind]

theorem takes_trees (hrs : ∀ r ∈ rs, l.Draws r) {index : Nat}
    (h : l.trees p index pool rs = .ok (cs, pool')) : Takes pool (cs.flatMap Tree.ids) pool' := by
  induction rs generalizing index pool cs with
  | nil =>
    cases h
    exact takes_nil _
  | cons r rs ih =>
    obtain ⟨hr, hrs⟩ := List.forall_mem_cons.1 hrs
    obtain ⟨c, pool₁, cs', hc, hcs, rfl⟩ := trees_cons_eq_ok_iff.1 h
    rw [List.flatMap_cons]
    exact (hr hc).append (ih hrs hcs)

theorem attach_closed (hn : n.behavior.limit.isClosed = true) :
    attach p (.node n done) child = .error (.refused p n.kind n.name .tooManyNodes) := by
  unfold attach Tree.addChild Tree.insertChild
  rw [show (Rose.node n done).value = n from rfl, if_pos hn]
  rfl

theorem attach_open (hn : n.behavior.limit.isClosed = false)
    (hnew : ∀ id ∈ child.ids, id ∉ Tree.ids (.node n done)) :
    attach p (.node n done) child = .ok (.node n (done ++ [child])) := by
  unfold attach
  rw [Tree.addChild_eq_ok_iff.2 ⟨hn, hnew, rfl⟩]
  rfl

theorem childTrees_closed (hn : n.behavior.limit.isClosed = true) (index : Nat) :
    l.childTrees p index (.node n done) pool (r :: rs) =
      l.tree (p.child index) pool r >>= fun _ =>
        .error (.refused p n.kind n.name .tooManyNodes) := by
  rw [childTrees]
  cases l.tree (p.child index) pool r with
  | error err => rfl
  | ok built =>
    obtain ⟨child, pool'⟩ := built
    show (attach p (.node n done) child >>= _) = _
    rw [attach_closed hn]
    rfl

/-- The ids of the node and of the children that it has so far are in the pool, so the next child
clashes with none of them. -/
theorem childTrees_open (hrs : ∀ r ∈ rs, l.Draws r) (hn : n.behavior.limit.isClosed = false)
    (hdone : ∀ id ∈ Tree.ids (.node n done), id ∈ pool.used) (index : Nat) :
    l.childTrees p index (.node n done) pool rs =
      (l.trees p index pool rs).map fun (cs, pool) => (.node n (done ++ cs), pool) := by
  induction rs generalizing index pool done with
  | nil =>
    rw [childTrees, trees]
    simp only [Except.map, List.append_nil]
  | cons r rs ih =>
    obtain ⟨hr, hrs⟩ := List.forall_mem_cons.1 hrs
    rw [childTrees, trees]
    cases hchild : l.tree (p.child index) pool r with
    | error err => rfl
    | ok built =>
      obtain ⟨child, pool'⟩ := built
      have htakes := hr hchild
      have hnew : ∀ id ∈ child.ids, id ∉ Tree.ids (.node n done) :=
        fun id hid hold => htakes.new id hid (hdone id hold)
      have hdone' : ∀ id ∈ Tree.ids (.node n (done ++ [child])), id ∈ pool'.used := by
        intro id hid
        rw [Tree.ids_node, List.flatMap_append, List.flatMap_singleton, ← List.cons_append,
          ← Tree.ids_node, List.mem_append] at hid
        rw [htakes.used]
        exact hid.symm.imp_right (hdone id)
      show (attach p (.node n done) child >>= _) = _
      rw [attach_open hn hnew]
      show l.childTrees p (index + 1) (.node n (done ++ [child])) pool' rs = _
      rw [ih hrs hdone' (index + 1)]
      simp only [bind, Except.bind]
      cases l.trees p (index + 1) pool' rs with
      | error err => rfl
      | ok built =>
        simp only [Except.map, List.append_assoc, List.singleton_append]

theorem tree_eq_below_of_draws (hrs : ∀ r ∈ rs, l.Draws r) :
    l.tree p pool (.node e rs) = l.node p e pool >>= fun x => l.below p x.1 x.2 rs := by
  rw [tree]
  cases hn : l.node p e pool with
  | error err => rfl
  | ok built =>
    obtain ⟨n, pool'⟩ := built
    show l.childTrees p 0 (.node n []) pool' rs = l.below p n pool' rs
    unfold below
    split
    · next hclosed =>
      cases rs with
      | nil => rfl
      | cons r rs => exact childTrees_closed hclosed 0
    · next hopen =>
      rw [Bool.not_eq_true] at hopen
      refine childTrees_open hrs hopen ?_ 0
      intro id hid
      rw [Tree.ids_node, List.flatMap_nil] at hid
      exact ((takes_node hn).used id).2 (.inl hid)

theorem below_eq_ok_iff : l.below p n pool rs = .ok (t, pool') ↔
    ∃ cs, l.trees p 0 pool rs = .ok (cs, pool') ∧ (n.behavior.limit.isClosed = true → rs = []) ∧
      t = .node n cs := by
  unfold below
  cases hn : n.behavior.limit.isClosed with
  | true =>
    cases rs with
    | nil =>
      rw [trees]
      simp only [if_true, Except.ok.injEq, Prod.mk.injEq]
      constructor
      · rintro ⟨rfl, rfl⟩
        exact ⟨[], ⟨rfl, rfl⟩, fun _ => trivial, rfl⟩
      · rintro ⟨cs, ⟨rfl, rfl⟩, -, rfl⟩
        exact ⟨rfl, rfl⟩
    | cons r rs =>
      constructor
      · intro h
        obtain ⟨_, -, h⟩ := bind_eq_ok h
        cases h
      · rintro ⟨cs, -, hnil, -⟩
        cases hnil rfl
  | false =>
    constructor
    · intro h
      obtain ⟨⟨cs, pool'⟩, hcs, he⟩ := map_eq_ok h
      cases he
      exact ⟨cs, hcs, nofun, rfl⟩
    · rintro ⟨cs, hcs, -, rfl⟩
      rw [hcs]
      rfl

theorem draws (l : Loading H) (r : Record) : l.Draws r := by
  induction r using Rose.ofChildren with
  | h e rs ih =>
    intro p pool t pool' h
    rw [tree_eq_below_of_draws ih] at h
    obtain ⟨⟨n, pool₁⟩, hn, h⟩ := bind_eq_ok h
    obtain ⟨cs, hcs, -, rfl⟩ := below_eq_ok_iff.1 h
    rw [Tree.ids_node, ← List.singleton_append]
    exact (takes_node hn).append (takes_trees ih hcs)

/-- A tree is loaded by building its top and then what is below it. -/
theorem tree_eq_below (l : Loading H) (p : Position) (pool : IdPool) (e : Entry)
    (rs : List Record) :
    l.tree p pool (.node e rs) = l.node p e pool >>= fun x => l.below p x.1 x.2 rs :=
  tree_eq_below_of_draws fun r _ => l.draws r

theorem tree_eq_ok_iff : l.tree p pool (.node e rs) = .ok (t, pool'') ↔
    ∃ n pool' cs, l.node p e pool = .ok (n, pool') ∧ l.trees p 0 pool' rs = .ok (cs, pool'') ∧
      (n.behavior.limit.isClosed = true → rs = []) ∧ t = .node n cs := by
  rw [tree_eq_below]
  constructor
  · intro h
    obtain ⟨⟨n, pool'⟩, hn, h⟩ := bind_eq_ok h
    obtain ⟨cs, hcs⟩ := below_eq_ok_iff.1 h
    exact ⟨n, pool', cs, hn, hcs⟩
  · rintro ⟨n, pool', cs, hn, hcs⟩
    rw [hn]
    exact below_eq_ok_iff.2 ⟨cs, hcs⟩

end Loading

/-! ## Trees as they are built -/

/-- The node is what the catalog builds from its entry, and has no children where none are allowed. -/
def MadeNode (catalog : Catalog H) (n : Node H) (cs : List (Tree H)) : Prop :=
  n.id.isEmpty = false ∧ catalog.build n.kind n.properties = .ok n.behavior ∧
    n = .fresh n.id n.kind n.name n.layout n.properties n.behavior ∧
    (n.behavior.limit.isClosed = true → cs = [])

structure Made (catalog : Catalog H) (t : Tree H) : Prop where
  distinct : t.ids.Nodup
  nodes : t.Everywhere (MadeNode catalog)

namespace Loading

variable {l : Loading H} {p : Position} {pool pool' : IdPool} {r : Record} {t : Tree H}

theorem madeNode {e : Entry} {n : Node H} {cs : List (Tree H)}
    (h : l.node p e pool = .ok (n, pool')) (hclosed : n.behavior.limit.isClosed = true → cs = []) :
    MadeNode l.catalog n cs := by
  obtain ⟨kind, b, -, hb, -, rfl, -⟩ := node_eq_ok_iff.1 h
  exact ⟨isEmpty_idOf l e pool.next, hb, rfl, hclosed⟩

theorem forall_mem_trees {P : Tree H → Prop} {rs : List Record} {cs : List (Tree H)} {index : Nat}
    (hrs : ∀ r ∈ rs, ∀ {p : Position} {pool pool' : IdPool} {t : Tree H},
      l.tree p pool r = .ok (t, pool') → P t)
    (h : l.trees p index pool rs = .ok (cs, pool')) : ∀ c ∈ cs, P c := by
  induction rs generalizing index pool cs with
  | nil =>
    cases h
    exact fun c hc => absurd hc List.not_mem_nil
  | cons r rs ih =>
    obtain ⟨hr, hrs⟩ := List.forall_mem_cons.1 hrs
    obtain ⟨c, pool₁, cs', hc, hcs, rfl⟩ := trees_cons_eq_ok_iff.1 h
    exact List.forall_mem_cons.2 ⟨hr hc, ih hrs hcs⟩

theorem length_trees {rs : List Record} {cs : List (Tree H)} {index : Nat}
    (h : l.trees p index pool rs = .ok (cs, pool')) : cs.length = rs.length := by
  induction rs generalizing index pool cs with
  | nil =>
    cases h
    rfl
  | cons r rs ih =>
    obtain ⟨c, pool₁, cs', -, hcs, rfl⟩ := trees_cons_eq_ok_iff.1 h
    rw [List.length_cons, List.length_cons, ih hcs]

theorem everywhere_made (h : l.tree p pool r = .ok (t, pool')) :
    t.Everywhere (MadeNode l.catalog) := by
  induction r using Rose.ofChildren generalizing p pool t pool' with
  | h e rs ih =>
    obtain ⟨n, pool₁, cs, hn, hcs, hclosed, rfl⟩ := tree_eq_ok_iff.1 h
    refine Rose.everywhere_node.2 ⟨madeNode hn ?_, forall_mem_trees ih hcs⟩
    intro hc
    have hlength := length_trees hcs
    rw [hclosed hc] at hlength
    exact List.eq_nil_of_length_eq_zero hlength

theorem made_tree (h : l.tree p pool r = .ok (t, pool')) : Made l.catalog t :=
  ⟨(l.draws r h).distinct, everywhere_made h⟩

end Loading

theorem Tree.record_node (n : Node H) (cs : List (Tree H)) :
    record (.node n cs) = .node n.entry (cs.map record) := Rose.map_node Node.entry n cs

namespace Made

variable {catalog : Catalog H} {t : Tree H}

theorem nonempty (h : Made catalog t) : ∀ id ∈ t.ids, id ≠ "" := by
  have hnodes := Rose.everywhere_iff_preorder.1 (h.nodes.imp fun n cs hn => hn.1)
  rintro id hid rfl
  obtain ⟨n, hn, he⟩ := List.mem_map.1 hid
  have hempty := hnodes n hn
  rw [he] at hempty
  cases hempty

theorem of_mem {n : Node H} {cs : List (Tree H)} (h : Made catalog (.node n cs)) {c : Tree H}
    (hc : c ∈ cs) : Made catalog c :=
  ⟨Tree.nodup_ids_of_mem h.distinct hc, (Rose.everywhere_node.1 h.nodes).2 c hc⟩

theorem reload_node {n : Node H} {cs : List (Tree H)} (hn : MadeNode catalog n cs) (p : Position)
    {pool : IdPool} (hnew : n.id ∉ pool.used) : Loading.node ⟨catalog, false⟩ p n.entry pool =
      .ok (n, ⟨n.id :: pool.used, pool.next⟩) := by
  obtain ⟨hid, hbuild, hfresh, -⟩ := hn
  have hidOf : Loading.idOf ⟨catalog, false⟩ n.entry pool.next = (n.id, pool.next) :=
    Loading.idOf_given hid pool.next
  refine Loading.node_eq_ok_iff.2 ⟨n.kind, n.behavior, Kind.ofTag?_tag n.kind, hbuild, ?_⟩
  rw [hidOf]
  exact ⟨hnew, hfresh, rfl⟩

/-- Trees in a row are loaded again, if each of them is wherever its ids are new. -/
theorem reload_trees {cs : List (Tree H)} (hids : (cs.flatMap Tree.ids).Nodup)
    (hcs : ∀ c ∈ cs, ∀ (p : Position) (pool : IdPool), (∀ id ∈ c.ids, id ∉ pool.used) →
      ∃ used, Loading.tree ⟨catalog, false⟩ p pool c.record = .ok (c, ⟨used, pool.next⟩))
    (p : Position) (index : Nat) (pool : IdPool)
    (hnew : ∀ id ∈ cs.flatMap Tree.ids, id ∉ pool.used) :
    ∃ used, Loading.trees ⟨catalog, false⟩ p index pool (cs.map Tree.record) =
      .ok (cs, ⟨used, pool.next⟩) := by
  induction cs generalizing index pool with
  | nil => exact ⟨pool.used, rfl⟩
  | cons c cs ih =>
    obtain ⟨hc, hcs⟩ := List.forall_mem_cons.1 hcs
    rw [List.flatMap_cons] at hids hnew
    obtain ⟨-, hrest, hdisjoint⟩ := List.nodup_append.1 hids
    obtain ⟨used, htree⟩ := hc (p.child index) pool
      fun id hid => hnew id (List.mem_append_left _ hid)
    have htakes := Loading.draws _ _ htree
    have hnew' : ∀ id ∈ cs.flatMap Tree.ids, id ∉ used := by
      intro id hid hold
      rcases (htakes.used id).1 hold with h | h
      · exact hdisjoint id h id hid rfl
      · exact hnew id (List.mem_append_right _ hid) h
    obtain ⟨used', htrees⟩ := ih hrest hcs (index + 1) ⟨used, pool.next⟩ hnew'
    exact ⟨used', Loading.trees_cons_eq_ok_iff.2 ⟨c, _, cs, htree, htrees, rfl⟩⟩

/-- Wherever its ids are new, a tree as it is built is loaded again from its record. -/
theorem reload (h : Made catalog t) (p : Position) (pool : IdPool)
    (hnew : ∀ id ∈ t.ids, id ∉ pool.used) :
    ∃ used, Loading.tree ⟨catalog, false⟩ p pool t.record = .ok (t, ⟨used, pool.next⟩) := by
  induction t using Rose.ofChildren generalizing p pool with
  | h n cs ih =>
    obtain ⟨hn, -⟩ := Rose.everywhere_node.1 h.nodes
    have hids := h.distinct
    rw [Tree.ids_node, List.nodup_cons] at hids
    rw [Tree.ids_node, List.forall_mem_cons] at hnew
    have hbelow : ∀ id ∈ cs.flatMap Tree.ids, id ∉ n.id :: pool.used := by
      intro id hid hold
      rcases List.mem_cons.1 hold with rfl | hold
      · exact hids.1 hid
      · exact hnew.2 id hid hold
    obtain ⟨used, htrees⟩ := reload_trees hids.2 (fun c hc => ih c hc (h.of_mem hc)) p 0
      ⟨n.id :: pool.used, pool.next⟩ hbelow
    refine ⟨used, ?_⟩
    rw [Tree.record_node]
    refine Loading.tree_eq_ok_iff.2 ⟨n, _, cs, reload_node hn p hnew.1, htrees, ?_, rfl⟩
    intro hclosed
    rw [hn.2.2.2 hclosed, List.map_nil]

end Made

end Conduct
