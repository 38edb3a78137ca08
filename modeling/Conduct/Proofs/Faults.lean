import Conduct.Proofs.Foresight

/-! Which of its faults a record is refused for.

The faults of a record are listed here as they are met from the top down: at each record its tag,
what its behavior is to be built from and its id, then what is below it, where a leaf refuses each
child once the child is all there. The list knows nothing of nodes, pools and trees; a load fails with
the first fault on it. Main statements: `Record.mem_faults_iff`, `Loading.tells_tree` and
`Record.load_fails_first`.
-/

set_option autoImplicit false

namespace Conduct

namespace Rose

variable {α : Type}

/-- The values before the node at a position, from the top down. -/
def earlier : Position → Rose α → List α
  | [], _ => []
  | index :: below, .node v cs =>
    v :: ((cs.take index).flatMap preorder ++ ((cs[index]?).map (earlier below)).getD [])

theorem earlier_cons {index : Nat} {q : Position} {v : α} {cs : List (Rose α)} {c : Rose α}
    (hc : cs[index]? = some c) :
    (node v cs).earlier (index :: q) = v :: ((cs.take index).flatMap preorder ++ c.earlier q) := by
  rw [earlier, hc]
  rfl

end Rose

variable {H : Host}

/-! ## The faults of a record -/

/-- What is wrong with an entry itself: its tag or else what its behavior is built from, and its
id. -/
def Entry.faults (catalog : Catalog H) (p : Position) (seen : List String) (e : Entry) :
    List LoadError :=
  (match Kind.ofTag? e.tag with
    | none => [.build (some p) (.unknownKind e.tag)]
    | some kind =>
      match catalog.build kind e.properties with
      | .error b => [.build (some p) b]
      | .ok _ => []) ++
  if e.id ≠ "" ∧ e.id ∈ seen then [.duplicateId e.id p] else []

/-- What follows each child of an entry: a leaf refuses it. -/
def Entry.refusal (p : Position) (e : Entry) : List LoadError :=
  match Kind.ofTag? e.tag with
  | none => []
  | some kind => if kind.isLeaf then [.refused p kind e.name .tooManyNodes] else []

namespace Record

def entryIds (r : Record) : List String := r.preorder.map Entry.id

mutual

/-- The faults of a record at a position, given the ids before it. -/
def faultsAt (catalog : Catalog H) (p : Position) (seen : List String) : Record → List LoadError
  | .node e rs =>
    e.faults catalog p seen ++ faultsBelow catalog p 0 (e.refusal p) (seen ++ [e.id]) rs

/-- The faults below an entry, the first child of which has the given index. -/
def faultsBelow (catalog : Catalog H) (p : Position) (index : Nat) (refusal : List LoadError)
    (seen : List String) : List Record → List LoadError
  | [] => []
  | r :: rs =>
    faultsAt catalog (p.child index) seen r ++
      (refusal ++ faultsBelow catalog p (index + 1) refusal (seen ++ r.entryIds) rs)

end

/-- The faults of a record in the order in which they are met. -/
def faults (catalog : Catalog H) (r : Record) : List LoadError := r.faultsAt catalog [] []

/-- A record with the given ids before it has a fault, which points at its position. -/
inductive Fault (catalog : Catalog H) (p : Position) (seen : List String) (e : Entry)
    (rs : List Record) : LoadError → Prop
  | unknownTag (h : Kind.ofTag? e.tag = none) :
      Fault catalog p seen e rs (.build (some p) (.unknownKind e.tag))
  | rejected {kind : Kind} {b : BuildError} (hkind : Kind.ofTag? e.tag = some kind)
      (hb : catalog.build kind e.properties = .error b) :
      Fault catalog p seen e rs (.build (some p) b)
  | duplicateId (hne : e.id ≠ "") (hseen : e.id ∈ seen) :
      Fault catalog p seen e rs (.duplicateId e.id p)
  | refused {kind : Kind} (hkind : Kind.ofTag? e.tag = some kind) (hleaf : kind.isLeaf = true)
      (hrs : rs ≠ []) : Fault catalog p seen e rs (.refused p kind e.name .tooManyNodes)

variable {catalog : Catalog H} {p : Position} {seen : List String} {e : Entry} {r : Record}
  {rs : List Record} {err : LoadError}

theorem entryIds_node (e : Entry) (rs : List Record) :
    entryIds (.node e rs) = e.id :: rs.flatMap entryIds := by
  unfold entryIds
  rw [Rose.preorder_node, List.map_cons, List.map_flatMap]

theorem fault_iff : Fault catalog p seen e rs err ↔
    err ∈ e.faults catalog p seen ∨ rs ≠ [] ∧ err ∈ e.refusal p := by
  constructor
  · intro h
    cases h with
    | unknownTag h => simp [Entry.faults, h]
    | rejected hkind hb => simp [Entry.faults, hkind, hb]
    | duplicateId hne hseen => simp [Entry.faults, hne, hseen]
    | refused hkind hleaf hrs => simp [Entry.refusal, hkind, hleaf, hrs]
  · rintro (h | ⟨hrs, h⟩)
    · unfold Entry.faults at h
      rcases List.mem_append.1 h with h | h
      · cases hkind : Kind.ofTag? e.tag with
        | none =>
          rw [hkind] at h
          cases List.mem_singleton.1 h
          exact .unknownTag hkind
        | some kind =>
          rw [hkind] at h
          cases hb : catalog.build kind e.properties with
          | error b =>
            simp only [hb] at h
            cases List.mem_singleton.1 h
            exact .rejected hkind hb
          | ok b =>
            simp only [hb] at h
            cases h
      · split at h
        · next hid =>
          cases List.mem_singleton.1 h
          exact .duplicateId hid.1 hid.2
        · cases h
    · unfold Entry.refusal at h
      cases hkind : Kind.ofTag? e.tag with
      | none =>
        rw [hkind] at h
        cases h
      | some kind =>
        rw [hkind] at h
        dsimp only at h
        split at h
        · next hleaf =>
          cases List.mem_singleton.1 h
          exact .refused hkind hleaf hrs
        · cases h

theorem mem_faultsBelow_iff {index : Nat} {refusal : List LoadError} :
    err ∈ faultsBelow catalog p index refusal seen rs ↔
      (rs ≠ [] ∧ err ∈ refusal) ∨ ∃ i r, rs[i]? = some r ∧
        err ∈ faultsAt catalog (p.child (index + i)) (seen ++ (rs.take i).flatMap entryIds) r := by
  induction rs generalizing index seen with
  | nil => simp [faultsBelow]
  | cons r rs ih =>
    rw [faultsBelow, List.mem_append, List.mem_append, ih]
    constructor
    · rintro (h | h | ⟨-, h⟩ | ⟨i, d, hd, h⟩)
      · exact .inr ⟨0, r, rfl, by simpa using h⟩
      · exact .inl ⟨List.cons_ne_nil r rs, h⟩
      · exact .inl ⟨List.cons_ne_nil r rs, h⟩
      · refine .inr ⟨i + 1, d, hd, ?_⟩
        rw [List.take_succ_cons, List.flatMap_cons, ← List.append_assoc]
        rwa [show index + (i + 1) = index + 1 + i by omega]
    · rintro (⟨-, h⟩ | ⟨i, d, hd, h⟩)
      · exact .inr (.inl h)
      · cases i with
        | zero =>
          cases hd
          exact .inl (by simpa using h)
        | succ i =>
          rw [List.take_succ_cons, List.flatMap_cons, ← List.append_assoc] at h
          rw [show index + (i + 1) = index + 1 + i by omega] at h
          exact .inr (.inr (.inr ⟨i, d, hd, h⟩))

theorem append_earlier_cons {i : Nat} (hr : rs[i]? = some r) (seen : List String) (q : Position) :
    seen ++ (Rose.earlier (i :: q) (.node e rs)).map Entry.id =
      seen ++ [e.id] ++ (rs.take i).flatMap entryIds ++ (r.earlier q).map Entry.id := by
  rw [Rose.earlier_cons hr, List.map_cons, List.map_append, List.map_flatMap]
  simp only [List.append_assoc, List.singleton_append]
  rfl

/-- A fault is on the list if it is one of the record at some position, given what is before that. -/
theorem mem_faultsAt_iff : err ∈ r.faultsAt catalog p seen ↔
    ∃ q e rs, r.at? q = some (.node e rs) ∧
      Fault catalog (p ++ q) (seen ++ (r.earlier q).map Entry.id) e rs err := by
  induction r using Rose.ofChildren generalizing p seen with
  | h e rs ih =>
    rw [faultsAt, List.mem_append, mem_faultsBelow_iff, ← or_assoc, ← fault_iff]
    constructor
    · rintro (h | ⟨i, r, hr, h⟩)
      · exact ⟨[], e, rs, rfl, by simpa [Rose.earlier] using h⟩
      · obtain ⟨q, e', rs', hq, h⟩ := (ih r (List.mem_of_getElem? hr)).1 h
        refine ⟨i :: q, e', rs', ?_, ?_⟩
        · rw [Rose.at?, show (Rose.node e rs).children[i]? = some r from hr]
          exact hq
        · rw [append_earlier_cons hr]
          rwa [Nat.zero_add, Position.child, List.append_assoc] at h
    · rintro ⟨q, e', rs', hq, h⟩
      cases q with
      | nil =>
        cases hq
        exact .inl (by simpa [Rose.earlier] using h)
      | cons i q =>
        obtain ⟨r, hr, hq⟩ := Option.bind_eq_some_iff.1 hq
        refine .inr ⟨i, r, hr, (ih r (List.mem_of_getElem? hr)).2 ⟨q, e', rs', hq, ?_⟩⟩
        rw [append_earlier_cons (show rs[i]? = some r from hr)] at h
        rwa [Nat.zero_add, Position.child, List.append_assoc]

end Record

/-! ## The first fault -/

theorem Paced.congr {start : Nat} {pool : IdPool} {a b : List String} (m : Paced start pool a)
    (h : ∀ id, id ∈ a ↔ id ∈ b) : Paced start pool b :=
  ⟨fun id hid => m.given id ((h id).2 hid), fun id hid => (m.drawn id hid).imp_left (h id).1, m.next⟩

namespace Loading

variable {α β : Type} {start : Nat} {catalog : Catalog H} {faults more : List LoadError}
  {seen seen' : List String} {p : Position} {pool : IdPool} {e : Entry} {n : Node H} {r : Record}
  {rs : List Record}

/-- Ids that were given, as empty ones were not. -/
def given (ids : List String) : List String := ids.filter fun id => !id.isEmpty

/-- What a load comes to, if these are the faults of what is loaded and these the ids seen after it:
the first fault, or a pool that has kept up. -/
def Tells (start : Nat) (faults : List LoadError) (seen : List String) :
    Except LoadError (α × IdPool) → Prop
  | .error err => faults.head? = some err
  | .ok (_, pool) => faults = [] ∧ Paced start pool (given seen)

/-- Faults in a row are met one after the other. -/
theorem Tells.bind {x : Except LoadError (α × IdPool)}
    {f : α × IdPool → Except LoadError (β × IdPool)} (hx : Tells start faults seen x)
    (hf : ∀ a pool, x = .ok (a, pool) → Paced start pool (given seen) →
      Tells start more seen' (f (a, pool))) :
    Tells start (faults ++ more) seen' (x >>= f) := by
  cases x with
  | error err =>
    show (faults ++ more).head? = some err
    rw [List.head?_append, show faults.head? = some err from hx]
    rfl
  | ok built =>
    obtain ⟨hnil, hpool⟩ := hx
    rw [hnil, List.nil_append]
    exact hf built.1 built.2 rfl hpool

/-- What cannot fail and leaves the pool alone adds nothing. -/
theorem Tells.andThen {x : Except LoadError (α × IdPool)}
    {f : α × IdPool → Except LoadError (β × IdPool)} (hx : Tells start faults seen x)
    (hf : ∀ a pool, ∃ b, f (a, pool) = .ok (b, pool)) : Tells start faults seen (x >>= f) := by
  rw [← List.append_nil faults]
  refine hx.bind fun a pool _ m => ?_
  obtain ⟨b, hb⟩ := hf a pool
  rw [hb]
  exact ⟨rfl, m⟩

theorem mem_given {ids : List String} {id : String} : id ∈ given ids ↔ id ∈ ids ∧ id ≠ "" := by
  simp [given]

/-- An id is refused if it is one of those that were given before. -/
theorem idOf_mem_used_iff (m : Paced start pool (given seen))
    (he : ∀ k, start ≤ k → e.id ≠ freshId k) :
    (idOf ⟨catalog, false⟩ e pool.next).1 ∈ pool.used ↔ e.id ≠ "" ∧ e.id ∈ seen := by
  cases hempty : e.id.isEmpty with
  | true =>
    rw [idOf_empty hempty]
    have hid := String.isEmpty_iff.1 hempty
    exact iff_of_false m.fresh_not_mem_used fun h => h.1 hid
  | false =>
    rw [idOf_given hempty, m.given_mem_used_iff he, mem_given, and_comm]

theorem paced_node (m : Paced start pool (given seen)) (he : ∀ k, start ≤ k → e.id ≠ freshId k)
    {pool' : IdPool} (h : Loading.node ⟨catalog, false⟩ p e pool = .ok (n, pool')) :
    Paced start pool' (given (seen ++ [e.id])) := by
  have m' := (m.node he h []).2
  obtain ⟨kind, b, -, -, hnew, -, -⟩ := node_eq_ok_iff.1 h
  rw [idOf_mem_used_iff m he, not_and] at hnew
  rw [Candidate.idFlaws_toJson] at m'
  refine m'.congr fun id => ?_
  rw [mem_given, List.mem_append, List.mem_singleton]
  cases hempty : e.id.isEmpty with
  | true =>
    have hid := String.isEmpty_iff.1 hempty
    rw [if_pos rfl, mem_given]
    grind
  | false =>
    have hne : e.id ≠ "" := fun hid => by simp [hid] at hempty
    have hunseen : (given seen).contains e.id = false := by
      simpa [mem_given] using fun hseen => absurd hseen (hnew hne)
    rw [if_neg Bool.false_ne_true, hunseen, if_neg Bool.false_ne_true, List.mem_cons, mem_given]
    grind

theorem tells_node (m : Paced start pool (given seen)) (he : ∀ k, start ≤ k → e.id ≠ freshId k) :
    Tells start (e.faults catalog p seen) (seen ++ [e.id])
      (Loading.node ⟨catalog, false⟩ p e pool) := by
  cases hn : Loading.node ⟨catalog, false⟩ p e pool with
  | ok built =>
    obtain ⟨n, pool'⟩ := built
    obtain ⟨kind, b, hkind, hb, hnew, -, -⟩ := node_eq_ok_iff.1 hn
    rw [idOf_mem_used_iff m he] at hnew
    refine ⟨?_, paced_node m he hn⟩
    simp only [Entry.faults, hkind, hb, List.nil_append, if_neg hnew]
  | error err =>
    show (e.faults catalog p seen).head? = some err
    unfold Loading.node at hn
    cases hkind : Kind.ofTag? e.tag with
    | none =>
      simp only [hkind] at hn
      cases hn
      simp only [Entry.faults, hkind, List.singleton_append, List.head?_cons]
    | some kind =>
      cases hb : catalog.build kind e.properties with
      | error b =>
        simp only [hkind, hb, Except.mapError, bind, Except.bind] at hn
        cases hn
        simp only [Entry.faults, hkind, hb, List.singleton_append, List.head?_cons]
      | ok b =>
        simp only [hkind, hb, Except.mapError, bind, Except.bind] at hn
        split at hn
        · next hmem =>
          cases hn
          have hid := (idOf_mem_used_iff m he).1 (List.contains_iff_mem.1 hmem)
          have hgiven : e.id.isEmpty = false := by simpa using hid.1
          simp only [Entry.faults, hkind, hb, List.nil_append, if_pos hid, List.head?_cons,
            idOf_given hgiven]
        · cases hn

/-- The faults of a record tell what its load comes to, wherever ids have kept up. -/
def TellsTree (catalog : Catalog H) (start : Nat) (r : Record) : Prop :=
  ∀ {p : Position} {pool : IdPool} {seen : List String}, Paced start pool (given seen) →
    Tells start (r.faultsAt catalog p seen) (seen ++ r.entryIds)
      (Loading.tree ⟨catalog, false⟩ p pool r)

theorem tells_trees (hrs : ∀ r ∈ rs, TellsTree catalog start r) (m : Paced start pool (given seen))
    (index : Nat) :
    Tells start (Record.faultsBelow catalog p index [] seen rs)
      (seen ++ rs.flatMap Record.entryIds) (Loading.trees ⟨catalog, false⟩ p index pool rs) := by
  induction rs generalizing pool seen index with
  | nil =>
    refine ⟨rfl, ?_⟩
    rwa [List.flatMap_nil, List.append_nil]
  | cons r rs ih =>
    obtain ⟨hr, hrs⟩ := List.forall_mem_cons.1 hrs
    rw [Record.faultsBelow, List.nil_append, trees, List.flatMap_cons, ← List.append_assoc seen]
    refine (hr m).bind fun t pool _ m' => ?_
    exact (ih hrs m' (index + 1)).andThen fun ts pool => ⟨t :: ts, rfl⟩

theorem tells_below (hrs : ∀ r ∈ rs, TellsTree catalog start r)
    (m : Paced start pool (given seen)) (hn : n.behavior.limit.isClosed = n.kind.isLeaf)
    (hkind : Kind.ofTag? e.tag = some n.kind) (hname : n.name = e.name) :
    Tells start (Record.faultsBelow catalog p 0 (e.refusal p) seen rs)
      (seen ++ rs.flatMap Record.entryIds) (below ⟨catalog, false⟩ p n pool rs) := by
  unfold below Entry.refusal
  rw [hn, hkind]
  dsimp only
  cases n.kind.isLeaf with
  | true =>
    cases rs with
    | nil =>
      refine ⟨rfl, ?_⟩
      rwa [List.flatMap_nil, List.append_nil]
    | cons r rs =>
      -- the first child is loaded to its end before it is refused
      rw [if_pos rfl, if_pos rfl]
      refine (hrs r List.mem_cons_self m).bind fun t pool _ _ => ?_
      rw [hname]
      rfl
  | false =>
    rw [if_neg Bool.false_ne_true, if_neg Bool.false_ne_true]
    exact (tells_trees hrs m 0).andThen fun ts pool => ⟨.node n ts, rfl⟩

theorem tells_tree (hc : catalog.builders = []) (hr : r.Unlike start) :
    TellsTree catalog start r := by
  induction r using Rose.ofChildren with
  | h e rs ih =>
    intro p pool seen m
    obtain ⟨he, hrs⟩ := Record.unlike_node.1 hr
    rw [tree_eq_below, Record.faultsAt, Record.entryIds_node,
      List.append_cons seen e.id (rs.flatMap Record.entryIds)]
    refine (tells_node m he).bind fun n pool hn m' => ?_
    obtain ⟨kind, b, hkind, hb, -, hfresh, -⟩ := node_eq_ok_iff.1 hn
    have hclosed : n.behavior.limit.isClosed = n.kind.isLeaf := by
      rw [hfresh]
      exact Behavior.isClosed_limit (Catalog.build_anew hc hb).2
    exact tells_below (fun r hmem => ih r hmem (hrs r hmem)) m' hclosed
      (hkind.trans (by rw [hfresh]; rfl)) (by rw [hfresh]; rfl)

end Loading

namespace Record

variable {catalog : Catalog H} {next : Nat} {p q : Position} {seen : List String} {e : Entry}
  {r : Record} {rs : List Record} {err : LoadError}

theorem load_eq_error_iff (hc : catalog.builders = []) (hr : r.Unlike next) :
    Tree.load catalog next r = .error err ↔ (r.faults catalog).head? = some err := by
  have htells : Loading.Tells next (r.faultsAt catalog [] []) ([] ++ r.entryIds)
      (Loading.tree ⟨catalog, false⟩ [] ⟨[], next⟩ r) := Loading.tells_tree hc hr (Paced.nil next)
  unfold Tree.load Loading.run faults
  cases h : Loading.tree ⟨catalog, false⟩ [] ⟨[], next⟩ r with
  | ok built =>
    rw [h] at htells
    rw [htells.1]
    exact ⟨nofun, nofun⟩
  | error err' =>
    rw [h] at htells
    rw [show (r.faultsAt catalog [] []).head? = some err' from htells, Option.some.injEq]
    exact Except.error.injEq err' err ▸ Iff.rfl

theorem build_reserved (hc : catalog.builders = []) {kind : Kind} (h : kind.isReserved = true)
    (properties : Properties) : catalog.build kind properties = .error (.reserved kind.tag) := by
  rw [Catalog.build_eq_buildUsual hc]
  match kind, h with
  | .retry, _ => rfl
  | .timeout, _ => rfl
  | .cooldown, _ => rfl

theorem exists_fault_iff : (∃ err, Fault catalog p seen e rs err) ↔
    Kind.ofTag? e.tag = none ∨
      (∃ kind b, Kind.ofTag? e.tag = some kind ∧ catalog.build kind e.properties = .error b) ∨
      (e.id ≠ "" ∧ e.id ∈ seen) ∨
      ∃ kind, Kind.ofTag? e.tag = some kind ∧ kind.isLeaf = true ∧ rs ≠ [] := by
  constructor
  · rintro ⟨err, h⟩
    cases h with
    | unknownTag h => exact .inl h
    | rejected hkind hb => exact .inr (.inl ⟨_, _, hkind, hb⟩)
    | duplicateId hne hseen => exact .inr (.inr (.inl ⟨hne, hseen⟩))
    | refused hkind hleaf hrs => exact .inr (.inr (.inr ⟨_, hkind, hleaf, hrs⟩))
  · rintro (h | ⟨kind, b, hkind, hb⟩ | ⟨hne, hseen⟩ | ⟨kind, hkind, hleaf, hrs⟩)
    · exact ⟨_, .unknownTag h⟩
    · exact ⟨_, .rejected hkind hb⟩
    · exact ⟨_, .duplicateId hne hseen⟩
    · exact ⟨_, .refused hkind hleaf hrs⟩

theorem mem_faults_iff : err ∈ r.faults catalog ↔ ∃ q e rs, r.at? q = some (.node e rs) ∧
    Fault catalog q ((r.earlier q).map Entry.id) e rs err := mem_faultsAt_iff

/-- Where the host puts no behaviors of its own in the place of the usual ones, a load fails if and
only if some record has a fault, and it fails with the first one on the way from the top down. The
error points at the record with that fault, and a leaf refuses a child for no other reason than that
it is a leaf. -/
theorem load_fails_first (hc : catalog.builders = [])
    (hfresh : ∀ e ∈ r.preorder, ∀ k, next ≤ k → e.id ≠ freshId k) :
    (∀ err, Tree.load catalog next r = .error err ↔ (r.faults catalog).head? = some err) ∧
    ((∃ err, Tree.load catalog next r = .error err) ↔
      ∃ q e rs, r.at? q = some (.node e rs) ∧
        (Kind.ofTag? e.tag = none ∨
          (∃ kind, Kind.ofTag? e.tag = some kind ∧ kind.isReserved = true) ∨
          (∃ kind b, Kind.ofTag? e.tag = some kind ∧ catalog.build kind e.properties = .error b) ∨
          (e.id ≠ "" ∧ e.id ∈ (r.earlier q).map Entry.id) ∨
          ∃ kind, Kind.ofTag? e.tag = some kind ∧ kind.isLeaf = true ∧ rs ≠ [])) ∧
    (∀ err, Tree.load catalog next r = .error err → ∃ q e rs, r.at? q = some (.node e rs) ∧
      Fault catalog q ((r.earlier q).map Entry.id) e rs err) ∧
    ∀ p kind name e, Tree.load catalog next r = .error (.refused p kind name e) →
      e = .tooManyNodes := by
  have hload : ∀ err, Tree.load catalog next r = .error err ↔ (r.faults catalog).head? = some err :=
    fun err => load_eq_error_iff hc hfresh
  have hpoints : ∀ err, Tree.load catalog next r = .error err → ∃ q e rs,
      r.at? q = some (.node e rs) ∧ Fault catalog q ((r.earlier q).map Entry.id) e rs err :=
    fun err h => mem_faults_iff.1 (List.mem_of_head? ((hload err).1 h))
  refine ⟨hload, ⟨?_, ?_⟩, hpoints, ?_⟩
  · rintro ⟨err, h⟩
    obtain ⟨q, e, rs, hq, hfault⟩ := hpoints err h
    refine ⟨q, e, rs, hq, ?_⟩
    exact (exists_fault_iff.1 ⟨err, hfault⟩).imp_right .inr
  · rintro ⟨q, e, rs, hq, h⟩
    have hfault : ∃ err, Fault catalog q ((r.earlier q).map Entry.id) e rs err := by
      refine exists_fault_iff.2 ?_
      rcases h with h | ⟨kind, hkind, hreserved⟩ | h
      · exact .inl h
      · exact .inr (.inl ⟨kind, _, hkind, build_reserved hc hreserved e.properties⟩)
      · exact .inr h
    obtain ⟨err, hfault⟩ := hfault
    have hmem := mem_faults_iff.2 ⟨q, e, rs, hq, hfault⟩
    exact ⟨_, (hload _).2 (List.head?_eq_some_head (List.ne_nil_of_mem hmem))⟩
  · intro p kind name e h
    obtain ⟨q, e', rs, -, hfault⟩ := hpoints _ h
    cases hfault with
    | refused => rfl

section Crowd

/-- Two conditions below an action, with the same id and the second one with the tag of no kind. -/
def crowd : Record :=
  .node ⟨"r", "Root", "Root", {}, .nil⟩
    [.node ⟨"a", "Action", "Act", {}, .nil⟩
      [.node ⟨"c", "Condition", "First", {}, .nil⟩ [],
        .node ⟨"c", "Gate", "Second", {}, .nil⟩ []]]

/-- The action refuses its first child before the second one is looked at. -/
theorem load_fails_first_crowd :
    crowd.faults (H := Rehearsal.host) {} =
        [.refused [0] .action "Act" .tooManyNodes, .build (some [0, 1]) (.unknownKind "Gate"),
          .duplicateId "c" [0, 1], .refused [0] .action "Act" .tooManyNodes] ∧
      Tree.load (H := Rehearsal.host) {} 3 crowd =
        .error (.refused [0] .action "Act" .tooManyNodes) := by
  have hfresh : ∀ e ∈ crowd.preorder, ∀ k, 3 ≤ k → e.id ≠ freshId k := by
    intro e he k _
    apply ne_freshId_of_length_lt
    have hids : e.id ∈ ["r", "a", "c", "c"] := List.mem_map_of_mem he
    revert hids
    generalize e.id = id
    revert id
    decide
  have hfaults : crowd.faults (H := Rehearsal.host) {} =
      [.refused [0] .action "Act" .tooManyNodes, .build (some [0, 1]) (.unknownKind "Gate"),
        .duplicateId "c" [0, 1], .refused [0] .action "Act" .tooManyNodes] := rfl
  have husual : ({} : Catalog Rehearsal.host).builders = [] := rfl
  obtain ⟨hload, -⟩ := load_fails_first husual hfresh
  exact ⟨hfaults, (hload _).2 (congrArg List.head? hfaults)⟩

end Crowd

end Record

end Conduct
