import Conduct.Proofs.Building
import Conduct.Proofs.Foresight.Candidate
import Conduct.Rehearsal.World

/-! What is found in the data of a record, and what comes of loading the record.

The ids seen in the data keep pace with the ids drawn in loading, apart from fresh ones. So what a load
fails with is among the findings, and after a load the findings are such that a tree can have them.
Main statements: `Paced.suits`, `Paced.foretold` and `Record.foretells`.
-/

set_option autoImplicit false

namespace Conduct

variable {H : Host} {catalog : Catalog H}

/-! ## What findings say -/

/-- What a load fails with is found, unless it is a matter of what behaviors are built from. -/
def LoadError.Foretold (findings : List Finding) : LoadError → Prop
  | .build position (.unknownKind tag) =>
    ∃ p, position = some p ∧ ⟨p, .unknownKind tag⟩ ∈ findings
  | .duplicateId id p => ⟨p, .duplicateId id⟩ ∈ findings
  | .refused p kind name _ => ⟨p, .leafWithChildren kind name⟩ ∈ findings
  | _ => True

theorem LoadError.Foretold.mono {found more : List Finding} {err : LoadError}
    (h : err.Foretold found) (hsub : found ⊆ more) : err.Foretold more := by
  unfold Foretold at h ⊢
  split at h
  · obtain ⟨p, hp, hmem⟩ := h
    exact ⟨p, hp, hsub hmem⟩
  · exact hsub h
  · exact hsub h
  · trivial

namespace Record

/-- Flaws that do not keep an entry with these children from being loaded. -/
inductive Tolerable (e : Entry) (rs : List Record) : Flaw → Prop
  | blank (h : Text.isAllBlank e.name = true) : Tolerable e rs .noName
  | x (h : e.layout.x.isFinite = false) : Tolerable e rs (.notANumber "x")
  | y (h : e.layout.y.isFinite = false) : Tolerable e rs (.notANumber "y")
  | crowded {kind : Kind} (hkind : Kind.ofTag? e.tag = some kind)
      (hcategory : kind.category = .root ∨ kind.category = .decorator) (h : 1 < rs.length) :
      Tolerable e rs (.tooManyChildren kind e.name rs.length)

/-- The finding, in a record at a position, is a tolerable one. -/
def Tolerates (p : Position) (r : Record) (f : Finding) : Prop :=
  ∃ q e rs, f.position = p ++ q ∧ r.at? q = some (.node e rs) ∧ Tolerable e rs f.flaw

theorem Tolerates.of_child {p : Position} {e : Entry} {r : Record} {rs : List Record} {i : Nat}
    {f : Finding} (hr : rs[i]? = some r) (h : Tolerates (p.child i) r f) :
    Tolerates p (.node e rs) f := by
  obtain ⟨q, e', rs', hp, hat, hf⟩ := h
  refine ⟨i :: q, e', rs', ?_, ?_, hf⟩
  · rw [hp, Position.child, List.append_assoc]
    rfl
  · rw [Rose.at?, show (Rose.node e rs).children = rs from rfl, hr]
    exact hat

end Record

namespace Candidate

variable {e : Entry} {rs : List Record} {kind : Kind} {flaw : Flaw}

theorem leafWithChildren_mem (hkind : Kind.ofTag? e.tag = some kind) (hleaf : kind.isLeaf = true)
    (hrs : rs ≠ []) :
    .leafWithChildren kind e.name ∈ flaws (Record.toJson (.node e rs)) := by
  have hcategory : kind.category = .leaf := of_decide_eq_true hleaf
  refine mem_flaws_toJson.2 (.inr (.inr (.inr ?_)))
  unfold tagFlaws
  rw [hkind]
  unfold countFlaws
  simp only [hcategory, List.length_pos_iff.2 hrs, if_true, List.mem_singleton]

theorem tolerable_of_mem_flaws (hkind : Kind.ofTag? e.tag = some kind)
    (hleaf : kind.isLeaf = true → rs = []) (h : flaw ∈ flaws (Record.toJson (.node e rs))) :
    Record.Tolerable e rs flaw := by
  rcases mem_flaws_toJson.1 h with ⟨rfl, hname⟩ | ⟨rfl, hx⟩ | ⟨rfl, hy⟩ | h
  · exact .blank hname
  · exact .x hx
  · exact .y hy
  · unfold tagFlaws at h
    rw [hkind] at h
    unfold countFlaws at h
    cases hcategory : kind.category with
    | leaf =>
      have hnil := hleaf (decide_eq_true hcategory)
      simp [hcategory, hnil] at h
    | decorator =>
      simp only [hcategory, List.mem_ite_nil_right, List.mem_singleton] at h
      rw [h.2]
      exact .crowded hkind (.inr hcategory) h.1
    | root =>
      simp only [hcategory, List.mem_ite_nil_right, List.mem_singleton] at h
      rw [h.2]
      exact .crowded hkind (.inl hcategory) h.1
    | composite =>
      simp [hcategory] at h

end Candidate

/-! ## Ids in step -/

/-- The pool has the ids that were seen, and besides them fresh ones only. -/
structure Paced (start : Nat) (pool : IdPool) (seen : List String) : Prop where
  given : ∀ id ∈ seen, id ∈ pool.used ∧ ∀ k, start ≤ k → id ≠ freshId k
  drawn : ∀ id ∈ pool.used, id ∈ seen ∨ ∃ k, start ≤ k ∧ k < pool.next ∧ id = freshId k
  next : start ≤ pool.next

/-- No id in the record is one that a load may draw as a fresh one. -/
def Record.Unlike (start : Nat) (r : Record) : Prop :=
  ∀ e ∈ r.preorder, ∀ k, start ≤ k → e.id ≠ freshId k

theorem Record.unlike_node {start : Nat} {e : Entry} {rs : List Record} :
    Record.Unlike start (.node e rs) ↔
      (∀ k, start ≤ k → e.id ≠ freshId k) ∧ ∀ r ∈ rs, Record.Unlike start r := by
  unfold Unlike
  rw [Rose.preorder_node, List.forall_mem_cons, List.forall_mem_flatMap]

namespace Paced

open Candidate (idFlaws flaws findingsAt findingsOfItems)

variable {start : Nat} {pool pool' : IdPool} {seen : List String} {p : Position} {e : Entry}
  {n : Node H} {r : Record} {rs : List Record} {t : Tree H} {ts : List (Tree H)} {err : LoadError}

theorem fresh_not_mem_used (m : Paced start pool seen) : freshId pool.next ∉ pool.used := by
  intro hmem
  rcases m.drawn _ hmem with hseen | ⟨k, -, hk, he⟩
  · exact (m.given _ hseen).2 pool.next m.next rfl
  · have := freshId_injective he
    omega

theorem given_mem_used_iff (m : Paced start pool seen) (he : ∀ k, start ≤ k → e.id ≠ freshId k) :
    e.id ∈ pool.used ↔ e.id ∈ seen := by
  constructor
  · intro hmem
    rcases m.drawn _ hmem with hseen | ⟨k, hk, -, hfresh⟩
    · exact hseen
    · exact absurd hfresh (he k hk)
  · exact fun hseen => (m.given _ hseen).1

/-- A node that is built has no flaw in its id. -/
theorem node (m : Paced start pool seen) (he : ∀ k, start ≤ k → e.id ≠ freshId k)
    (h : Loading.node ⟨catalog, false⟩ p e pool = .ok (n, pool')) (rs : List Record) :
    (idFlaws seen (Record.toJson (.node e rs))).1 = [] ∧
      Paced start pool' (idFlaws seen (Record.toJson (.node e rs))).2 := by
  obtain ⟨kind, b, -, -, hnew, -, rfl⟩ := Loading.node_eq_ok_iff.1 h
  rw [Candidate.idFlaws_toJson]
  cases hempty : e.id.isEmpty with
  | true =>
    rw [Loading.idOf_empty hempty, if_pos rfl]
    refine ⟨rfl, ?_, ?_, Nat.le_succ_of_le m.next⟩
    · intro id hid
      exact ⟨List.mem_cons_of_mem _ (m.given id hid).1, (m.given id hid).2⟩
    · intro id hid
      rcases List.mem_cons.1 hid with rfl | hid
      · exact .inr ⟨pool.next, m.next, Nat.lt_succ_self _, rfl⟩
      · refine (m.drawn id hid).imp_right ?_
        rintro ⟨k, hk, hnext, hfresh⟩
        exact ⟨k, hk, Nat.lt_succ_of_lt hnext, hfresh⟩
  | false =>
    rw [Loading.idOf_given hempty] at hnew ⊢
    have hunseen : e.id ∉ seen := fun hseen => hnew (m.given _ hseen).1
    rw [if_neg Bool.false_ne_true, if_neg (by rwa [List.contains_iff_mem])]
    refine ⟨rfl, ?_, ?_, m.next⟩
    · intro id hid
      rcases List.mem_cons.1 hid with rfl | hid
      · exact ⟨List.mem_cons_self, he⟩
      · exact ⟨List.mem_cons_of_mem _ (m.given id hid).1, (m.given id hid).2⟩
    · intro id hid
      rcases List.mem_cons.1 hid with rfl | hid
      · exact .inl List.mem_cons_self
      · exact (m.drawn id hid).imp_left (List.mem_cons_of_mem _)

theorem foretold_node (hc : catalog.builders = []) (m : Paced start pool seen)
    (he : ∀ k, start ≤ k → e.id ≠ freshId k)
    (h : Loading.node ⟨catalog, false⟩ p e pool = .error err) (rs : List Record) :
    err.Foretold (((idFlaws seen (Record.toJson (.node e rs))).1 ++
      flaws (Record.toJson (.node e rs))).map (⟨p, ·⟩)) := by
  rcases Loading.node_eq_error h with ⟨hkind, rfl⟩ | ⟨kind, b, -, hb, rfl⟩ | ⟨hmem, rfl⟩
  · refine ⟨p, rfl, List.mem_map_of_mem (List.mem_append_right _ ?_)⟩
    refine Candidate.mem_flaws_toJson.2 (.inr (.inr (.inr ?_)))
    unfold Candidate.tagFlaws
    rw [hkind]
    exact List.mem_singleton_self _
  · have hne := Catalog.ne_unknownKind_of_build hc hb
    unfold LoadError.Foretold
    split
    · next he =>
      cases he
      exact absurd rfl (hne _)
    · next he => cases he
    · next he => cases he
    · trivial
  · refine List.mem_map_of_mem (List.mem_append_left _ ?_)
    rw [Candidate.idFlaws_toJson]
    cases hempty : e.id.isEmpty with
    | true =>
      rw [Loading.idOf_empty hempty] at hmem
      exact absurd hmem m.fresh_not_mem_used
    | false =>
      rw [Loading.idOf_given hempty] at hmem ⊢
      have hseen := (m.given_mem_used_iff he).1 hmem
      rw [if_neg Bool.false_ne_true, if_pos (by rwa [List.contains_iff_mem])]
      exact List.mem_singleton_self _

/-! ## Trees in step -/

theorem findingsOfItems_cons (p : Position) (index : Nat) (seen : List String) (j : Json)
    (js : List Json) : findingsOfItems p index seen (j :: js) =
      ((findingsAt (p.child index) seen j).1 ++
        (findingsOfItems p (index + 1) (findingsAt (p.child index) seen j).2 js).1,
      (findingsOfItems p (index + 1) (findingsAt (p.child index) seen j).2 js).2) := by
  rw [findingsOfItems]

/-- After the load of a record the ids are still in step, and what is found is tolerable. -/
def Suits (catalog : Catalog H) (start : Nat) (r : Record) : Prop :=
  ∀ {p : Position} {pool pool' : IdPool} {seen : List String} {t : Tree H},
    Paced start pool seen → Loading.tree ⟨catalog, false⟩ p pool r = .ok (t, pool') →
    Paced start pool' (findingsAt p seen r.toJson).2 ∧
      ∀ f ∈ (findingsAt p seen r.toJson).1, r.Tolerates p f

theorem suits_trees (hrs : ∀ r ∈ rs, Suits catalog start r) {index : Nat}
    (m : Paced start pool seen)
    (h : Loading.trees ⟨catalog, false⟩ p index pool rs = .ok (ts, pool')) :
    Paced start pool' (findingsOfItems p index seen (rs.map Record.toJson)).2 ∧
      ∀ f ∈ (findingsOfItems p index seen (rs.map Record.toJson)).1,
        ∃ (i : Nat) (r : Record), rs[i]? = some r ∧ r.Tolerates (p.child (index + i)) f := by
  induction rs generalizing index pool seen ts with
  | nil =>
    cases h
    exact ⟨m, fun f hf => absurd hf List.not_mem_nil⟩
  | cons r rs ih =>
    obtain ⟨hr, hrs⟩ := List.forall_mem_cons.1 hrs
    obtain ⟨t, pool₁, ts', ht, hts, rfl⟩ := Loading.trees_cons_eq_ok_iff.1 h
    obtain ⟨m₁, hfound⟩ := hr m ht
    obtain ⟨m', hmore⟩ := ih hrs m₁ hts
    rw [List.map_cons, findingsOfItems_cons]
    refine ⟨m', fun f hf => ?_⟩
    rcases List.mem_append.1 hf with hf | hf
    · exact ⟨0, r, rfl, hfound f hf⟩
    · obtain ⟨i, d, hd, htol⟩ := hmore f hf
      refine ⟨i + 1, d, hd, ?_⟩
      rwa [show index + (i + 1) = index + 1 + i by omega]

theorem suits (hc : catalog.builders = []) (hr : r.Unlike start) : Suits catalog start r := by
  induction r using Rose.ofChildren with
  | h e rs ih =>
    intro p pool pool' seen t m h
    obtain ⟨he, hrs⟩ := Record.unlike_node.1 hr
    obtain ⟨n, pool₁, ts, hn, hts, hclosed, rfl⟩ := Loading.tree_eq_ok_iff.1 h
    obtain ⟨kind, b, hkind, hb, -, rfl, -⟩ := Loading.node_eq_ok_iff.1 hn
    obtain ⟨hid, m₁⟩ := m.node he hn rs
    obtain ⟨m', hbelow⟩ := suits_trees (fun r hmem => ih r hmem (hrs r hmem)) m₁ hts
    have hleaf : kind.isLeaf = true → rs = [] := by
      rw [← Behavior.isClosed_limit (Catalog.build_anew hc hb).2]
      exact hclosed
    rw [Candidate.findingsAt_toJson, hid, List.nil_append]
    refine ⟨m', fun f hf => ?_⟩
    rcases List.mem_append.1 hf with hf | hf
    · obtain ⟨flaw, hflaw, rfl⟩ := List.mem_map.1 hf
      exact ⟨[], e, rs, (List.append_nil p).symm, rfl,
        Candidate.tolerable_of_mem_flaws hkind hleaf hflaw⟩
    · obtain ⟨i, d, hd, htol⟩ := hbelow f hf
      rw [Nat.zero_add] at htol
      exact htol.of_child hd

theorem foretold_trees (hc : catalog.builders = []) (hrs : ∀ r ∈ rs, r.Unlike start)
    (hforetold : ∀ r ∈ rs, ∀ {p : Position} {pool : IdPool} {seen : List String},
      Paced start pool seen → Loading.tree ⟨catalog, false⟩ p pool r = .error err →
      err.Foretold (findingsAt p seen r.toJson).1) {index : Nat} (m : Paced start pool seen)
    (h : Loading.trees ⟨catalog, false⟩ p index pool rs = .error err) :
    err.Foretold (findingsOfItems p index seen (rs.map Record.toJson)).1 := by
  induction rs generalizing index pool seen with
  | nil => cases h
  | cons r rs ih =>
    obtain ⟨hr, hrs⟩ := List.forall_mem_cons.1 hrs
    obtain ⟨hfirst, hforetold⟩ := List.forall_mem_cons.1 hforetold
    rw [List.map_cons, findingsOfItems_cons]
    rw [Loading.trees] at h
    rcases bind_eq_error.1 h with ht | ⟨⟨t, pool₁⟩, ht, h⟩
    · exact (hfirst m ht).mono (List.subset_append_left _ _)
    · rcases bind_eq_error.1 h with hts | ⟨_, -, h⟩
      · exact (ih hrs hforetold (suits hc hr m ht).1 hts).mono (List.subset_append_right _ _)
      · cases h

/-- What the load of a record fails with is found. -/
theorem foretold (hc : catalog.builders = []) (hr : r.Unlike start) (m : Paced start pool seen)
    (h : Loading.tree ⟨catalog, false⟩ p pool r = .error err) :
    err.Foretold (findingsAt p seen r.toJson).1 := by
  induction r using Rose.ofChildren generalizing p pool seen with
  | h e rs ih =>
    obtain ⟨he, hrs⟩ := Record.unlike_node.1 hr
    have hchild := fun r hmem => @ih r hmem
    rw [Candidate.findingsAt_toJson]
    rw [Loading.tree_eq_below] at h
    rcases bind_eq_error.1 h with hn | ⟨⟨n, pool₁⟩, hn, h⟩
    · exact (m.foretold_node hc he hn rs).mono (List.subset_append_left _ _)
    · have m₁ := (m.node he hn rs).2
      obtain ⟨kind, b, hkind, hb, -, rfl, -⟩ := Loading.node_eq_ok_iff.1 hn
      dsimp only at h
      unfold Loading.below at h
      split at h
      · next hclosed =>
        -- The first child is built before it is refused.
        cases rs with
        | nil => cases h
        | cons r rs =>
          rcases bind_eq_error.1 h with ht | ⟨_, -, h⟩
          · rw [List.map_cons, findingsOfItems_cons]
            have hfirst := ih r List.mem_cons_self (hrs r List.mem_cons_self) m₁ ht
            exact hfirst.mono (List.Subset.trans (List.subset_append_left _ _)
              (List.subset_append_right _ _))
          · cases h
            have hleaf : kind.isLeaf = true := by
              rw [← Behavior.isClosed_limit (Catalog.build_anew hc hb).2]
              exact hclosed
            refine List.mem_append_left _ (List.mem_map_of_mem (List.mem_append_right _ ?_))
            exact Candidate.leafWithChildren_mem hkind hleaf (List.cons_ne_nil r rs)
      · have hts := map_eq_error h
        have hbelow := foretold_trees hc hrs (fun r hmem => ih r hmem (hrs r hmem)) m₁ hts
        exact hbelow.mono (List.subset_append_right _ _)

theorem nil (start : Nat) : Paced start ⟨[], start⟩ [] :=
  ⟨fun _ h => absurd h List.not_mem_nil, fun _ h => absurd h List.not_mem_nil, Nat.le_refl _⟩

end Paced

/-- Where the host puts no behaviors of its own in the place of the usual ones, an unknown tag, an id
given twice and children of a leaf are found in the data of a record just where a load fails with them;
and if the load succeeds, whatever is found is a blank name, a position that is not finite, or more
than one child of a root or a decorator. -/
theorem Record.foretells (hc : catalog.builders = []) {next : Nat} {r : Record}
    (hfresh : ∀ e ∈ r.preorder, ∀ k, next ≤ k → e.id ≠ freshId k) :
    (∀ position tag, Tree.load catalog next r = .error (.build position (.unknownKind tag)) →
      ∃ p, position = some p ∧ ⟨p, .unknownKind tag⟩ ∈ Candidate.findings r.toJson) ∧
    (∀ id p, Tree.load catalog next r = .error (.duplicateId id p) →
      ⟨p, .duplicateId id⟩ ∈ Candidate.findings r.toJson) ∧
    (∀ p kind name e, Tree.load catalog next r = .error (.refused p kind name e) →
      ⟨p, .leafWithChildren kind name⟩ ∈ Candidate.findings r.toJson) ∧
    ∀ t next', Tree.load catalog next r = .ok (t, next') →
      ∀ f ∈ Candidate.findings r.toJson, ∃ e rs, r.at? f.position = some (.node e rs) ∧
        (f.flaw = .noName ∧ Text.isAllBlank e.name = true ∨
          f.flaw = .notANumber "x" ∧ e.layout.x.isFinite = false ∨
          f.flaw = .notANumber "y" ∧ e.layout.y.isFinite = false ∨
          ∃ kind, f.flaw = .tooManyChildren kind e.name rs.length ∧ kind.tag = e.tag ∧
            (kind.category = .root ∨ kind.category = .decorator) ∧ 1 < rs.length) := by
  have hforetold : ∀ err, Tree.load catalog next r = .error err →
      err.Foretold (Candidate.findings r.toJson) :=
    fun err h => Paced.foretold hc hfresh (Paced.nil next) (map_eq_error h)
  refine ⟨fun position tag h => hforetold _ h, fun id p h => hforetold _ h,
    fun p kind name e h => hforetold _ h, ?_⟩
  intro t next' h f hf
  obtain ⟨⟨u, pool⟩, hu, -⟩ := map_eq_ok h
  obtain ⟨-, htolerates⟩ := Paced.suits hc hfresh (Paced.nil next) hu
  obtain ⟨q, e, rs, hq, hat, hflaw⟩ := htolerates f hf
  rw [List.nil_append] at hq
  refine ⟨e, rs, hq ▸ hat, ?_⟩
  generalize f.flaw = flaw at hflaw ⊢
  cases hflaw with
  | blank h => exact .inl ⟨rfl, h⟩
  | x h => exact .inr (.inl ⟨rfl, h⟩)
  | y h => exact .inr (.inr (.inl ⟨rfl, h⟩))
  | @crowded kind hkind hcategory h =>
    exact .inr (.inr (.inr ⟨kind, rfl, Kind.ofTag?_eq_some_iff.1 hkind, hcategory, h⟩))

section Family

theorem ne_freshId_of_length_lt {id : String} (h : id.length < freshStart.length) (n : Nat) :
    id ≠ freshId n := by
  rintro rfl
  rw [freshId, String.length_append] at h
  omega

/-- Two actions below a sequence without an id, and beside it a node without a name. -/
def family (first second tag : String) : Record :=
  .node ⟨"r", "Root", "Root", {}, .nil⟩
    [.node ⟨"", "Sequence", "Both", {}, .nil⟩
      [.node ⟨first, "Action", "First", {}, .nil⟩ [],
        .node ⟨second, "Action", "Second", {}, .nil⟩ []],
      .node ⟨"b", tag, " ", {}, .nil⟩ []]

/-- A load stops at the second of two equal ids, or else at the tag of no kind. -/
theorem foretells_family :
    Tree.load (H := Rehearsal.host) {} 3 (family "a" "a" "Gate") =
        .error (.duplicateId "a" [0, 1]) ∧
      ⟨[0, 1], .duplicateId "a"⟩ ∈ Candidate.findings (family "a" "a" "Gate").toJson ∧
      Tree.load (H := Rehearsal.host) {} 3 (family "a" "c" "Gate") =
        .error (.build (some [1]) (.unknownKind "Gate")) ∧
      ⟨[1], .unknownKind "Gate"⟩ ∈ Candidate.findings (family "a" "c" "Gate").toJson := by
  have hfresh : ∀ second, second.length < freshStart.length →
      ∀ e ∈ (family "a" second "Gate").preorder, ∀ k, 3 ≤ k → e.id ≠ freshId k := by
    intro second hsecond e he k _
    apply ne_freshId_of_length_lt
    have hids : e.id ∈ ["r", "", "a", second, "b"] := List.mem_map_of_mem he
    simp only [List.mem_cons, List.not_mem_nil, or_false] at hids
    rcases hids with h | h | h | h | h
    · rw [h]
      decide
    · rw [h]
      decide
    · rw [h]
      decide
    · rwa [h]
    · rw [h]
      decide
  have htwice : Tree.load (H := Rehearsal.host) {} 3 (family "a" "a" "Gate") =
      .error (.duplicateId "a" [0, 1]) := rfl
  have hgate : Tree.load (H := Rehearsal.host) {} 3 (family "a" "c" "Gate") =
      .error (.build (some [1]) (.unknownKind "Gate")) := rfl
  have husual : ({} : Catalog Rehearsal.host).builders = [] := rfl
  obtain ⟨-, hid, -⟩ := Record.foretells husual (hfresh "a" (by decide))
  obtain ⟨hkind, -⟩ := Record.foretells husual (hfresh "c" (by decide))
  obtain ⟨p, hp, hfound⟩ := hkind _ _ hgate
  cases hp
  exact ⟨htwice, hid _ _ htwice, hgate, hfound⟩

end Family

end Conduct
