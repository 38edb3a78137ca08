import Conduct.Proofs.Foresight.Candidate
import Conduct.Proofs.Ids
import Conduct.Proofs.Loading
import Conduct.Tree.Findings

/-! Where the findings of a tree and of its data come from.

Each finding is a flaw of one node, at the position of the node. What is found in the data of a tree
is so too if its ids are there and distinct, as no id is then seen twice. Main statements:
`Rose.everywhere_iff_at?`, `Tree.mem_findings` and `Tree.mem_findings_record`.
-/

set_option autoImplicit false

namespace Conduct

/-- What is at a position is the top, or is below a child. -/
theorem Rose.exists_at?_node {α : Type} {P : Position → Rose α → Prop} {v : α}
    {cs : List (Rose α)} : (∃ q u, (node v cs).at? q = some u ∧ P q u) ↔
      P [] (node v cs) ∨ ∃ i c, cs[i]? = some c ∧ ∃ q u, c.at? q = some u ∧ P (i :: q) u := by
  constructor
  · rintro ⟨q, u, hu, hP⟩
    cases q with
    | nil =>
      cases hu
      exact .inl hP
    | cons i q =>
      obtain ⟨c, hc, hu⟩ := Option.bind_eq_some_iff.1 hu
      exact .inr ⟨i, c, hc, q, u, hu, hP⟩
  · rintro (hP | ⟨i, c, hc, q, u, hu, hP⟩)
    · exact ⟨[], _, rfl, hP⟩
    · exact ⟨i :: q, u, Option.bind_eq_some_iff.2 ⟨c, hc, hu⟩, hP⟩

/-- What every node of a tree has is what the node at every position has. -/
theorem Rose.everywhere_iff_at? {α : Type} {P : α → List (Rose α) → Prop} {t : Rose α} :
    t.Everywhere P ↔ ∀ q v cs, t.at? q = some (node v cs) → P v cs := by
  constructor
  · intro ht q v cs hq
    exact (everywhere_node.1 (Everywhere.at? ht hq)).1
  · intro hat
    induction t using ofChildren with
    | h v cs ih =>
      refine everywhere_node.2 ⟨hat [] v cs rfl, fun c hc => ih c hc fun q w ds hq => ?_⟩
      obtain ⟨i, hi⟩ := List.getElem?_of_mem hc
      exact hat (i :: q) w ds (Option.bind_eq_some_iff.2 ⟨c, hi, hq⟩)

/-- What is in a list is its head, or is in its tail. -/
theorem exists_getElem?_cons {α : Type} {P : Nat → α → Prop} {a : α} {as : List α} :
    (∃ i b, (a :: as)[i]? = some b ∧ P i b) ↔ P 0 a ∨ ∃ i b, as[i]? = some b ∧ P (i + 1) b := by
  constructor
  · rintro ⟨i, b, hb, hP⟩
    cases i with
    | zero =>
      cases hb
      exact .inl hP
    | succ i => exact .inr ⟨i, b, hb, hP⟩
  · rintro (hP | ⟨i, b, hb, hP⟩)
    · exact ⟨0, a, rfl, hP⟩
    · exact ⟨i + 1, b, hb, hP⟩

namespace Tree

variable {H : Host} {t : Tree H} {p : Position} {f : Finding}

/-- A node below the position has this flaw, by one way to tell the flaws of nodes. -/
def Tells (flaws : Tree H → List Flaw) (p : Position) (t : Tree H) (f : Finding) : Prop :=
  ∃ q u, t.at? q = some u ∧ f.position = p ++ q ∧ f.flaw ∈ flaws u

theorem tells_node {flaws : Tree H → List Flaw} {n : Node H} {cs : List (Tree H)} :
    Tells flaws p (.node n cs) f ↔ (f.position = p ∧ f.flaw ∈ flaws (.node n cs)) ∨
      ∃ i c, cs[i]? = some c ∧ Tells flaws (p.child i) c f := by
  unfold Tells
  rw [Rose.exists_at?_node]
  simp only [List.append_nil, Position.child, List.append_assoc, List.singleton_append]

theorem mem_map_mk {flaws : List Flaw} :
    f ∈ flaws.map (⟨p, ·⟩) ↔ f.position = p ∧ f.flaw ∈ flaws := by
  obtain ⟨q, flaw⟩ := f
  simp only [List.mem_map, Finding.mk.injEq]
  constructor
  · rintro ⟨flaw, hmem, rfl, rfl⟩
    exact ⟨rfl, hmem⟩
  · rintro ⟨rfl, hmem⟩
    exact ⟨flaw, hmem, rfl, rfl⟩

/-! ## The findings of a tree -/

theorem mem_findingsAt :
    f ∈ t.findingsAt p ↔ t.Tells (fun u => u.value.flaws u.children.length) p f := by
  induction t using Rose.ofChildren generalizing p with
  | h n cs ih =>
    have hbelow : ∀ index, f ∈ findingsBelow p index cs ↔ ∃ i c, cs[i]? = some c ∧
        Tells (fun u => u.value.flaws u.children.length) (p.child (index + i)) c f := by
      induction cs with
      | nil => simp [findingsBelow]
      | cons c cs ihcs =>
        intro index
        obtain ⟨hc, hcs⟩ := List.forall_mem_cons.1 ih
        rw [findingsBelow, List.mem_append, exists_getElem?_cons, hc, ihcs hcs]
        simp only [Nat.add_assoc, Nat.add_comm 1, Nat.add_zero]
    rw [findingsAt, List.mem_append, mem_map_mk, hbelow, tells_node]
    simp only [Nat.zero_add]
    rfl

theorem mem_findings :
    f ∈ t.findings ↔ t.Tells (fun u => u.value.flaws u.children.length) [] f := mem_findingsAt

/-! ## The findings of its data -/

open Candidate (findingsOfItems)

/-- The flaws that are found in the data of the top. -/
def dataFlaws (t : Tree H) : List Flaw := Candidate.flaws t.record.toJson

/-- All that is found in the data of a tree whose ids are new are flaws of its nodes, and then just
these ids have been seen besides those before. -/
structure Told (p : Position) (t : Tree H) (seen : List String)
    (report : List Finding × List String) : Prop where
  told : ∀ f, f ∈ report.1 ↔ t.Tells dataFlaws p f
  seen : ∀ id, id ∈ report.2 ↔ id ∈ t.ids ∨ id ∈ seen

theorem told_record {seen : List String} (hids : t.ids.Nodup)
    (hgiven : ∀ id ∈ t.ids, id.isEmpty = false) (hnew : ∀ id ∈ t.ids, id ∉ seen) :
    Told p t seen (Candidate.findingsAt p seen t.record.toJson) := by
  induction t using Rose.ofChildren generalizing p seen with
  | h n cs ih =>
    have hbelow : ∀ index seen, (cs.flatMap ids).Nodup →
        (∀ id ∈ cs.flatMap ids, id.isEmpty = false) → (∀ id ∈ cs.flatMap ids, id ∉ seen) →
        (∀ f, f ∈ (findingsOfItems p index seen ((cs.map record).map Record.toJson)).1 ↔
          ∃ i c, cs[i]? = some c ∧ Tells dataFlaws (p.child (index + i)) c f) ∧
        ∀ id, id ∈ (findingsOfItems p index seen ((cs.map record).map Record.toJson)).2 ↔
          id ∈ cs.flatMap ids ∨ id ∈ seen := by
      clear hids hgiven hnew
      induction cs with
      | nil => simp [findingsOfItems]
      | cons c cs ihcs =>
        intro index seen hids hgiven hnew
        obtain ⟨hc, hcs⟩ := List.forall_mem_cons.1 ih
        rw [List.flatMap_cons] at hids hgiven hnew
        obtain ⟨hgiven, hgivens⟩ := List.forall_mem_append.1 hgiven
        obtain ⟨hnew, hnews⟩ := List.forall_mem_append.1 hnew
        obtain ⟨hids, hidss, hdisjoint⟩ := List.nodup_append'.1 hids
        have htold := hc (p := p.child index) hids hgiven hnew
        obtain ⟨hmore, hseen⟩ := ihcs hcs (index + 1)
          (Candidate.findingsAt (p.child index) seen (record c).toJson).2 hidss hgivens (by
            intro id hid hid'
            rcases (htold.seen id).1 hid' with h | h
            · exact hdisjoint h hid
            · exact hnews id hid h)
        simp only [List.map_cons, findingsOfItems]
        constructor
        · intro f
          rw [List.mem_append, htold.told, hmore, exists_getElem?_cons]
          simp only [Nat.add_assoc, Nat.add_comm 1, Nat.add_zero]
        · intro id
          rw [hseen, htold.seen, List.flatMap_cons, List.mem_append]
          exact or_left_comm.trans or_assoc.symm
    have hid : n.id.isEmpty = false := hgiven n.id (id_mem_ids (.node n cs))
    have hunseen : n.id ∉ seen := hnew n.id (id_mem_ids (.node n cs))
    rw [ids_node, List.nodup_cons] at hids
    rw [ids_node, List.forall_mem_cons] at hgiven hnew
    obtain ⟨hmore, hseen⟩ := hbelow 0 (n.id :: seen) hids.2 hgiven.2 (by
      intro id hid hid'
      rcases List.mem_cons.1 hid' with rfl | h
      · exact hids.1 hid
      · exact hnew.2 id hid h)
    have hown : Candidate.idFlaws seen (Record.toJson (.node n.entry (cs.map record))) =
        ([], n.id :: seen) := by
      have he : n.entry.id = n.id := rfl
      rw [Candidate.idFlaws_toJson, he, hid]
      simp [hunseen]
    rw [record_node, Candidate.findingsAt_toJson, hown]
    constructor
    · intro f
      rw [List.mem_append, mem_map_mk, hmore, tells_node, List.nil_append, dataFlaws, record_node]
      simp only [Nat.zero_add]
    · intro id
      rw [hseen, ids_node, List.mem_cons, List.mem_cons]
      exact or_left_comm.trans or_assoc.symm

/-- What is found in the data of a tree are flaws of its nodes, if its ids are there and distinct. -/
theorem mem_findings_record (hids : t.ids.Nodup) (hgiven : ∀ id ∈ t.ids, id.isEmpty = false) :
    f ∈ Candidate.findings t.record.toJson ↔ t.Tells dataFlaws [] f :=
  (told_record hids hgiven fun _ _ => List.not_mem_nil).told f

end Tree

end Conduct
