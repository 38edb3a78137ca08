import Conduct.Proofs.Concord.Reports
import Conduct.Proofs.Reload

/-! What is found in a tree and in its data.

A tree is looked at node by node, each asked for its findings, and its data by what the tags say of
kinds. Whatever was done to a loaded tree, both find the same nodes without a name and the same nodes
with too many children. A tree alone tells of missing children and of settings, and its data alone of
places that are no numbers. Main statement: `RootedTree.Edited.concurs`.
-/

set_option autoImplicit false

namespace Conduct

variable {H : Host}

/-! ## Flaws that both tell of -/

/-- What nodes of the kind say of this number of children. -/
def Kind.childFindings (kind : Kind) (count : Nat) : List String :=
  match kind.category with
  | .root => Root.findings count
  | .decorator => decoratorFindings count
  | .composite => []
  | .leaf => []

/-- A flaw of a node, and what is told of it by the data. -/
inductive Flaw.Counterpart : Flaw → Flaw → Prop
  | unnamed (id : String) : Counterpart (.unnamed id) .noName
  | crowded {kind : Kind} {count : Nat} {text : String} (name : String) (hcount : 1 < count)
      (htext : text ∈ kind.childFindings count) :
      Counterpart (.unsuited kind name text) (.tooManyChildren kind name count)

/-- A flaw that only the node tells of: it is one of its settings, or children are missing. -/
def Node.Private (n : Node H) (count : Nat) (flaw : Flaw) : Prop :=
  ∃ text, flaw = .unsuited n.kind n.name text ∧ text ∈ n.behavior.findings count ∧
    (text ∈ n.kind.childFindings count → count = 0)

/-- A flaw that only the data tells of: there is no number for a float that is not finite. -/
def Node.Displaced (n : Node H) (flaw : Flaw) : Prop :=
  (flaw = .notANumber "x" ∧ n.layout.x.isFinite = false) ∨
    (flaw = .notANumber "y" ∧ n.layout.y.isFinite = false)

theorem Behavior.childFindings_subset {b : Behavior H} {kind : Kind} (hb : b.kind? = some kind)
    (count : Nat) : kind.childFindings count ⊆ b.findings count := by
  cases b with
  | extension e played => cases hb
  | repeater s run =>
    cases hb
    exact List.subset_append_left _ _
  | root | inverter =>
    cases hb
    exact List.Subset.refl _
  | sequence | selector | parallel | action | condition =>
    cases hb
    exact List.nil_subset _

/-- Roots and decorators find fault with every number of children but one, other nodes with none. -/
theorem Kind.exists_childFindings_iff {kind : Kind} {count : Nat} :
    (∃ text, text ∈ kind.childFindings count) ↔
      (kind.category = .root ∨ kind.category = .decorator) ∧ count ≠ 1 := by
  unfold childFindings Root.findings decoratorFindings
  cases kind.category with
  | root | decorator =>
    by_cases hcount : count = 1
    · simp [hcount]
    · simp [hcount]
  | composite | leaf => simp

theorem Candidate.mem_countFlaws {kind : Kind} {name : String} {count : Nat} {flaw : Flaw} :
    flaw ∈ countFlaws kind name count ↔
      (flaw = .leafWithChildren kind name ∧ kind.isLeaf ∧ 0 < count) ∨
        (flaw = .tooManyChildren kind name count ∧
          (kind.category = .root ∨ kind.category = .decorator) ∧ 1 < count) := by
  unfold countFlaws Kind.isLeaf
  cases kind.category with
  | root | decorator | leaf => simp [and_comm]
  | composite => simp

namespace Tree

variable {n : Node H} {cs : List (Tree H)} {flaw : Flaw}

theorem mem_dataFlaws : flaw ∈ dataFlaws (.node n cs) ↔
    (flaw = .noName ∧ Text.isAllBlank n.name) ∨ n.Displaced flaw ∨
      flaw ∈ Candidate.countFlaws n.kind n.name cs.length := by
  unfold dataFlaws Node.Displaced
  rw [record_node, Candidate.mem_flaws_toJson]
  unfold Candidate.tagFlaws
  rw [show n.entry.tag = n.kind.tag from rfl, Kind.ofTag?_tag, List.length_map, or_assoc]
  rfl

theorem mem_flaws : flaw ∈ n.flaws cs.length ↔
    (flaw = .unnamed n.id ∧ Text.isAllBlank n.name) ∨
      (flaw = .leafWithChildren n.kind n.name ∧ n.kind.isLeaf ∧ 0 < cs.length) ∨
      ∃ text ∈ n.behavior.findings cs.length, flaw = .unsuited n.kind n.name text := by
  unfold Node.flaws
  simp only [List.mem_append, List.mem_ite_nil_right, List.mem_singleton, List.mem_map, or_assoc,
    and_comm, eq_comm]

theorem counterpart_of_mem_flaws (hleaf : n.kind.isLeaf = true → cs = [])
    (h : flaw ∈ n.flaws cs.length) :
    n.Private cs.length flaw ∨ ∃ data ∈ dataFlaws (.node n cs), flaw.Counterpart data := by
  rcases mem_flaws.1 h with ⟨rfl, hname⟩ | ⟨-, hl, hcount⟩ | ⟨text, htext, rfl⟩
  · exact .inr ⟨_, mem_dataFlaws.2 (.inl ⟨rfl, hname⟩), .unnamed n.id⟩
  · rw [hleaf hl] at hcount
    cases hcount
  · by_cases hcrowded : text ∈ n.kind.childFindings cs.length ∧ 1 < cs.length
    · obtain ⟨hchild, hcount⟩ := hcrowded
      have hcategory := (Kind.exists_childFindings_iff.1 ⟨text, hchild⟩).1
      have hdata : .tooManyChildren n.kind n.name cs.length ∈ dataFlaws (.node n cs) :=
        mem_dataFlaws.2 (.inr (.inr (Candidate.mem_countFlaws.2 (.inr ⟨rfl, hcategory, hcount⟩))))
      exact .inr ⟨_, hdata, .crowded n.name hcount hchild⟩
    · refine .inl ⟨text, rfl, htext, fun hchild => ?_⟩
      have hne := (Kind.exists_childFindings_iff.1 ⟨text, hchild⟩).2
      have hle : ¬ 1 < cs.length := fun hcount => hcrowded ⟨hchild, hcount⟩
      omega

theorem counterpart_of_mem_dataFlaws (hkind : n.behavior.kind? = some n.kind)
    (hleaf : n.kind.isLeaf = true → cs = []) {data : Flaw} (h : data ∈ dataFlaws (.node n cs)) :
    n.Displaced data ∨ ∃ flaw ∈ n.flaws cs.length, flaw.Counterpart data := by
  rcases mem_dataFlaws.1 h with ⟨rfl, hname⟩ | hdisplaced | hcount
  · exact .inr ⟨_, mem_flaws.2 (.inl ⟨rfl, hname⟩), .unnamed n.id⟩
  · exact .inl hdisplaced
  · rcases Candidate.mem_countFlaws.1 hcount with ⟨-, hl, hpos⟩ | ⟨rfl, hcategory, hpos⟩
    · rw [hleaf hl] at hpos
      cases hpos
    · have hne : cs.length ≠ 1 := by omega
      obtain ⟨text, htext⟩ := Kind.exists_childFindings_iff.2 ⟨hcategory, hne⟩
      have hfound := Behavior.childFindings_subset hkind cs.length htext
      exact .inr ⟨_, mem_flaws.2 (.inr (.inr ⟨text, hfound, rfl⟩)), .crowded n.name hpos htext⟩

/-! ## What both reports tell of a tree -/

/-- The two reports tell the same of a tree, as far as they tell of the same things. -/
structure Concurs (t : Tree H) : Prop where
  /-- Where nothing is found in the tree, nothing is found in the data if all places are finite, and
  only then. -/
  clean : t.findings = [] → (Candidate.findings t.record.toJson = [] ↔
    t.Everywhere fun n _ => n.layout.x.isFinite = true ∧ n.layout.y.isFinite = true)
  /-- What is found in the tree and is not private to it is found in the data. -/
  told : ∀ f ∈ t.findings,
    (∃ u, t.at? f.position = some u ∧ u.value.Private u.children.length f.flaw) ∨
      ∃ g ∈ Candidate.findings t.record.toJson, g.position = f.position ∧
        f.flaw.Counterpart g.flaw
  /-- What is found in the data and is not a matter of a place is found in the tree. -/
  foretold : ∀ g ∈ Candidate.findings t.record.toJson,
    (∃ u, t.at? g.position = some u ∧ u.value.Displaced g.flaw) ∨
      ∃ f ∈ t.findings, f.position = g.position ∧ f.flaw.Counterpart g.flaw

variable {t : Tree H} {catalog : Catalog H}

/-- A node of a tree that can be loaded has a behavior of its kind, and a leaf has no children. -/
theorem Loadable.at_position (hc : catalog.builders = []) (h : Loadable catalog t) {q : Position}
    (hu : t.at? q = some (.node n cs)) :
    n.behavior.kind? = some n.kind ∧ (n.kind.isLeaf = true → cs = []) := by
  obtain ⟨⟨-, hbuild, hclosed⟩, -⟩ := Rose.everywhere_node.1 (Rose.Everywhere.at? h.buildable hu)
  have hkind : n.behavior.kind? = some n.kind := by
    rw [← Behavior.kind?_anew]
    exact (Catalog.build_anew hc hbuild).2
  exact ⟨hkind, fun hl => hclosed ((Behavior.isClosed_limit hkind).trans hl)⟩

theorem Loadable.concurs_record (hc : catalog.builders = []) (h : Loadable catalog t) : t.Concurs := by
  have hgiven : ∀ id ∈ t.ids, id.isEmpty = false := by
    intro id hid
    obtain ⟨n, hn, rfl⟩ := List.mem_map.1 hid
    exact Rose.everywhere_iff_preorder.1 (h.buildable.imp fun n cs hn => hn.1) n hn
  have hdata := fun g : Finding => mem_findings_record (f := g) h.distinct hgiven
  have hforetold : ∀ g ∈ Candidate.findings t.record.toJson,
      (∃ u, t.at? g.position = some u ∧ u.value.Displaced g.flaw) ∨
        ∃ f ∈ t.findings, f.position = g.position ∧ f.flaw.Counterpart g.flaw := by
    intro g hg
    obtain ⟨q, ⟨n, cs⟩, hu, hq, hflaw⟩ := (hdata g).1 hg
    obtain ⟨hkind, hleaf⟩ := h.at_position hc hu
    rw [List.nil_append] at hq
    have hat : t.at? g.position = some (.node n cs) := by rwa [hq]
    rcases counterpart_of_mem_dataFlaws hkind hleaf hflaw with hd | ⟨flaw, hmem, hcounterpart⟩
    · exact .inl ⟨.node n cs, hat, hd⟩
    · exact .inr ⟨⟨q, flaw⟩, mem_findings.2 ⟨q, _, hu, rfl, hmem⟩, hq.symm, hcounterpart⟩
  refine ⟨fun hnone => ⟨fun hempty => ?_, fun hfinite => ?_⟩, ?_, hforetold⟩
  · refine Rose.everywhere_iff_at?.2 fun q n cs hu => ?_
    have hplaced : ∀ axis, ¬ n.Displaced (.notANumber axis) := by
      intro axis hd
      have hmem := (hdata ⟨q, .notANumber axis⟩).2
        ⟨q, _, hu, rfl, mem_dataFlaws.2 (.inr (.inl hd))⟩
      rw [hempty] at hmem
      cases hmem
    constructor
    · exact eq_true_of_ne_false fun hx => hplaced "x" (.inl ⟨rfl, hx⟩)
    · exact eq_true_of_ne_false fun hy => hplaced "y" (.inr ⟨rfl, hy⟩)
  · refine List.eq_nil_iff_forall_not_mem.2 fun g hg => ?_
    rcases hforetold g hg with ⟨⟨n, cs⟩, hu, hd⟩ | ⟨f, hf, -⟩
    · obtain ⟨hx, hy⟩ := Rose.everywhere_iff_at?.1 hfinite _ n cs hu
      rcases hd with ⟨-, hd⟩ | ⟨-, hd⟩
      · exact absurd (hx.symm.trans hd) nofun
      · exact absurd (hy.symm.trans hd) nofun
    · rw [hnone] at hf
      cases hf
  · intro f hf
    obtain ⟨q, ⟨n, cs⟩, hu, hq, hflaw⟩ := mem_findings.1 hf
    obtain ⟨-, hleaf⟩ := h.at_position hc hu
    rw [List.nil_append] at hq
    have hat : t.at? f.position = some (.node n cs) := by rwa [hq]
    rcases counterpart_of_mem_flaws hleaf hflaw with hp | ⟨data, hmem, hcounterpart⟩
    · exact .inl ⟨.node n cs, hat, hp⟩
    · exact .inr ⟨⟨q, data⟩, (hdata _).2 ⟨q, _, hu, rfl, hmem⟩, hq.symm, hcounterpart⟩

end Tree

/-- Whatever was done to a loaded tree, what is found in it and what is found in its data concur. -/
theorem RootedTree.Edited.concurs {catalog : Catalog H} (hc : catalog.builders = [])
    {t : RootedTree H} {held : List (Tree H)} (e : RootedTree.Edited catalog t held) :
    t.tree.Concurs :=
  (e.loadable hc).1.concurs_record hc

section Crowd

open Conduct.RootedTree (Edited load tools workshop)

/-- The action is taken out from below the sequence and put below the root, which has two children
then. -/
theorem concurs_workshop :
    ∃ t held, Edited tools t held ∧ t.tree.Concurs ∧
      t.tree.findings = [⟨[], .unsuited .root "Root" "root needs exactly one child, found 2"⟩] ∧
      Candidate.findings t.tree.record.toJson = [⟨[], .tooManyChildren .root "Root" 2⟩] := by
  obtain ⟨t, hl⟩ : ∃ t, load tools 0 workshop = .ok (t, 0) := ⟨_, rfl⟩
  obtain ⟨child, t₁, hd⟩ : ∃ child t₁, t.detach? "a" = some (child, t₁) := by
    cases hl
    exact ⟨_, _, rfl⟩
  obtain ⟨t₂, hg⟩ : ∃ t₂, t₁.graft "r" 1 child = .ok t₂ := by
    cases hl
    cases hd
    exact ⟨_, rfl⟩
  have e₁ : Edited tools t₁ ([] ++ child :: []) := (Edited.loaded hl).detached hd
  have e : Edited tools t₂ [] := e₁.grafted hg
  refine ⟨t₂, [], e, e.concurs rfl, ?_, ?_⟩
  · cases hl
    cases hd
    cases hg
    rfl
  · cases hl
    cases hd
    cases hg
    rfl

end Crowd

end Conduct
