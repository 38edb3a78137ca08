import Conduct.Proofs.Ids
import Conduct.Proofs.Path.Grammar
import Conduct.Proofs.Traversal.Figures

/-! The traversals of a tree.

They all go through the nodes in one order, so what one finds is where the others say it is. The text of
a position tells the position, however many digits its indices have. Main statements:
`Position.text_injective` and `Tree.traversals_agree`.
-/

set_option autoImplicit false

namespace Conduct

/-! ## The texts of positions -/

namespace Position

variable {p q : Position}

theorem toList_text (p : Position) :
    p.text.toList = "root".toList ++ p.flatMap fun index => (stepText index).toList := by
  rw [text, String.toList_append, String.toList_join, List.flatMap_map]

theorem toList_stepText (index : Nat) :
    (stepText index).toList = ".child[".toList ++ (Nat.toDigits 10 index ++ [']']) := by
  have hdigits : (toString index).toList = Nat.toDigits 10 index := by
    rw [Nat.toString_eq_ofList_toDigits, String.toList_ofList]
  rw [stepText, String.toList_append, String.toList_append, List.append_assoc, hdigits]
  rfl

/-- The digits of an index end at the bracket, so two steps are told apart whatever follows them. -/
theorem stepText_append_inj {i j : Nat} {as bs : List Char}
    (h : (stepText i).toList ++ as = (stepText j).toList ++ bs) : i = j ∧ as = bs := by
  have hspan : ∀ (n : Nat) (rest : List Char),
      (Nat.toDigits 10 n ++ (']' :: rest)).takeWhile Char.isDigit = Nat.toDigits 10 n ∧
      (Nat.toDigits 10 n ++ (']' :: rest)).dropWhile Char.isDigit = ']' :: rest := by
    intro n rest
    apply PropertyPath.span_append
    · exact fun c hc => Nat.isDigit_of_mem_toDigits (by decide) (by decide) hc
    · exact fun c hc => by
        cases hc
        decide
  simp only [toList_stepText, List.append_assoc, List.singleton_append] at h
  have hdigits := List.append_cancel_left h
  have hindex : Nat.toDigits 10 i = Nat.toDigits 10 j := by
    rw [← (hspan i as).1, hdigits, (hspan j bs).1]
  have hrest : ']' :: as = ']' :: bs := by
    rw [← (hspan i as).2, hdigits, (hspan j bs).2]
  refine ⟨?_, List.tail_eq_of_cons_eq hrest⟩
  rw [← Nat.ofDigitChars_ten_toDigits (n := i), hindex, Nat.ofDigitChars_ten_toDigits]

/-- Different positions have different texts. -/
theorem text_injective (h : p.text = q.text) : p = q := by
  have hsteps : (p.flatMap fun index => (stepText index).toList) =
      q.flatMap fun index => (stepText index).toList := by
    have hlist := congrArg String.toList h
    rw [toList_text, toList_text] at hlist
    exact List.append_cancel_left hlist
  clear h
  have hsome : ∀ (i : Nat) (rest : List Char), (stepText i).toList ++ rest ≠ [] := by
    intro i rest he
    rw [toList_stepText] at he
    cases he
  induction p generalizing q with
  | nil =>
    cases q with
    | nil => rfl
    | cons j q => exact absurd hsteps.symm (hsome j _)
  | cons i p ih =>
    cases q with
    | nil => exact absurd hsteps (hsome i _)
    | cons j q =>
      obtain ⟨rfl, hrest⟩ := stepText_append_inj hsteps
      rw [ih hrest]

end Position

variable {H : Host}

namespace Tree

/-! ## Looking for an id -/

/-- The text of the position of the first node with an id. -/
def pathOf? (t : Tree H) (id : String) : Option String := (t.positionOf? id).map Position.text

/-- What a search for an id comes to: the first of the nodes in their order that has the id, at the
position that the path spells. -/
structure Leads (t : Tree H) (id : String) : Prop where
  first : t.find? id = t.depthFirst.find? fun u => u.value.id == id
  path : t.pathOf? id = (t.located.find? fun s => s.2.value.id == id).map fun s => s.1.text
  /-- There is a path for the ids of the tree. -/
  found : (t.pathOf? id).isSome ↔ id ∈ t.ids
  /-- Whatever indices the path spells, they lead to the node that is found. -/
  reached : ∀ q : Position, t.pathOf? id = some q.text → t.at? q = t.find? id
  /-- A change of the node that is found is a change at that position. -/
  changed : ∀ q : Position, t.pathOf? id = some q.text →
    ∀ new, t.replace id new = Rose.putAt new q t

theorem leads (t : Tree H) (id : String) : Leads t id := by
  have hread : ∀ q : Position, t.pathOf? id = some q.text → t.positionOf? id = some q := by
    intro q hq
    obtain ⟨r, hr, ht⟩ := Option.map_eq_some_iff.1 hq
    rw [hr, Position.text_injective ht]
  refine ⟨?_, ?_, ?_, fun q hq => ?_, fun q hq new => ?_⟩
  · unfold find?
    rw [Rose.find?_eq_located, Rose.depthFirst_eq, ← Rose.map_snd_located, List.find?_map]
    rfl
  · unfold pathOf? positionOf?
    rw [Rose.positionOf?_eq_located, Option.map_map]
    rfl
  · unfold pathOf? positionOf?
    rw [Option.isSome_map, Option.isSome_iff_ne_none, Ne, Rose.positionOf?_eq_none_iff]
    exact (not_congr find?_eq_none_iff).trans Decidable.not_not
  · obtain ⟨u, hu, hat, -⟩ := Rose.positionOf?_eq_some (hread q hq)
    rw [hat]
    exact hu.symm
  · exact Rose.replace_of_positionOf? new t (hread q hq)

theorem pathOf?_injective {t : Tree H} {id id' : String} (hid : id ∈ t.ids)
    (h : t.pathOf? id = t.pathOf? id') : id = id' := by
  obtain ⟨path, hpath⟩ := Option.isSome_iff_exists.1 ((leads t id).found.2 hid)
  obtain ⟨q, hq, rfl⟩ := Option.map_eq_some_iff.1 hpath
  obtain ⟨q', hq', he⟩ := Option.map_eq_some_iff.1 (h.symm.trans hpath)
  obtain rfl := Position.text_injective he
  obtain ⟨u, -, hu, hid⟩ := Rose.positionOf?_eq_some hq
  obtain ⟨u', -, hu', hid'⟩ := Rose.positionOf?_eq_some hq'
  obtain rfl : u = u' := Option.some.inj (hu.symm.trans hu')
  exact (beq_iff_eq.1 hid).symm.trans (beq_iff_eq.1 hid')

/-- The walk with a stack comes to an end after one step for each node and finds them in the order of
the recursion, each before its children and these from left to right. The figures are those of this
list. A search for an id finds the first node in it that has the id, the path of an id leads to that
node, and different ids have different paths. -/
theorem traversals_agree (t : Tree H) :
    Rose.Walk.run t.size (.start t) = ⟨t.subtrees, []⟩ ∧
      t.depthFirst = t.subtrees ∧ t.located.map Prod.snd = t.subtrees ∧
      t.subtrees.map Rose.value = t.preorder ∧ Figures t t.stats ∧ (∀ id, Leads t id) ∧
      ∀ id ∈ t.ids, ∀ id', id ≠ id' → t.pathOf? id ≠ t.pathOf? id' := by
  refine ⟨Rose.Walk.run_start t, Rose.depthFirst_eq t, Rose.map_snd_located t,
    Rose.map_value_subtrees t, figures_stats t, leads t, ?_⟩
  intro id hid id' hne h
  exact hne (pathOf?_injective hid h)

end Tree

end Conduct
