import Mathlib.Algebra.GroupWithZero.Nat
import Conduct.Proofs.Traversal.Located
import Conduct.Tree.Stats

/-! The figures of a tree, from the list of its nodes.

Counting goes through the nodes in their order, with the level of each, so every figure is one of the
list. Main statement: `Tree.figures_stats`.
-/

set_option autoImplicit false

namespace Conduct

variable {H : Host}

/-! ## Counting -/

namespace Dict

theorem sum_insertAbove (name : String) (new : Nat) :
    {lo : Option String} → (h : Above lo name) → (d : From Nat lo) →
      ((d.insertAbove name new h).toList.map Prod.snd).sum + (d.get? name).getD 0 =
        (d.toList.map Prod.snd).sum + new
  | _, h, .nil => by simp [From.insertAbove, From.toList]
  | _, h, .cons key above value rest => by
    unfold From.insertAbove
    split
    · next hlt =>
      have hnone : (From.cons key above value rest).get? name = none :=
        From.get?_eq_none_of_le (String.lt_irrefl name) (.cons key (.of_lt hlt) value rest)
      rw [hnone]
      simp [From.toList, Nat.add_comm]
    · split
      · next heq =>
        subst heq
        rw [From.get?_cons, if_pos rfl]
        simp only [From.toList, List.map_cons, List.sum_cons, Option.getD_some]
        omega
      · next hlt heq =>
        have ih := sum_insertAbove name new (.of_lt (lt_of_not_lt_of_ne hlt heq)) rest
        rw [From.get?_cons, if_neg (Ne.symm heq)]
        simp only [From.toList, List.map_cons, List.sum_cons]
        omega

/-- A count that grows by one adds one to the sum of all. -/
theorem sum_insert_succ (d : Dict Nat) (name : String) :
    ((d.insert name ((d.get? name).getD 0 + 1)).toList.map Prod.snd).sum =
      (d.toList.map Prod.snd).sum + 1 := by
  have habove : Dict.Above none name := trivial
  have h := sum_insertAbove name ((d.get? name).getD 0 + 1) habove d
  unfold From.insert
  omega

end Dict

namespace Stats

/-- Counts a node at a position, given the level of the top. -/
def countAt (level : Nat) (s : Stats) (u : Position × Tree H) : Stats :=
  s.count u.2.value (level + u.1.length)

theorem countAt_lower (level index : Nat) (s : Stats) (u : Position × Tree H) :
    countAt level s (Rose.lower index u) = countAt (level + 1) s u := by
  simp only [countAt, Rose.lower, List.length_cons, Nat.add_assoc, Nat.add_comm u.1.length 1]

variable {level : Nat} (s : Stats) (l : List (Position × Tree H))

theorem totalNodes_foldl : (l.foldl (countAt level) s).totalNodes = s.totalNodes + l.length := by
  induction l generalizing s with
  | nil => rfl
  | cons u l ih =>
    rw [List.foldl_cons, ih, List.length_cons, Nat.add_comm l.length, ← Nat.add_assoc]
    rfl

theorem leafCount_foldl : (l.foldl (countAt level) s).leafCount =
    s.leafCount + l.countP fun u => u.2.value.kind.isLeaf := by
  induction l generalizing s with
  | nil => rfl
  | cons u l ih =>
    rw [List.foldl_cons, ih, List.countP_cons]
    simp only [countAt, count]
    split
    · omega
    · omega

theorem get?_nodesByTag_foldl (tag : String) :
    (l.foldl (countAt level) s).nodesByTag.get? tag =
      match l.countP fun u => u.2.value.kind.tag == tag with
      | 0 => s.nodesByTag.get? tag
      | more + 1 => some ((s.nodesByTag.get? tag).getD 0 + (more + 1)) := by
  induction l generalizing s with
  | nil => rfl
  | cons u l ih =>
    rw [List.foldl_cons, ih, List.countP_cons]
    by_cases htag : u.2.value.kind.tag = tag
    · subst htag
      simp only [countAt, count, Dict.From.get?_insert_self, beq_self_eq_true, if_true,
        Option.getD_some]
      split
      · next h => rw [h]
      · next more h =>
        rw [h]
        simp only [Option.some.injEq]
        omega
    · simp only [countAt, count, Dict.From.get?_insert_of_ne _ (Ne.symm htag),
        beq_false_of_ne htag, Bool.false_eq_true, if_false, Nat.add_zero]

theorem sum_nodesByTag_foldl :
    ((l.foldl (countAt level) s).nodesByTag.toList.map Prod.snd).sum =
      (s.nodesByTag.toList.map Prod.snd).sum + l.length := by
  induction l generalizing s with
  | nil => rfl
  | cons u l ih =>
    rw [List.foldl_cons, ih, List.length_cons]
    simp only [countAt, count, Dict.sum_insert_succ]
    omega

theorem maxDepth_foldl (level : Nat) :
    s.maxDepth ≤ (l.foldl (countAt level) s).maxDepth ∧
      (∀ u ∈ l, level + u.1.length ≤ (l.foldl (countAt level) s).maxDepth) ∧
      ((l.foldl (countAt level) s).maxDepth = s.maxDepth ∨
        ∃ u ∈ l, level + u.1.length = (l.foldl (countAt level) s).maxDepth) := by
  induction l generalizing s with
  | nil => exact ⟨Nat.le_refl _, fun u hu => absurd hu List.not_mem_nil, .inl rfl⟩
  | cons u l ih =>
    have hdepth : (countAt level s u).maxDepth = max s.maxDepth (level + u.1.length) := rfl
    obtain ⟨hstart, hall, hmax⟩ := ih (countAt level s u)
    rw [hdepth] at hstart hmax
    rw [List.foldl_cons]
    refine ⟨Nat.le_trans (Nat.le_max_left _ _) hstart, List.forall_mem_cons.2
      ⟨Nat.le_trans (Nat.le_max_right _ _) hstart, hall⟩, ?_⟩
    rcases hmax with hmax | ⟨w, hw, hmax⟩
    · rcases Nat.le_total (level + u.1.length) s.maxDepth with hle | hle
      · exact .inl (hmax.trans (Nat.max_eq_left hle))
      · exact .inr ⟨u, List.mem_cons_self, (hmax.trans (Nat.max_eq_right hle)).symm⟩
    · exact .inr ⟨w, List.mem_cons_of_mem _ hw, hmax⟩

end Stats

/-! ## The figures of a tree -/

namespace Tree

mutual

theorem countInto_eq (s : Stats) (level : Nat) :
    (t : Tree H) → t.countInto s level = t.located.foldl (Stats.countAt level) s
  | .node n cs => by
    rw [countInto, countAllInto_eq (s.count n level) level 0 cs]
    rfl

theorem countAllInto_eq (s : Stats) (level index : Nat) : (cs : List (Tree H)) →
    countAllInto s (level + 1) cs = (Rose.locatedAmong index cs).foldl (Stats.countAt level) s
  | [] => rfl
  | c :: cs => by
    rw [countAllInto, Rose.locatedAmong, List.foldl_append, List.foldl_map,
      countInto_eq s (level + 1) c, countAllInto_eq _ level (index + 1) cs]
    simp only [Stats.countAt_lower]

end

/-- The figures of a tree are those of the list of its nodes, and the depth is that of its deepest
node, counted from one at the top. -/
structure Figures (t : Tree H) (s : Stats) : Prop where
  total : s.totalNodes = t.depthFirst.length
  byTag : ∀ tag, s.nodesByTag.get? tag =
    match t.depthFirst.countP fun u => u.value.kind.tag == tag with
    | 0 => none
    | count + 1 => some (count + 1)
  sum : (s.nodesByTag.toList.map Prod.snd).sum = t.depthFirst.length
  leaves : s.leafCount =
    t.depthFirst.countP fun u => u.value.kind = .action || u.value.kind = .condition
  deepest : ∃ q u, t.at? q = some u ∧ q.length + 1 = s.maxDepth
  depth : ∀ q u, t.at? q = some u → q.length + 1 ≤ s.maxDepth

theorem isLeaf_eq (k : Kind) : k.isLeaf = (k = .action || k = .condition) := by
  cases k <;> rfl

theorem figures_stats (t : Tree H) : Figures t t.stats := by
  have hstats : t.stats = t.located.foldl (Stats.countAt 1) {} := countInto_eq {} 1 t
  have hlist : t.depthFirst = t.located.map Prod.snd := by
    rw [Rose.depthFirst_eq, Rose.map_snd_located]
  obtain ⟨-, hall, hmax⟩ := Stats.maxDepth_foldl {} t.located 1
  have htop : 1 ≤ t.stats.maxDepth := by
    rw [hstats]
    exact hall ([], t) (Rose.mem_located.2 rfl)
  refine ⟨?_, fun tag => ?_, ?_, ?_, ?_, fun q u hu => ?_⟩
  · rw [hstats, hlist, Stats.totalNodes_foldl, List.length_map]
    exact Nat.zero_add _
  · rw [hstats, hlist, Stats.get?_nodesByTag_foldl, List.countP_map]
    simp only [Function.comp_def, Dict.From.get?_nil, Option.getD_none, Nat.zero_add]
  · rw [hstats, hlist, Stats.sum_nodesByTag_foldl, List.length_map]
    exact Nat.zero_add _
  · rw [hstats, hlist, Stats.leafCount_foldl, List.countP_map]
    simp only [isLeaf_eq]
    exact Nat.zero_add _
  · rw [hstats] at htop ⊢
    rcases hmax with hzero | ⟨⟨q, u⟩, hu, hmax⟩
    · rw [hzero] at htop
      exact absurd htop (Nat.not_succ_le_zero 0)
    · exact ⟨q, u, Rose.mem_located.1 hu, (Nat.add_comm _ _).trans hmax⟩
  · rw [hstats, Nat.add_comm]
    exact hall (q, u) (Rose.mem_located.2 hu)

end Tree

end Conduct
