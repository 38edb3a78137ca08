import Conduct.Proofs.Exchange

/-! The nodes of a tree with their positions, from the top down.

`located` lists every subtree once, with its position, each before those below it and these from left
to right. The walk with a stack, the search for a node and the search for its position all go through
the tree in this order. Main statements: `Walk.run_start`, `depthFirst_eq`, `find?_eq_located`,
`positionOf?_eq_located` and `replace_of_positionOf?`.
-/

set_option autoImplicit false

namespace Conduct.Rose

variable {α : Type} {p : α → Bool} {t u new : Rose α} {q : Position}

/-! ## Subtrees -/

mutual

/-- The subtrees of a tree, each before those below it and these from left to right. -/
def subtrees : Rose α → List (Rose α)
  | .node v cs => .node v cs :: subtreesAll cs

def subtreesAll : List (Rose α) → List (Rose α)
  | [] => []
  | c :: cs => c.subtrees ++ subtreesAll cs

end

theorem subtreesAll_eq_flatMap (cs : List (Rose α)) : subtreesAll cs = cs.flatMap subtrees := by
  induction cs with
  | nil => rfl
  | cons c cs ih => rw [subtreesAll, ih, List.flatMap_cons]

theorem subtrees_node (v : α) (cs : List (Rose α)) :
    (node v cs).subtrees = node v cs :: cs.flatMap subtrees := by
  rw [subtrees, subtreesAll_eq_flatMap]

theorem map_value_subtrees (t : Rose α) : t.subtrees.map value = t.preorder := by
  induction t using ofChildren with
  | h v cs ih =>
    rw [subtrees_node, preorder_node, List.map_cons, List.map_flatMap, List.flatMap_def,
      List.map_congr_left ih, ← List.flatMap_def]
    rfl

/-! ## The walk with a stack -/

/-- A walk that is under way: what it has found, and the stack of what it is still to look at, of which
the last one is the top. -/
structure Walk (α : Type) where
  found : List (Rose α)
  stack : List (Rose α)

namespace Walk

def start (t : Rose α) : Walk α := ⟨[], [t]⟩

/-- Takes the top from the stack and puts its children there, the first of them on top. -/
def step (w : Walk α) : Walk α :=
  match w.stack.getLast? with
  | none => w
  | some t => ⟨w.found ++ [t], w.stack.dropLast ++ t.children.reverse⟩

def run : Nat → Walk α → Walk α
  | 0, w => w
  | steps + 1, w => run steps w.step

theorem run_add (m n : Nat) (w : Walk α) : run (m + n) w = run n (run m w) := by
  induction m generalizing w with
  | zero => rw [Nat.zero_add, run]
  | succ m ih => rw [Nat.succ_add, run, run, ih]

theorem step_concat (found stack : List (Rose α)) (t : Rose α) :
    step ⟨found, stack ++ [t]⟩ = ⟨found ++ [t], stack ++ t.children.reverse⟩ := by
  simp only [step, List.getLast?_concat, List.dropLast_concat]

/-- In as many steps as it has nodes, a tree on top of the stack gives way to its subtrees among what
is found. -/
theorem run_concat (t : Rose α) (found stack : List (Rose α)) :
    run t.size ⟨found, stack ++ [t]⟩ = ⟨found ++ t.subtrees, stack⟩ := by
  induction t using ofChildren generalizing found stack with
  | h v cs ih =>
    have hall : ∀ (ds : List (Rose α)), (∀ d ∈ ds, d ∈ cs) → ∀ found,
        run (sizeAll ds) ⟨found, stack ++ ds.reverse⟩ = ⟨found ++ ds.flatMap subtrees, stack⟩ := by
      intro ds
      induction ds with
      | nil =>
        intro _ found
        rw [sizeAll, run, List.reverse_nil, List.append_nil, List.flatMap_nil, List.append_nil]
      | cons d ds ihds =>
        intro hmem found
        obtain ⟨hd, hds⟩ := List.forall_mem_cons.1 hmem
        rw [sizeAll, run_add, List.reverse_cons, ← List.append_assoc, ih d hd, ihds hds,
          List.flatMap_cons, List.append_assoc]
    rw [size, run_add, run, run, step_concat, children, hall cs fun _ hd => hd, subtrees_node,
      List.append_assoc, List.singleton_append]

/-- A walk through a tree comes to its end after one step for each node, and finds the subtrees in
their order. -/
theorem run_start (t : Rose α) : run t.size (start t) = ⟨t.subtrees, []⟩ := run_concat t [] []

end Walk

theorem visit_eq_flatMap (stack : List (Rose α)) : visit stack = stack.flatMap subtrees := by
  fun_induction visit stack with
  | case1 => rfl
  | case2 v cs stack ih =>
    rw [ih, List.flatMap_append, List.flatMap_cons, subtrees_node, List.cons_append]

theorem depthFirst_eq (t : Rose α) : t.depthFirst = t.subtrees := by
  rw [depthFirst, visit_eq_flatMap, List.flatMap_singleton]

/-! ## Subtrees with their positions -/

/-- A subtree below the child with an index, as it is seen from the top. -/
def lower (index : Nat) (s : Position × Rose α) : Position × Rose α := (index :: s.1, s.2)

mutual

/-- The subtrees of a tree in their order, each with its position. -/
def located : Rose α → List (Position × Rose α)
  | .node v cs => ([], .node v cs) :: locatedAmong 0 cs

/-- The subtrees of children, the first of which has the given index. -/
def locatedAmong (index : Nat) : List (Rose α) → List (Position × Rose α)
  | [] => []
  | c :: cs => c.located.map (lower index) ++ locatedAmong (index + 1) cs

end

mutual

theorem map_snd_located : (t : Rose α) → t.located.map Prod.snd = t.subtrees
  | .node v cs => by rw [located, List.map_cons, map_snd_locatedAmong, subtrees]

theorem map_snd_locatedAmong (index : Nat) :
    (cs : List (Rose α)) → (locatedAmong index cs).map Prod.snd = subtreesAll cs
  | [] => rfl
  | c :: cs => by
    rw [locatedAmong, List.map_append, List.map_map, map_snd_locatedAmong, subtreesAll,
      ← map_snd_located c]
    rfl

end

theorem mem_locatedAmong {cs : List (Rose α)} {index : Nat} {s : Position × Rose α} :
    s ∈ locatedAmong index cs ↔
      ∃ i c r, cs[i]? = some c ∧ r ∈ c.located ∧ s = lower (index + i) r := by
  induction cs generalizing index with
  | nil => simp [locatedAmong]
  | cons c cs ih =>
    rw [locatedAmong, List.mem_append, List.mem_map, ih]
    constructor
    · rintro (⟨r, hr, rfl⟩ | ⟨i, d, r, hd, hr, rfl⟩)
      · exact ⟨0, c, r, rfl, hr, rfl⟩
      · exact ⟨i + 1, d, r, hd, hr, by rw [Nat.add_right_comm, Nat.add_assoc]⟩
    · rintro ⟨i, d, r, hd, hr, rfl⟩
      cases i with
      | zero =>
        cases hd
        exact .inl ⟨r, hr, rfl⟩
      | succ i => exact .inr ⟨i, d, r, hd, hr, by rw [Nat.add_right_comm, Nat.add_assoc]⟩

/-- The list has every subtree at its position, and nothing else. -/
theorem mem_located : (q, u) ∈ t.located ↔ t.at? q = some u := by
  induction t using ofChildren generalizing q with
  | h v cs ih =>
    rw [located, List.mem_cons]
    cases q with
    | nil =>
      have hnone : ([], u) ∉ locatedAmong 0 cs := by
        rw [mem_locatedAmong]
        rintro ⟨i, c, r, -, -, he⟩
        cases he
      simp [hnone, at?, eq_comm]
    | cons i below =>
      rw [mem_locatedAmong]
      simp only [Prod.mk.injEq, reduceCtorEq, false_and, false_or, at?, children, Option.bind_eq_bind,
        Option.bind_eq_some_iff, Nat.zero_add, lower]
      constructor
      · rintro ⟨j, c, ⟨r, w⟩, hc, hr, he, rfl⟩
        cases he
        exact ⟨c, hc, (ih c (List.mem_of_getElem? hc)).1 hr⟩
      · rintro ⟨c, hc, hu⟩
        exact ⟨i, c, (below, u), hc, (ih c (List.mem_of_getElem? hc)).2 hu, rfl, rfl⟩

/-! ## The first node that fits -/

/-- Whether the top of a located subtree fits. -/
def fits (p : α → Bool) (s : Position × Rose α) : Bool := p s.2.value

theorem find?_map_lower (index : Nat) (l : List (Position × Rose α)) :
    (l.map (lower index)).find? (fits p) = (l.find? (fits p)).map (lower index) := by
  rw [List.find?_map]
  rfl

mutual

/-- The search for a node stops at the first subtree of the list that fits. -/
theorem find?_eq_located (p : α → Bool) :
    (t : Rose α) → t.find? p = (t.located.find? (fits p)).map Prod.snd
  | .node v cs => by
    rw [find?, located, List.find?_cons, findAmong?_eq_located p 0 cs]
    by_cases hv : p v = true
    · simp [fits, hv, value]
    · simp [fits, hv, value]

theorem findAmong?_eq_located (p : α → Bool) (index : Nat) : (cs : List (Rose α)) →
    findAmong? p cs = ((locatedAmong index cs).find? (fits p)).map Prod.snd
  | [] => rfl
  | c :: cs => by
    rw [findAmong?, locatedAmong, List.find?_append, find?_map_lower, find?_eq_located p c,
      findAmong?_eq_located p (index + 1) cs]
    cases c.located.find? (fits p) with
    | none => rfl
    | some s => rfl

end

mutual

/-- The search for a position stops there as well. -/
theorem positionOf?_eq_located (p : α → Bool) :
    (t : Rose α) → t.positionOf? p = (t.located.find? (fits p)).map Prod.fst
  | .node v cs => by
    rw [positionOf?, located, List.find?_cons, positionAmong?_eq_located p 0 cs]
    by_cases hv : p v = true
    · simp [fits, hv, value]
    · simp [fits, hv, value]

theorem positionAmong?_eq_located (p : α → Bool) (index : Nat) : (cs : List (Rose α)) →
    positionAmong? p index cs = ((locatedAmong index cs).find? (fits p)).map Prod.fst
  | [] => rfl
  | c :: cs => by
    rw [positionAmong?, locatedAmong, List.find?_append, find?_map_lower, positionOf?_eq_located p c,
      positionAmong?_eq_located p (index + 1) cs]
    cases c.located.find? (fits p) with
    | none => rfl
    | some s => rfl

end

/-- Both searches stop at the same node, which is at the position that is found. -/
theorem positionOf?_eq_some (h : t.positionOf? p = some q) :
    ∃ u, t.find? p = some u ∧ t.at? q = some u ∧ p u.value = true := by
  rw [positionOf?_eq_located] at h
  obtain ⟨⟨r, u⟩, hs, rfl⟩ := Option.map_eq_some_iff.1 h
  refine ⟨u, ?_, mem_located.1 (List.mem_of_find?_eq_some hs), ?_⟩
  · rw [find?_eq_located, hs]
    rfl
  · have hfits : fits p (r, u) = true := List.find?_some hs
    exact hfits

theorem positionOf?_eq_none_iff : t.positionOf? p = none ↔ t.find? p = none := by
  rw [positionOf?_eq_located, find?_eq_located, Option.map_eq_none_iff, Option.map_eq_none_iff]

/-! ## Changing the node at a position -/

/-- Puts a tree in the place of the subtree at a position. -/
def putAt (new : Rose α) : Position → Rose α → Rose α
  | [], _ => new
  | index :: below, .node v cs => .node v (cs.modify index (putAt new below))

mutual

/-- What is put in the place of the node that is found goes to the position that is found. -/
theorem replace_of_positionOf? {p : α → Bool} (new : Rose α) : (t : Rose α) → {q : Position} →
    t.positionOf? p = some q → replace p new t = putAt new q t
  | .node v cs, q => by
    intro hq
    rw [positionOf?] at hq
    rw [replace]
    split at hq
    · next hv =>
      cases hq
      rw [if_pos hv, putAt]
    · next hv =>
      obtain ⟨i, below, rfl, he⟩ := replaceAmong_of_positionAmong? new 0 cs hq
      rw [if_neg hv, he, Nat.zero_add, putAt]

theorem replaceAmong_of_positionAmong? {p : α → Bool} (new : Rose α) (index : Nat) :
    (cs : List (Rose α)) → {q : Position} → positionAmong? p index cs = some q →
    ∃ i below, q = (index + i) :: below ∧ replaceAmong p new cs = cs.modify i (putAt new below)
  | [], q => by
    intro hq
    cases hq
  | c :: cs, q => by
    intro hq
    rw [positionAmong?] at hq
    rw [replaceAmong]
    cases hc : c.positionOf? p with
    | some below =>
      rw [hc] at hq
      cases hq
      obtain ⟨u, hu, -⟩ := positionOf?_eq_some hc
      rw [hu]
      exact ⟨0, below, rfl, by rw [List.modify_zero_cons, replace_of_positionOf? new c hc]⟩
    | none =>
      rw [hc] at hq
      obtain ⟨i, below, rfl, he⟩ := replaceAmong_of_positionAmong? new (index + 1) cs hq
      rw [positionOf?_eq_none_iff.1 hc]
      exact ⟨i + 1, below, by rw [Nat.add_right_comm, Nat.add_assoc],
        by rw [List.modify_succ_cons, he]⟩

end

end Conduct.Rose
