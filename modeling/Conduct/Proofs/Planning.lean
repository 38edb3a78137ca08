import Conduct.Control.Selector
import Mathlib.Data.Int.Order.Basic

/-! The order that a selector plans.

A plan has every child once: as they are stored, in some other order, or by descending weight, where
children of one weight stay as they are stored. Weights are compared in the total order of floats.
Main statements: `orderKey_lt_iff` and `planned_plan`.
-/

set_option autoImplicit false

namespace Conduct.Selector

/-! ## The total order of floats -/

/-- The sign bit is set, so minus zero is negative too. -/
def Negative (f : Float) : Prop := 0x8000000000000000 ≤ f.toBits.toNat

/-- The bits below the sign, of which the greater ones stand for the greater sizes. -/
def sizeBits (f : Float) : Nat := f.toBits.toNat % 0x8000000000000000

/-- A float comes before another one in total order: first the negative ones, the greatest in size
before the others, and then the rest by size. -/
def Below (a b : Float) : Prop :=
  (Negative a ∧ (¬ Negative b ∨ sizeBits b < sizeBits a)) ∨
    (¬ Negative a ∧ ¬ Negative b ∧ sizeBits a < sizeBits b)

theorem orderKey_lt_iff (a b : Float) : orderKey a < orderKey b ↔ Below a b := by
  have ha := a.toBits.toNat_lt
  have hb := b.toBits.toNat_lt
  unfold orderKey Below Negative sizeBits
  dsimp only
  split
  · split
    · omega
    · omega
  · split
    · omega
    · omega

theorem eq_of_toBits {a b : Float} (h : a.toBits = b.toBits) : a = b := by
  obtain ⟨⟨bits, _⟩⟩ := a
  obtain ⟨⟨bits', _⟩⟩ := b
  obtain rfl : bits = bits' := h
  rfl

theorem orderKey_inj {a b : Float} : orderKey a = orderKey b ↔ a = b := by
  refine ⟨fun he => ?_, congrArg orderKey⟩
  have ha := a.toBits.toNat_lt
  have hb := b.toBits.toNat_lt
  refine eq_of_toBits (UInt64.toNat_inj.1 ?_)
  unfold orderKey at he
  dsimp only at he
  split at he
  · split at he
    · omega
    · omega
  · split at he
    · omega
    · omega

/-! ## Plans -/

/-- A child stands before another one by its weight, or by its place if their weights are equal. -/
def Ahead (s : Settings) (ids : List String) (a b : String) : Prop :=
  ∃ i j, ids[i]? = some a ∧ ids[j]? = some b ∧
    (Below (s.weight j) (s.weight i) ∨ s.weight i = s.weight j ∧ i < j)

/-- A plan for children with these ids. -/
structure Planned (s : Settings) (ids plan : List String) : Prop where
  perm : plan.Perm ids
  sequential : s.executionOrder = .sequential → plan = ids
  priority : s.executionOrder = .priority → plan.Pairwise (Ahead s ids)

/-- By descending weight, for children that carry their weights. -/
def heavier (a b : Int × String) : Bool := b.1 ≤ a.1

/-- The children with their weights and places, by descending weight and then by place. -/
def ranked (s : Settings) (ids : List String) : List ((Int × String) × Nat) :=
  (ids.zipIdx.map fun (id, index) => (orderKey (s.weight index), id)).zipIdx.mergeSort
    (List.zipIdxLE heavier)

variable (s : Settings) (ids : List String)

/-- The sort is stable, so places decide between equal weights. -/
theorem byWeight_eq_ranked : byWeight s ids = (ranked s ids).map fun e => e.1.2 := by
  have hstable :
      (ids.zipIdx.map fun (id, index) => (orderKey (s.weight index), id)).mergeSort heavier =
      (ranked s ids).map fun e => e.1 := List.mergeSort_zipIdx.symm
  unfold byWeight
  exact (congrArg (List.map Prod.snd) hstable).trans List.map_map

theorem mem_ranked {e : (Int × String) × Nat} (he : e ∈ ranked s ids) :
    ids[e.2]? = some e.1.2 ∧ e.1.1 = orderKey (s.weight e.2) := by
  have hmem := List.mem_zipIdx_iff_getElem?.1 ((List.mergeSort_perm _ _).mem_iff.1 he)
  rw [List.getElem?_map, List.getElem?_zipIdx, Nat.zero_add, Option.map_map,
    Option.map_eq_some_iff] at hmem
  obtain ⟨id, hid, he⟩ := hmem
  rw [← he]
  exact ⟨hid, rfl⟩

theorem pairwise_ranked : (ranked s ids).Pairwise fun e e' =>
    List.zipIdxLE heavier e e' = true ∧ e.2 ≠ e'.2 := by
  refine List.Pairwise.and (List.pairwise_mergeSort ?_ ?_ _) ?_
  · refine List.zipIdxLE_trans fun a b c hab hbc => ?_
    rw [heavier, decide_eq_true_iff] at hab hbc ⊢
    exact Int.le_trans hbc hab
  · refine List.zipIdxLE_total fun a b => ?_
    rw [Bool.or_eq_true_iff, heavier, heavier, decide_eq_true_iff, decide_eq_true_iff]
    exact le_total _ _
  · have hplaces : ((ranked s ids).map Prod.snd).Nodup := by
      refine ((List.mergeSort_perm _ _).map Prod.snd).nodup_iff.2 ?_
      rw [List.zipIdx_map_snd]
      exact List.nodup_range'
    exact List.pairwise_map.1 hplaces

theorem pairwise_byWeight : (byWeight s ids).Pairwise (Ahead s ids) := by
  rw [byWeight_eq_ranked, List.pairwise_map]
  refine (pairwise_ranked s ids).imp_of_mem ?_
  rintro e e' he he' ⟨hle, hne⟩
  obtain ⟨hid, hkey⟩ := mem_ranked s ids he
  obtain ⟨hid', hkey'⟩ := mem_ranked s ids he'
  refine ⟨e.2, e'.2, hid, hid', ?_⟩
  unfold List.zipIdxLE at hle
  split at hle
  · next hheavier =>
    rw [heavier, decide_eq_true_iff, hkey, hkey'] at hheavier
    split at hle
    · next hsame =>
      rw [heavier, decide_eq_true_iff, hkey, hkey'] at hsame
      have hplace := of_decide_eq_true hle
      exact .inr ⟨orderKey_inj.1 (le_antisymm hsame hheavier), by omega⟩
    · next hmore =>
      rw [heavier, decide_eq_true_iff, hkey, hkey', not_le] at hmore
      exact .inl ((orderKey_lt_iff _ _).1 hmore)
  · cases hle

theorem byWeight_perm : (byWeight s ids).Perm ids := by
  have hsorted := ((List.mergeSort_perm (ids.zipIdx.map fun (id, index) =>
    (orderKey (s.weight index), id)) heavier).map Prod.snd)
  have hids : (ids.zipIdx.map fun (id, index) => (orderKey (s.weight index), id)).map Prod.snd =
      ids := by
    rw [List.map_map]
    exact List.zipIdx_map_fst 0 ids
  rwa [hids] at hsorted

/-- What a selector plans is a plan. -/
theorem planned_plan (g : Random.Generator) : Planned s ids (plan s ids g).1 := by
  unfold plan
  cases hs : s.executionOrder with
  | sequential => exact ⟨List.Perm.refl ids, fun _ => rfl, fun hp => by rw [hs] at hp; cases hp⟩
  | random =>
    refine ⟨Random.shuffle_perm ids g, fun hp => ?_, fun hp => ?_⟩
    · rw [hs] at hp
      cases hp
    · rw [hs] at hp
      cases hp
  | priority =>
    refine ⟨byWeight_perm s ids, fun hp => ?_, fun _ => pairwise_byWeight s ids⟩
    rw [hs] at hp
    cases hp

end Conduct.Selector
