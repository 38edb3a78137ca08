import Conduct.Random.ChaCha

/-! Even draws from a range, and shuffles.

Main statement: `shuffle_perm`, a shuffle keeps the items.
-/

set_option autoImplicit false

namespace Conduct.Random

/-- The number of zero bits above the highest bit of a word. -/
def leadingZeros (w : UInt32) : UInt32 := if w = 0 then 32 else 31 - UInt32.ofNat (Nat.log2 w.toNat)

/-- The greatest low half of a product that keeps the draw even. -/
def zone (range : UInt32) : UInt32 := (range <<< leadingZeros range) - 1

/-- How often a draw is tried; more than half of the words are good at every try. -/
def maxTries : Nat := 4096

/-- A number below the range: the high half of the product of a word with the range, for the first
word whose product has a low half in the zone. -/
def drawWithin (range : UInt32) : Nat → Generator → Nat × Generator
  | 0, g => (0, g)
  | tries + 1, g =>
    let (w, g) := g.next
    let product := w.toUInt64 * range.toUInt64
    if product.toUInt32 ≤ zone range then ((product >>> 32).toNat, g)
    else drawWithin range tries g

def Generator.below (g : Generator) (range : Nat) : Nat × Generator :=
  drawWithin (UInt32.ofNat range) maxTries g

/-- Exchanges the item at each of the last places, down to the second one, with an item at or before
it. -/
def shuffleFrom {α : Type} : Nat → Array α → Generator → Array α × Generator
  | 0, items, g => (items, g)
  | last + 1, items, g =>
    let (j, g) := g.below (last + 2)
    shuffleFrom last (items.swapIfInBounds (last + 1) j) g

/-- The items of a list in random order. -/
def shuffle {α : Type} (items : List α) (g : Generator) : List α × Generator :=
  let (shuffled, g) := shuffleFrom (items.length - 1) items.toArray g
  (shuffled.toList, g)

theorem swapIfInBounds_perm {α : Type} (items : Array α) (i j : Nat) :
    (items.swapIfInBounds i j).toList.Perm items.toList := by
  unfold Array.swapIfInBounds
  split
  · split
    · exact (Array.swap_perm _ _).toList
    · exact List.Perm.refl _
  · exact List.Perm.refl _

theorem shuffleFrom_perm {α : Type} (last : Nat) (items : Array α) (g : Generator) :
    (shuffleFrom last items g).1.toList.Perm items.toList := by
  induction last generalizing items g with
  | zero => exact List.Perm.refl _
  | succ last ih => exact (ih _ _).trans (swapIfInBounds_perm _ _ _)

theorem shuffle_perm {α : Type} (items : List α) (g : Generator) :
    (shuffle items g).1.Perm items := by
  simpa [shuffle] using shuffleFrom_perm (items.length - 1) items.toArray g

end Conduct.Random
