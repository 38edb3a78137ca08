import Conduct.Proofs.Frame

/-! A tick does not look at the visits.

Two stages are alike if they have the same scene and the same flags. A tick of a tree comes to the same
on both and leaves alike stages behind, whatever is on record there. Main statement:
`Tree.tick_alike`.
-/

set_option autoImplicit false

namespace Conduct

variable {H : Host}

/-- All that a tick may read is the same on two stages. -/
structure Stage.Alike (x y : Stage H) : Prop where
  scene : x.scene = y.scene
  flags : x.flags = y.flags

namespace Stage.Alike

variable {x y z : Stage H}

theorem refl (x : Stage H) : x.Alike x := ⟨rfl, rfl⟩

theorem symm (h : x.Alike y) : y.Alike x := ⟨h.scene.symm, h.flags.symm⟩

theorem trans (h : x.Alike y) (h' : y.Alike z) : x.Alike z :=
  ⟨h.scene.trans h'.scene, h.flags.trans h'.flags⟩

theorem congruence : Stage.Congruence (Stage.Alike (H := H)) where
  scene h := h.scene
  flags h := h.flags
  play _ h := ⟨rfl, h.flags⟩
  raise f h := ⟨h.scene, congrArg (Flags.or · f) h.flags⟩

theorem close (h : x.Alike y) (before : Flags) (n : Node H) (status : Status) :
    (x.close before n status).Alike (y.close before n status) := by
  unfold Stage.close Stage.write
  rw [h.flags, h.scene]
  split
  · exact ⟨rfl, rfl⟩
  · exact ⟨h.scene, rfl⟩

/-- With the debug flag down, a completed tick adds to the visits and takes the flags back. -/
theorem of_close {before : Flags} (hd : x.flags.debug = false) (hf : x.flags = before) (n : Node H)
    (status : Status) : x.Alike (x.close before n status) := by
  unfold Stage.close
  rw [hd]
  exact ⟨rfl, hf⟩

end Stage.Alike

namespace Tree

variable {x y : Stage H}

theorem tickWithin_alike (l : Nat) (t : Tree H) (hxy : x.Alike y) :
    (tickWithin l t x).Related Eq Stage.Alike (tickWithin l t y) := by
  induction l generalizing t x y with
  | zero => exact ⟨rfl, rfl, hxy⟩
  | succ l ih =>
    obtain ⟨n, cs⟩ := t
    have a : (handling (tickWithin (H := H) l)).Agree Eq Stage.Alike (handling (tickWithin l)) :=
      { id := congrArg Tree.id
        tick := by
          rintro c _ x y rfl hxy
          exact ih c hxy
        reset := congrArg Tree.reset
        notice := by
          rintro c _ x y rfl hxy
          refine ⟨?_, hxy.flags⟩
          unfold Stage.tell
          rw [hxy.scene]
        write := by
          intro x y category message node hxy
          refine ⟨?_, hxy.flags⟩
          unfold Stage.write
          rw [hxy.scene] }
    have hcs : List.Forall₂ Eq cs cs := List.forall₂_same.2 fun _ _ => rfl
    obtain ⟨ho, ⟨hb, hc⟩, hs⟩ := Behavior.tick_congr Stage.Alike.congruence a n.behavior hcs hxy
    have hc := List.forall₂_eq_eq_eq ▸ hc
    simp only [tickWithin, Node.tick, ← ho, ← hb, ← hc, ← hxy.flags]
    split
    · exact ⟨rfl, rfl, hs⟩
    · refine ⟨rfl, ?_, hs.close _ _ _⟩
      rw [Stage.Alike.congruence.now hs]

/-- A tree comes to the same on stages that are alike. -/
theorem tick_alike (t : Tree H) (hxy : x.Alike y) :
    (tick t x).Related Eq Stage.Alike (tick t y) := tickWithin_alike t.height t hxy

end Tree

end Conduct
