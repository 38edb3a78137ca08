/-! Computations that may fail.

Each lemma says what a computation made of others came to by what those came to. `Yields` says of a
computation when it comes to a value and to which.
-/

set_option autoImplicit false

namespace Conduct

variable {ε δ α β : Type}

theorem bind_eq_ok {x : Except ε α} {f : α → Except ε β} {b : β} (h : (x >>= f) = .ok b) :
    ∃ a, x = .ok a ∧ f a = .ok b := by
  cases x with
  | error e => cases h
  | ok a => exact ⟨a, rfl, h⟩

theorem bind_eq_error {x : Except ε α} {f : α → Except ε β} {e : ε} :
    (x >>= f) = .error e ↔ x = .error e ∨ ∃ a, x = .ok a ∧ f a = .error e := by
  cases x with
  | error e' => simp [bind, Except.bind]
  | ok a => simp [bind, Except.bind]

theorem map_eq_ok {x : Except ε α} {f : α → β} {b : β} (h : x.map f = .ok b) :
    ∃ a, x = .ok a ∧ f a = b := by
  cases x with
  | error e => cases h
  | ok a => exact ⟨a, rfl, Except.ok.inj h⟩

theorem map_eq_error {x : Except ε α} {f : α → β} {e : ε} (h : x.map f = .error e) :
    x = .error e := by
  cases x with
  | error e' => exact congrArg Except.error (Except.error.inj h)
  | ok a => cases h

theorem mapError_eq_ok {x : Except ε α} {f : ε → δ} {a : α} (h : x.mapError f = .ok a) :
    x = .ok a := by
  cases x with
  | error e => cases h
  | ok b => exact congrArg Except.ok (Except.ok.inj h)

theorem mapError_eq_error {x : Except ε α} {f : ε → δ} {d : δ} (h : x.mapError f = .error d) :
    ∃ e, x = .error e ∧ f e = d := by
  cases x with
  | error e => exact ⟨e, rfl, Except.error.inj h⟩
  | ok a => cases h

/-- The computation comes to the value just under the condition, and fails otherwise. -/
def Yields (x : Except ε α) (p : Prop) (a : α) : Prop := ∀ b, x = .ok b ↔ p ∧ b = a

namespace Yields

variable {x : Except ε α} {p q : Prop} {a : α} {b : β}

theorem eq_ok (h : Yields x p a) (hp : p) : x = .ok a := (h a).2 ⟨hp, rfl⟩

theorem exists_error (h : Yields x p a) (hp : ¬p) : ∃ e, x = .error e := by
  cases x with
  | error e => exact ⟨e, rfl⟩
  | ok b => exact absurd ((h b).1 rfl).1 hp

theorem ok (a : α) : Yields (.ok a : Except ε α) True a := by
  intro b
  rw [Except.ok.injEq, true_and, eq_comm]

theorem error (e : ε) (a : α) : Yields (.error e) False a := by
  intro b
  simp

theorem congr (h : Yields x p a) (hpq : p ↔ q) : Yields x q a :=
  fun b => (h b).trans (and_congr hpq Iff.rfl)

theorem bind {f : α → Except ε β} (hx : Yields x p a) (hf : Yields (f a) q b) :
    Yields (x >>= f) (p ∧ q) b := by
  intro c
  constructor
  · intro h
    obtain ⟨a', ha, h⟩ := bind_eq_ok h
    obtain ⟨hp, rfl⟩ := (hx a').1 ha
    obtain ⟨hq, rfl⟩ := (hf c).1 h
    exact ⟨⟨hp, hq⟩, rfl⟩
  · rintro ⟨⟨hp, hq⟩, rfl⟩
    rw [hx.eq_ok hp]
    exact hf.eq_ok hq

theorem map (f : α → β) (h : Yields x p a) : Yields (x.map f) p (f a) := by
  intro c
  constructor
  · intro hc
    obtain ⟨a', ha, rfl⟩ := map_eq_ok hc
    obtain ⟨hp, rfl⟩ := (h a').1 ha
    exact ⟨hp, rfl⟩
  · rintro ⟨hp, rfl⟩
    rw [h.eq_ok hp]
    rfl

theorem mapError (f : ε → δ) (h : Yields x p a) : Yields (x.mapError f) p a := by
  intro b
  constructor
  · exact fun hb => (h b).1 (mapError_eq_ok hb)
  · intro hb
    rw [(h b).2 hb]
    rfl

end Yields

end Conduct
