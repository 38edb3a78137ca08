import Conduct.Proofs.Frame

/-! Runs that pause.

A run is a number of ticks that report running, on whatever stages, and a last one that reports
something else. What its leaves come to is read off the visits. A way to handle children condenses
another one if it does in one tick what the other one does in a run.
-/

set_option autoImplicit false

namespace Conduct

variable {H : Host} {σ γ : Type}

/-! ## What leaves come to -/

/-- What a leaf came to, if this is the last visit of a run of it. -/
def Visit.ending? (v : Visit) : Option (String × Status) :=
  if v.leaf && v.status.isTerminal then some (v.node, v.status) else none

namespace Stage

/-- What leaves came to, the latest first. -/
def endings (x : Stage H) : List (String × Status) := x.visits.filterMap Visit.ending?

/-- From one stage to another leaves came to something. -/
def Adds (x y : Stage H) (es : List (String × Status)) : Prop := y.endings = es ++ x.endings

variable {x y z : Stage H} {es ds : List (String × Status)}

theorem adds_refl (x : Stage H) : x.Adds x [] := rfl

theorem Adds.trans (h : x.Adds y es) (h' : y.Adds z ds) : x.Adds z (ds ++ es) := by
  unfold Adds at h h' ⊢
  rw [h', h, List.append_assoc]

theorem Adds.unique (h : x.Adds y es) (h' : x.Adds y ds) : es = ds := by
  unfold Adds at h h'
  exact List.append_cancel_right (h.symm.trans h')

theorem adds_of_suffix (h : x.visits <:+ y.visits) : ∃ es, x.Adds y es := by
  obtain ⟨vs, h⟩ := h
  refine ⟨vs.filterMap Visit.ending?, ?_⟩
  unfold Adds endings
  rw [← h, List.filterMap_append]

end Stage

/-! ## Runs -/

/-- Ticks that report running, and a last one that reports something else. -/
inductive Runs (f : σ → Stage H → Turn H Status σ) :
    σ → Status → List (String × Status) → σ → Prop
  | ends {m : σ} {x : Stage H} {r : Status} {es : List (String × Status)}
      (ho : (f m x).outcome = .ok r) (hr : r ≠ .running) (he : x.Adds (f m x).stage es) :
      Runs f m r es (f m x).state
  | waits {m m' : σ} {x : Stage H} {r : Status} {es ds : List (String × Status)}
      (ho : (f m x).outcome = .ok .running) (he : x.Adds (f m x).stage es)
      (rest : Runs f (f m x).state r ds m') : Runs f m r (ds ++ es) m'

/-- A tick that began on a stage, and the ticks after it until one does not report running. -/
def Finishes (f : σ → Stage H → Turn H Status σ) (x : Stage H) (t : Turn H Status σ) (r : Status)
    (es : List (String × Status)) (m' : σ) : Prop :=
  (t.outcome = .ok r ∧ r ≠ .running ∧ x.Adds t.stage es ∧ m' = t.state) ∨
    (t.outcome = .ok .running ∧ ∃ es₀ ds, x.Adds t.stage es₀ ∧ es = ds ++ es₀ ∧ Runs f t.state r ds m')

variable {f : σ → Stage H → Turn H Status σ} {m m' : σ} {x : Stage H} {r : Status}
  {es : List (String × Status)}

theorem Finishes.runs (h : Finishes f x (f m x) r es m') : Runs f m r es m' := by
  rcases h with ⟨ho, hr, he, rfl⟩ | ⟨ho, es₀, ds, he, rfl, rest⟩
  · exact .ends ho hr he
  · exact .waits ho he rest

theorem Runs.finishes (h : Runs f m r es m') : ∃ x, Finishes f x (f m x) r es m' := by
  cases h with
  | ends ho hr he => exact ⟨_, .inl ⟨ho, hr, he, rfl⟩⟩
  | waits ho he rest => exact ⟨_, .inr ⟨ho, _, _, he, rfl, rest⟩⟩

/-- A tick whose first part is left out. -/
theorem Finishes.shift {x₁ : Stage H} {t : Turn H Status σ} {es₀ : List (String × Status)}
    (h : Finishes f x t r es m') (h₀ : x.Adds x₁ es₀) (hg : x₁.visits <:+ t.stage.visits) :
    ∃ es₁, es = es₁ ++ es₀ ∧ Finishes f x₁ t r es₁ m' := by
  obtain ⟨es₂, h₂⟩ := Stage.adds_of_suffix hg
  rcases h with ⟨ho, hr, he, hm⟩ | ⟨ho, es', ds, he, hes, rest⟩
  · exact ⟨es₂, he.unique (h₀.trans h₂), .inl ⟨ho, hr, h₂, hm⟩⟩
  · refine ⟨ds ++ es₂, ?_, .inr ⟨ho, es₂, ds, h₂, rfl, rest⟩⟩
    rw [hes, he.unique (h₀.trans h₂), List.append_assoc]

theorem Finishes.ne_running {t : Turn H Status σ} (h : Finishes f x t r es m')
    (ho : t.outcome ≠ .ok .running) : t.outcome = .ok r ∧ r ≠ .running ∧ x.Adds t.stage es ∧
      m' = t.state := by
  rcases h with h | ⟨ho', -⟩
  · exact h
  · exact absurd ho' ho

theorem Runs.ne_running (h : Runs f m r es m') : r ≠ .running := by
  induction h with
  | ends ho hr he => exact hr
  | waits ho he rest ih => exact ih

theorem Runs.keeps {α : Type} {p : σ → α} (hp : ∀ m x, p (f m x).state = p m)
    (h : Runs f m r es m') : p m' = p m := by
  induction h with
  | ends ho hr he => exact hp _ _
  | waits ho he rest ih => rw [ih, hp]

/-! ## One tick for a run -/

/-- A tick reports a status, adds what leaves came to, and leaves something with a property. -/
structure Turn.Answers (t : Turn H Status σ) (y : Stage H) (r : Status)
    (es : List (String × Status)) (P : σ → Prop) : Prop where
  outcome : t.outcome = .ok r
  adds : y.Adds t.stage es
  state : P t.state

/-- Ticks of calm children come to a report and leave calm children. -/
structure Handling.Settles (h : Handling H γ) (Calm : γ → Prop) : Prop where
  keeps : h.Keeps h.id
  grows : ∀ c x, x.visits <:+ (h.tick c x).stage.visits
  ticked : ∀ {c}, Calm c → ∀ x, Calm (h.tick c x).state ∧
    ∃ r, (h.tick c x).outcome = .ok r ∧ r ≠ .ready
  rested : ∀ {c}, Calm c → Calm (h.reset c)

/-- Runs of children on one side of a relation are single ticks of those on the other side. -/
structure Handling.Condenses (h : Handling H γ) (Calm : γ → Prop) (R : γ → γ → Prop) : Prop
    extends h.Settles Calm where
  id : ∀ {c d}, R c d → h.id c = h.id d
  calm : ∀ {c d}, R c d → Calm c ∧ Calm d
  reset : ∀ {c d}, R c d → R (h.reset c) (h.reset d)
  run : ∀ {c d r es c'}, R c d → Runs h.tick c r es c' →
    ∀ y, (h.tick d y).Answers y r es (R c')

end Conduct
