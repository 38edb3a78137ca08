import Conduct.Behavior
import Mathlib.Data.List.Forall2

/-! What control nodes ask of the way in which their children are handled.

Two ways to handle children agree if they do the same to children that belong together, on stages
that belong together, and leave such children and stages behind. A control node then ticks the same
by either way. The two ways may belong to different hosts; what children belong together is up to a
relation `R`, and what stages do up to a relation `S`. Main statement: `Behavior.tick_congr`, for two
ways of one host and stages that look the same.
-/

set_option autoImplicit false

namespace Conduct

variable {H K : Host} {γ δ : Type}

/-- Two ticks have the same outcome, and what they leave behind belongs together. -/
structure Turn.Related {ρ σ τ : Type} (R : σ → τ → Prop) (S : Stage H → Stage K → Prop)
    (t : Turn H ρ σ) (u : Turn K ρ τ) : Prop where
  outcome : t.outcome = u.outcome
  state : R t.state u.state
  stage : S t.stage u.stage

/-- The same memory, with children that belong together. -/
def Paired {σ : Type} (R : γ → δ → Prop) (p : σ × List γ) (q : σ × List δ) : Prop :=
  p.1 = q.1 ∧ List.Forall₂ R p.2 q.2

/-- Two ways to handle children do the same to those that belong together. -/
structure Handling.Agree (R : γ → δ → Prop) (S : Stage H → Stage K → Prop) (h : Handling H γ)
    (k : Handling K δ) : Prop where
  id : ∀ {c d}, R c d → h.id c = k.id d
  tick : ∀ {c d x y}, R c d → S x y → (h.tick c x).Related R S (k.tick d y)
  reset : ∀ {c d}, R c d → R (h.reset c) (k.reset d)
  notice : ∀ {c d x y}, R c d → S x y → S (x.tell (h.notice c)) (y.tell (k.notice d))
  write : ∀ {x y} (category message node : String),
    S x y → S (x.write category message node) (y.write category message node)

variable {R : γ → δ → Prop} {S : Stage H → Stage K → Prop} {h : Handling H γ} {k : Handling K δ}

theorem Turn.Related.push {ρ σ : Type} {t : Turn H ρ (σ × List γ)} {u : Turn K ρ (σ × List δ)}
    (ht : t.Related (Paired R) S u) {c : γ} {d : δ} (hc : R c d) :
    (t.push c).Related (Paired R) S (u.push d) where
  outcome := ht.outcome
  state := ⟨ht.state.1, .cons hc ht.state.2⟩
  stage := ht.stage

theorem Turn.Related.map {ρ σ τ σ' τ' : Type} {Q : σ → τ → Prop} {Q' : σ' → τ' → Prop}
    {t : Turn H ρ σ} {u : Turn K ρ τ} (ht : t.Related Q S u) {f : σ → σ'} {g : τ → τ'}
    (hf : ∀ x y, Q x y → Q' (f x) (g y)) : (t.map f).Related Q' S (u.map g) :=
  ⟨ht.outcome, hf _ _ ht.state, ht.stage⟩

/-! ## Sequences -/

theorem Sequence.walk_agree (a : h.Agree R S k) (s : Settings) (run : Run) (index : Nat)
    {cs : List γ} {ds : List δ} {x : Stage H} {y : Stage K} (hcs : List.Forall₂ R cs ds)
    (hxy : S x y) : (walk h s run index cs x).Related (Paired R) S (walk k s run index ds y) := by
  induction hcs generalizing run index x y with
  | nil => exact ⟨rfl, ⟨rfl, .nil⟩, hxy⟩
  | @cons c d cs ds hc hrest ih =>
    obtain ⟨ho, hst, hsg⟩ := a.tick hc hxy
    simp only [walk, ← a.id hc]
    split
    · exact (ih run (index + 1) hxy).push hc
    · rw [← ho]
      split
      · exact ⟨rfl, ⟨rfl, .cons hst hrest⟩, hsg⟩
      · exact ⟨rfl, ⟨rfl, .cons hst hrest⟩, hsg⟩
      · split
        · exact ⟨rfl, ⟨rfl, .cons hst hrest⟩, hsg⟩
        · exact (ih _ _ hsg).push hst
      · split
        · exact ⟨rfl, ⟨rfl, .cons hst hrest⟩, hsg⟩
        · exact (ih _ _ (a.write _ _ _ hsg)).push hst
      · exact ⟨rfl, ⟨rfl, .cons hst hrest⟩, hsg⟩
      · exact ⟨rfl, ⟨rfl, .cons hst hrest⟩, hsg⟩

/-! ## Selectors -/

theorem map_id_agree (a : h.Agree R S k) {cs : List γ} {ds : List δ}
    (hcs : List.Forall₂ R cs ds) : cs.map h.id = ds.map k.id := by
  induction hcs with
  | nil => rfl
  | cons hc _ ih => rw [List.map_cons, List.map_cons, a.id hc, ih]

theorem takeWhile_agree (a : h.Agree R S k) (id : String) {cs : List γ} {ds : List δ}
    (hcs : List.Forall₂ R cs ds) :
    List.Forall₂ R (cs.takeWhile fun c => h.id c != id) (ds.takeWhile fun d => k.id d != id) := by
  induction hcs with
  | nil => exact .nil
  | cons hc _ ih =>
    rw [List.takeWhile_cons, List.takeWhile_cons, a.id hc]
    split
    · exact .cons hc ih
    · exact .nil

theorem dropWhile_agree (a : h.Agree R S k) (id : String) {cs : List γ} {ds : List δ}
    (hcs : List.Forall₂ R cs ds) :
    List.Forall₂ R (cs.dropWhile fun c => h.id c != id) (ds.dropWhile fun d => k.id d != id) := by
  induction hcs with
  | nil => exact .nil
  | cons hc hrest ih =>
    rw [List.dropWhile_cons, List.dropWhile_cons, a.id hc]
    split
    · exact ih
    · exact .cons hc hrest

theorem Selector.walk_agree (a : h.Agree R S k) (run : Run) (ids : List String) {cs : List γ}
    {ds : List δ} {x : Stage H} {y : Stage K} (hcs : List.Forall₂ R cs ds) (hxy : S x y) :
    (walk h run ids cs x).Related (Paired R) S (walk k run ids ds y) := by
  induction ids generalizing run cs ds x y with
  | nil => exact ⟨rfl, ⟨rfl, hcs⟩, hxy⟩
  | cons id ids ih =>
    have hbefore := takeWhile_agree a id hcs
    have hdrop := dropWhile_agree a id hcs
    simp only [walk]
    generalize (cs.dropWhile fun c => h.id c != id) = cs' at hdrop
    generalize (ds.dropWhile fun d => k.id d != id) = ds' at hdrop
    cases hdrop with
    | nil => exact ih run hcs hxy
    | @cons c d _ _ hc hafter =>
      obtain ⟨ho, hst, hsg⟩ := a.tick hc hxy
      have hnew := List.rel_append hbefore (List.Forall₂.cons hst hafter)
      simp only
      split
      · exact ih run hcs hxy
      · rw [← ho, ← hbefore.length_eq]
        split
        · exact ⟨rfl, ⟨rfl, hnew⟩, hsg⟩
        · exact ⟨rfl, ⟨rfl, hnew⟩, hsg⟩
        · exact ⟨rfl, ⟨rfl, hnew⟩, hsg⟩
        · exact ih _ hnew hsg
        · exact ⟨rfl, ⟨rfl, hnew⟩, hsg⟩
        · exact ⟨rfl, ⟨rfl, hnew⟩, hsg⟩

theorem Selector.tick_agree (a : h.Agree R S k) (s : Settings) (run : Run) (g : Random.Generator)
    {cs : List γ} {ds : List δ} {x : Stage H} {y : Stage K} (hcs : List.Forall₂ R cs ds)
    (hxy : S x y) : (tick h s run g cs x).Related (Paired R) S (tick k s run g ds y) := by
  simp only [tick, ← map_id_agree a hcs]
  exact (walk_agree a _ _ hcs hxy).map fun p q hpq => ⟨by rw [hpq.1], hpq.2⟩

/-! ## Parallels -/

theorem Parallel.advance_agree (a : h.Agree R S k) (budget : Option Nat) (results : Results)
    {cs : List γ} {ds : List δ} {x : Stage H} {y : Stage K} (hcs : List.Forall₂ R cs ds)
    (hxy : S x y) :
    (advance h budget results cs x).Related (Paired R) S (advance k budget results ds y) := by
  induction hcs generalizing budget results x y with
  | nil => exact ⟨rfl, ⟨rfl, .nil⟩, hxy⟩
  | @cons c d cs ds hc hrest ih =>
    obtain ⟨ho, hst, hsg⟩ := a.tick hc hxy
    simp only [advance, ← a.id hc]
    split
    · exact (ih _ _ hxy).push hc
    · rw [← ho]
      split
      · exact ⟨rfl, ⟨rfl, .cons hst hrest⟩, hsg⟩
      · exact (ih _ _ hsg).push hst

theorem Parallel.count_agree (a : h.Agree R S k) (results : Results) (status : Status)
    {cs : List γ} {ds : List δ} (hcs : List.Forall₂ R cs ds) :
    count h results cs status = count k results ds status := by
  induction hcs with
  | nil => rfl
  | cons hc _ ih =>
    unfold count at ih ⊢
    rw [List.countP_cons, List.countP_cons, ih, a.id hc]

theorem Parallel.cancel_agree (a : h.Agree R S k) (results : Results) {cs : List γ} {ds : List δ}
    {x : Stage H} {y : Stage K} (hcs : List.Forall₂ R cs ds) (hxy : S x y) :
    List.Forall₂ R (cancel h results cs x).1 (cancel k results ds y).1 ∧
      S (cancel h results cs x).2 (cancel k results ds y).2 := by
  induction hcs generalizing x y with
  | nil => exact ⟨.nil, hxy⟩
  | cons hc _ ih =>
    simp only [cancel, ← a.id hc]
    split
    · exact ⟨.cons (a.reset hc) (ih (a.notice hc hxy)).1, (ih (a.notice hc hxy)).2⟩
    · exact ⟨.cons hc (ih hxy).1, (ih hxy).2⟩

theorem Parallel.finish_agree (a : h.Agree R S k) (s : Settings) (results : Results)
    (status : Status) {cs : List γ} {ds : List δ} {x : Stage H} {y : Stage K}
    (hcs : List.Forall₂ R cs ds) (hxy : S x y) :
    (finish h s results cs x status).Related (Paired R) S (finish k s results ds y status) := by
  obtain ⟨hc, hs⟩ := cancel_agree a results hcs hxy
  unfold finish
  split
  · exact ⟨rfl, ⟨rfl, hc⟩, hs⟩
  · exact ⟨rfl, ⟨rfl, hcs⟩, hxy⟩

theorem Parallel.settle_agree (a : h.Agree R S k) (s : Settings) (results : Results)
    {cs : List γ} {ds : List δ} {x : Stage H} {y : Stage K} (hcs : List.Forall₂ R cs ds)
    (hxy : S x y) :
    (settle h s results cs x).Related (Paired R) S (settle k s results ds y) := by
  simp only [settle, ← count_agree a results _ hcs, ← hcs.length_eq]
  split
  · exact finish_agree a s results .error hcs hxy
  · split
    · exact finish_agree a s results _ hcs hxy
    · exact ⟨rfl, ⟨rfl, hcs⟩, hxy⟩

theorem Parallel.tick_agree (a : h.Agree R S k) (s : Settings) (results : Results)
    {cs : List γ} {ds : List δ} {x : Stage H} {y : Stage K} (hcs : List.Forall₂ R cs ds)
    (hxy : S x y) : (tick h s results cs x).Related (Paired R) S (tick k s results ds y) := by
  obtain ⟨ho, ⟨hr, hc⟩, hs⟩ := advance_agree a s.maxConcurrency results hcs hxy
  simp only [tick, ← ho, ← hr]
  split
  · exact ⟨rfl, ⟨hr, hc⟩, hs⟩
  · exact settle_agree a s _ hc hs

/-! ## Nodes with one child -/

theorem Repeater.prepare_agree (a : h.Agree R S k) (s : Settings) (run : Run) {c : γ} {d : δ}
    {x : Stage H} {y : Stage K} (hc : R c d) (hxy : S x y) :
    R (prepare h s run c x).1 (prepare k s run d y).1 ∧
      S (prepare h s run c x).2 (prepare k s run d y).2 := by
  unfold prepare
  split
  · exact ⟨a.reset hc, a.notice hc hxy⟩
  · exact ⟨hc, hxy⟩

theorem Repeater.loop_agree (a : h.Agree R S k) (s : Settings) (left : Nat) (run : Run) {c : γ}
    {d : δ} {x : Stage H} {y : Stage K} (hc : R c d) (hxy : S x y) :
    (loop h s left run c x).Related (fun p q => p.1 = q.1 ∧ R p.2 q.2) S
      (loop k s left run d y) := by
  induction left generalizing run c d x y with
  | zero => exact ⟨rfl, ⟨rfl, hc⟩, hxy⟩
  | succ left ih =>
    obtain ⟨hp, hs⟩ := prepare_agree a s run hc hxy
    obtain ⟨ho, hst, hsg⟩ := a.tick hp hs
    simp only [loop]
    split
    · exact ⟨rfl, ⟨rfl, hc⟩, hxy⟩
    · rw [← ho]
      split
      · exact ⟨rfl, ⟨rfl, hst⟩, hsg⟩
      · exact ⟨rfl, ⟨rfl, hst⟩, hsg⟩
      · exact ⟨rfl, ⟨rfl, hst⟩, hsg⟩
      · exact ⟨rfl, ⟨rfl, hst⟩, hsg⟩
      · split
        · exact ⟨rfl, ⟨rfl, hst⟩, hsg⟩
        · exact ih _ hst hsg

theorem Repeater.tick_agree (a : h.Agree R S k) (s : Settings) (run : Run) {cs : List γ}
    {ds : List δ} {x : Stage H} {y : Stage K} (hcs : List.Forall₂ R cs ds) (hxy : S x y) :
    (tick h s run cs x).Related (Paired R) S (tick k s run ds y) := by
  cases hcs with
  | nil => exact ⟨rfl, ⟨rfl, .nil⟩, hxy⟩
  | cons hc hrest =>
    simp only [tick]
    exact (loop_agree a s _ run hc hxy).map fun p q hpq => ⟨hpq.1, .cons hpq.2 hrest⟩

theorem Inverter.tick_agree (a : h.Agree R S k) (s : Settings) {cs : List γ} {ds : List δ}
    {x : Stage H} {y : Stage K} (hcs : List.Forall₂ R cs ds) (hxy : S x y) :
    (tick h s cs x).Related (List.Forall₂ R) S (tick k s ds y) := by
  cases hcs with
  | nil => exact ⟨rfl, .nil, hxy⟩
  | cons hc hrest =>
    obtain ⟨ho, hst, hsg⟩ := a.tick hc hxy
    simp only [tick, ← ho]
    exact ⟨rfl, .cons hst hrest, hsg⟩

theorem Root.giveUp_agree (a : h.Agree R S k) {c : γ} {d : δ} {cs : List γ} {ds : List δ}
    {x : Stage H} {y : Stage K} (hc : R c d) (hcs : List.Forall₂ R cs ds) (hxy : S x y) :
    (giveUp h c cs x).Related (Paired R) S (giveUp k d ds y) :=
  ⟨rfl, ⟨rfl, .cons (a.reset hc) hcs⟩, a.notice hc hxy⟩

/-- Roots read the clock and raise flags, so their stages have to have that in common too. -/
theorem Root.tick_agree (a : h.Agree R S k) (hraise : ∀ {x y} (f : Flags), S x y →
    S (x.raise f) (y.raise f)) (hnow : ∀ {x y}, S x y → x.now = y.now) (s : Settings)
    (runStarted : Option UInt64) {cs : List γ} {ds : List δ} {x : Stage H} {y : Stage K}
    (hcs : List.Forall₂ R cs ds) (hxy : S x y) :
    (tick h s runStarted cs x).Related (Paired R) S (tick k s runStarted ds y) := by
  cases hcs with
  | nil => exact ⟨rfl, ⟨rfl, .nil⟩, hraise s.flags hxy⟩
  | cons hc hrest =>
    obtain ⟨ho, hst, hsg⟩ := a.tick hc (hraise s.flags hxy)
    simp only [tick, ← ho, ← hnow (hraise s.flags hxy), ← hnow hsg, ← a.id hst]
    split
    · exact giveUp_agree a hst hrest (a.write _ _ _ hsg)
    · split
      · exact giveUp_agree a hst hrest hsg
      · exact ⟨rfl, ⟨rfl, .cons hst hrest⟩, hsg⟩

/-! ## Behaviors of the host -/

theorem Extension.tickAll_agree (a : h.Agree R S k) {cs : List γ} {ds : List δ} {x : Stage H}
    {y : Stage K} (hcs : List.Forall₂ R cs ds) (hxy : S x y) :
    (tickAll h cs x).Related (Paired R) S (tickAll k ds y) := by
  induction hcs generalizing x y with
  | nil => exact ⟨rfl, ⟨rfl, .nil⟩, hxy⟩
  | cons hc hrest ih =>
    obtain ⟨ho, hst, hsg⟩ := a.tick hc hxy
    simp only [tickAll, ← ho]
    split
    · exact ⟨rfl, ⟨rfl, .cons hst hrest⟩, hsg⟩
    · exact (ih hsg).push hst

section OneHost

/-! For one host, stages that belong together have the same scene and the same flags, and what happens
there cannot part them. -/

/-- Whatever plays on stages that belong together finds the same there and leaves the same. -/
structure Stage.Congruence (S : Stage H → Stage H → Prop) : Prop where
  scene : ∀ {x y}, S x y → x.scene = y.scene
  flags : ∀ {x y}, S x y → x.flags = y.flags
  play : ∀ {x y} (scene : Scene H), S x y → S { x with scene := scene } { y with scene := scene }
  raise : ∀ {x y} (f : Flags), S x y → S (x.raise f) (y.raise f)

variable {T : Stage H → Stage H → Prop} {P : γ → δ → Prop} {l : Handling H γ} {m : Handling H δ}
  {x y : Stage H}

theorem Stage.Congruence.now (hT : Stage.Congruence T) (hxy : T x y) : x.now = y.now :=
  congrArg Scene.now (hT.scene hxy)

theorem Stage.Congruence.run {α : Type} (hT : Stage.Congruence T) (hxy : T x y)
    (script : Script H α) :
    (x.run script).1 = (y.run script).1 ∧ T (x.run script).2 (y.run script).2 := by
  have hplay := hT.play (script y.flags y.scene).2 hxy
  unfold Stage.run
  rw [hT.scene hxy, hT.flags hxy]
  rw [hT.flags hxy] at hplay
  exact ⟨rfl, hplay⟩

theorem Action.perform_congr (hT : Stage.Congruence T) (s : Settings)
    (script : Option (Script H Status)) (run : Run) (hxy : T x y) :
    (perform s script run x).1 = (perform s script run y).1 ∧
      (perform s script run x).2.1 = (perform s script run y).2.1 ∧
      T (perform s script run x).2.2 (perform s script run y).2.2 := by
  unfold perform
  cases s.deed with
  | custom =>
    cases script with
    | none => exact ⟨rfl, rfl, hxy⟩
    | some script =>
      obtain ⟨ho, hs⟩ := hT.run hxy script
      exact ⟨ho, rfl, hs⟩
  | wait =>
    dsimp only
    rw [hT.now hxy]
    exact ⟨rfl, rfl, hxy⟩
  | _ =>
    dsimp only
    rw [hT.scene hxy]
    exact ⟨rfl, rfl, hT.play _ hxy⟩

theorem Action.tick_congr (hT : Stage.Congruence T) (s : Settings)
    (script : Option (Script H Status)) (run : Run) (hxy : T x y) :
    (tick s script run x).Related Eq T (tick s script run y) := by
  unfold tick
  rw [hT.now hxy]
  split
  · exact ⟨rfl, rfl, hxy⟩
  · obtain ⟨ho, hr, hs⟩ := perform_congr hT s script { run with nextAttempt := none } hxy
    simp only [attempt, ← ho, ← hr, hT.now hxy]
    split
    · exact ⟨rfl, rfl, hs⟩
    · exact ⟨rfl, rfl, hs⟩
    · exact ⟨rfl, rfl, hs⟩

theorem Condition.tick_congr (hT : Stage.Congruence T) (s : Settings)
    (script : Option (Script H Bool)) (path : PropertyPath) (hxy : T x y) :
    (tick s script path x).1 = (tick s script path y).1 ∧
      T (tick s script path x).2 (tick s script path y).2 := by
  unfold tick
  split
  · next script _ =>
    obtain ⟨ho, hs⟩ := hT.run hxy script
    simp only [← ho]
    split
    · exact ⟨rfl, hs⟩
    · exact ⟨rfl, hs⟩
    · exact ⟨rfl, hs⟩
  · rw [hT.scene hxy]
    exact ⟨rfl, hxy⟩

theorem Extension.reply_congr (hT : Stage.Congruence T) (e : Extension H) (played : Nat)
    {cs : List γ} {ds : List δ} (hcs : List.Forall₂ P cs ds) (hxy : T x y) :
    (e.reply played cs x).Related (Paired P) T (e.reply played ds y) := by
  obtain ⟨ho, hs⟩ := hT.run hxy (e.answer played)
  simp only [reply, ← ho]
  split
  · exact ⟨rfl, ⟨rfl, hcs⟩, hs⟩
  · exact ⟨rfl, ⟨rfl, hcs⟩, hs⟩
  · exact ⟨rfl, ⟨rfl, hcs⟩, hs⟩

theorem Extension.tick_congr (hT : Stage.Congruence T) (a : l.Agree P T m) (e : Extension H)
    (played : Nat) {cs : List γ} {ds : List δ} (hcs : List.Forall₂ P cs ds) (hxy : T x y) :
    (tick l e played cs x).Related (Paired P) T (tick m e played ds y) := by
  have hxy : T (x.tell e.announce) (y.tell e.announce) := by
    unfold Stage.tell
    rw [hT.scene hxy]
    exact hT.play _ hxy
  obtain ⟨ho, ⟨-, hc⟩, hs⟩ := tickAll_agree a hcs hxy
  simp only [tick, ← ho]
  split
  · split
    · exact ⟨rfl, ⟨rfl, hc⟩, hs⟩
    · exact reply_congr hT e played hc hs
  · exact reply_congr hT e played hcs hxy

/-- A behavior ticks the same by either way to handle its children. -/
theorem Behavior.tick_congr (hT : Stage.Congruence T) (a : l.Agree P T m) (b : Behavior H)
    {cs : List γ} {ds : List δ} (hcs : List.Forall₂ P cs ds) (hxy : T x y) :
    (b.tick l cs x).Related (Paired P) T (b.tick m ds y) := by
  cases b with
  | root s runStarted =>
    simp only [tick]
    exact (Root.tick_agree a hT.raise hT.now s runStarted hcs hxy).map fun p q hpq =>
      ⟨by rw [hpq.1], hpq.2⟩
  | sequence s run =>
    simp only [tick, Sequence.tick]
    exact (Sequence.walk_agree a s run 0 hcs hxy).map fun p q hpq => ⟨by rw [hpq.1], hpq.2⟩
  | selector s run g =>
    simp only [tick]
    exact (Selector.tick_agree a s run g hcs hxy).map fun p q hpq =>
      ⟨congrArg (fun r => Behavior.selector s r.1 r.2) hpq.1, hpq.2⟩
  | parallel s results =>
    simp only [tick]
    exact (Parallel.tick_agree a s results hcs hxy).map fun p q hpq => ⟨by rw [hpq.1], hpq.2⟩
  | inverter s =>
    simp only [tick]
    exact (Inverter.tick_agree a s hcs hxy).map fun p q hpq => ⟨rfl, hpq⟩
  | repeater s run =>
    simp only [tick]
    exact (Repeater.tick_agree a s run hcs hxy).map fun p q hpq => ⟨by rw [hpq.1], hpq.2⟩
  | action s script run =>
    simp only [tick]
    exact (Action.tick_congr hT s script run hxy).map fun p q hpq => ⟨by rw [hpq], hcs⟩
  | condition s script path =>
    obtain ⟨ho, hs⟩ := Condition.tick_congr hT s script path hxy
    exact ⟨ho, ⟨rfl, hcs⟩, hs⟩
  | extension e played =>
    simp only [tick]
    exact (Extension.tick_congr hT a e played hcs hxy).map fun p q hpq => ⟨by rw [hpq.1], hpq.2⟩

/-! Equal stages belong together, and so do those with a property that what happens in a scene cannot
take away from them. -/

/-- A property of stages that changes of the scene and of the flags keep. -/
structure Stage.Lasting (G : Stage H → Prop) : Prop where
  scene : ∀ {x : Stage H} (scene : Scene H), G x → G { x with scene := scene }
  raise : ∀ {x : Stage H} (f : Flags), G x → G (x.raise f)

/-- The stages are equal and have a property. -/
def Stage.Both (G : Stage H → Prop) (x y : Stage H) : Prop := x = y ∧ G x

variable {G : Stage H → Prop}

theorem Stage.congruence_both (hG : Stage.Lasting G) : Stage.Congruence (Stage.Both G) where
  scene h := congrArg Stage.scene h.1
  flags h := congrArg Stage.flags h.1
  play := by
    rintro x _ scene ⟨rfl, hx⟩
    exact ⟨rfl, hG.scene scene hx⟩
  raise := by
    rintro x _ f ⟨rfl, hx⟩
    exact ⟨rfl, hG.raise f hx⟩

theorem Behavior.tick_agree (hG : Stage.Lasting G) (a : l.Agree P (Stage.Both G) m)
    (b : Behavior H) {cs : List γ} {ds : List δ} {stage : Stage H} (hcs : List.Forall₂ P cs ds)
    (hg : G stage) :
    (b.tick l cs stage).Related (Paired P) (Stage.Both G) (b.tick m ds stage) :=
  tick_congr (Stage.congruence_both hG) a b hcs ⟨rfl, hg⟩

/-! A leaf changes nothing but the scene. -/

theorem Action.stage_tick (s : Settings) (script : Option (Script H Status)) (run : Run)
    (stage : Stage H) : ∃ scene, (tick s script run stage).stage = { stage with scene := scene } := by
  have hperform : ∀ run, ∃ scene,
      (perform s script run stage).2.2 = { stage with scene := scene } := by
    intro run
    unfold perform
    split
    · split
      · exact ⟨_, rfl⟩
      · exact ⟨stage.scene, rfl⟩
    · exact ⟨_, rfl⟩
    · exact ⟨_, rfl⟩
    · exact ⟨_, rfl⟩
    · exact ⟨stage.scene, rfl⟩
  unfold tick
  split
  · exact ⟨stage.scene, rfl⟩
  · obtain ⟨scene, he⟩ := hperform { run with nextAttempt := none }
    refine ⟨scene, ?_⟩
    unfold attempt
    generalize perform s script { run with nextAttempt := none } stage = p at he
    obtain ⟨outcome, run', stage'⟩ := p
    cases outcome with
    | panic p => exact he
    | fault e => exact he
    | value status => exact he

theorem Condition.stage_tick (s : Settings) (script : Option (Script H Bool)) (path : PropertyPath)
    (stage : Stage H) : ∃ scene, (tick s script path stage).2 = { stage with scene := scene } := by
  unfold tick
  split
  · dsimp only
    split
    · exact ⟨_, rfl⟩
    · exact ⟨_, rfl⟩
    · exact ⟨_, rfl⟩
  · exact ⟨stage.scene, rfl⟩

end OneHost

end Conduct
