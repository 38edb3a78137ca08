import Conduct.Proofs.Calls
import Conduct.Proofs.Duality.Alike

/-! A selector and a sequence side by side.

One of two ways to handle children reports the inverse of what the other one does. A selector that goes
along its children as they are stored, looking up each by its id, and a sequence that goes along the
others come to inverse verdicts then, and remember the same. Main statements: `walk_opposed` and
`Selector.walk_inTurn`.
-/

set_option autoImplicit false

namespace Conduct

variable {H : Host} {γ δ : Type}

/-! ## The child at its place -/

namespace Selector

variable {h : Handling H γ} {c : γ} {done rest : List γ}

theorem dropWhile_at (hnew : h.id c ∉ done.map h.id) :
    (done ++ c :: rest).dropWhile (fun d => h.id d != h.id c) = c :: rest := by
  rw [List.dropWhile_append_of_pos, List.dropWhile_cons_of_neg]
  · simp
  · intro d hd
    exact bne_iff_ne.2 fun he => hnew (he ▸ List.mem_map_of_mem hd)

theorem takeWhile_at (hnew : h.id c ∉ done.map h.id) :
    (done ++ c :: rest).takeWhile (fun d => h.id d != h.id c) = done := by
  rw [List.takeWhile_append_of_pos, List.takeWhile_cons_of_neg, List.append_nil]
  · simp
  · intro d hd
    exact bne_iff_ne.2 fun he => hnew (he ▸ List.mem_map_of_mem hd)

end Selector

theorem not_mem_of_nodup {α : Type} {f : γ → α} {done rest : List γ} {c : γ}
    (hn : ((done ++ c :: rest).map f).Nodup) : f c ∉ done.map f := by
  rw [List.map_append, List.map_cons] at hn
  exact fun hc => (List.nodup_append.1 hn).2.2 _ hc _ List.mem_cons_self rfl

/-! ## Inverse verdicts -/

/-- Ids that belong together do so one to one. -/
def OneToOne (P : String → String → Prop) : Prop :=
  ∀ {a b a' b'}, P a b → P a' b' → (a = a' ↔ b = b')

/-- Two ways to handle children report the inverse of each other on stages that are alike, with the
debug flag down. -/
structure Handling.Opposed (P : String → String → Prop) (W : γ → δ → Prop) (h : Handling H γ)
    (k : Handling H δ) : Prop where
  id : ∀ {c d}, W c d → P (h.id c) (k.id d)
  keeps : ∀ c x, h.id (h.tick c x).state = h.id c
  outcome : ∀ {c d x y}, W c d → x.Alike y → x.flags.debug = false →
    (k.tick d y).outcome = (h.tick c x).outcome.map Status.invert
  state : ∀ {c d x y}, W c d → x.Alike y → W (h.tick c x).state (k.tick d y).state
  stage : ∀ {c d x y}, W c d → x.Alike y → x.flags.debug = false →
    (h.tick c x).stage.Alike (k.tick d y).stage
  flags : ∀ {c x r}, (h.tick c x).outcome = .ok r → (h.tick c x).stage.flags = x.flags

/-- Runs remember the same of children that belong together. -/
structure Matched (P : String → String → Prop) (run : Selector.Run) (run' : Sequence.Run) :
    Prop where
  completed : ∀ {a b}, P a b → (a ∈ run.completed ↔ b ∈ run'.completed)
  cursor : run.cursor = run'.cursor
  unfailed : run'.failed = false

/-- What a selector and a sequence come to that go along the same children from some place on. -/
structure Turned (P : String → String → Prop) (W : γ → δ → Prop) (run : Selector.Run)
    (done : List γ) (x : Stage H) (t : Turn H Status (Selector.Run × List γ))
    (u : Turn H Status (Sequence.Run × List δ)) : Prop where
  outcome : u.outcome = t.outcome.map Status.invert
  children : ∃ rest, t.state.2 = done ++ rest ∧ List.Forall₂ W rest u.state.2
  matched : Matched P t.state.1 u.state.1
  order : t.state.1.planned = true → t.state.1.order = run.order
  stage : t.stage.Alike u.stage
  flags : ∀ r, t.outcome = .ok r → t.stage.flags = x.flags

variable {P : String → String → Prop} {W : γ → δ → Prop} {h : Handling H γ} {k : Handling H δ}
  {run : Selector.Run} {run' : Sequence.Run} {done rest : List γ} {c : γ} {d : δ} {x x' : Stage H}
  {t : Turn H Status (Selector.Run × List γ)} {u : Turn H Status (Sequence.Run × List δ)}
  {a b : String}

theorem matched_nil : Matched P {} {} :=
  ⟨fun _ => iff_of_false List.not_mem_nil List.not_mem_nil, rfl, rfl⟩

/-- Nothing is planned in a run that has not begun. -/
theorem order_of_idle (run : Selector.Run) :
    ({} : Selector.Run).planned = true → ({} : Selector.Run).order = run.order :=
  fun h => absurd h Bool.false_ne_true

theorem Matched.complete (hm : Matched P run run') (hP : OneToOne P) (hp : P a b) :
    Matched P (run.complete a) (run'.complete b) where
  completed hp' := by
    rw [Selector.Run.complete, Sequence.Run.complete, List.mem_cons, List.mem_cons, hP hp' hp,
      hm.completed hp']
  cursor := hm.cursor
  unfailed := hm.unfailed

theorem Matched.pause (hm : Matched P run run') (cursor : Nat) :
    Matched P { run with cursor := cursor } { run' with cursor := cursor } :=
  ⟨hm.completed, rfl, hm.unfailed⟩

/-- A child that was passed over stays as it was left. -/
theorem Turned.push (ht : Turned P W run (done ++ [c]) x t u) (hc : W c d) :
    Turned P W run done x t (u.push d) where
  outcome := ht.outcome
  children := by
    obtain ⟨rest, he, hrest⟩ := ht.children
    exact ⟨c :: rest, by rw [he, List.append_assoc, List.singleton_append], .cons hc hrest⟩
  matched := ht.matched
  order := ht.order
  stage := ht.stage
  flags := ht.flags

theorem Turned.complete (ht : Turned P W (run.complete a) done x' t u) (hx : x'.flags = x.flags) :
    Turned P W run done x t u where
  outcome := ht.outcome
  children := ht.children
  matched := ht.matched
  order := ht.order
  stage := ht.stage
  flags r hr := (ht.flags r hr).trans hx

/-- A selector along its children and a sequence along the others, from some place on, which is by
induction on the children that are left. The ones before them stand where the selector looks first. -/
theorem walk_opposed (o : h.Opposed P W k) (hP : OneToOne P) (run : Selector.Run)
    (run' : Sequence.Run) (hm : Matched P run run') (done rest : List γ) (ds : List δ)
    (hW : List.Forall₂ W rest ds) (hn : ((done ++ rest).map h.id).Nodup) (x y : Stage H)
    (hxy : x.Alike y) (hd : x.flags.debug = false) :
    Turned P W run done x (Selector.walk h run (rest.map h.id) (done ++ rest) x)
      (Sequence.walk k {} run' done.length ds y) := by
  induction hW generalizing run run' done x y with
  | nil =>
    simp only [List.map_nil, Selector.walk, Sequence.walk, hm.unfailed]
    exact ⟨rfl, ⟨[], rfl, .nil⟩, matched_nil, order_of_idle run, hxy, fun _ _ => rfl⟩
  | @cons c d rest ds hc hrest ih =>
    have hnew := not_mem_of_nodup hn
    have hplace : (done ++ [c]).length = done.length + 1 := List.length_append
    have hcompleted : run'.completed.contains (k.id d) = run.completed.contains (h.id c) := by
      rw [Bool.eq_iff_iff, List.contains_iff_mem, List.contains_iff_mem]
      exact (hm.completed (o.id hc)).symm
    have hn' : ∀ c', h.id c' = h.id c → ((done ++ [c'] ++ rest).map h.id).Nodup := by
      intro c' he
      rw [List.append_cons] at hn
      simpa only [List.map_append, List.map_cons, he] using hn
    simp only [List.map_cons, Selector.walk, Sequence.walk, Selector.dropWhile_at hnew,
      Selector.takeWhile_at hnew, hcompleted]
    split
    · have ht := ih run run' hm (done ++ [c]) (hn' c rfl) x y hxy hd
      rw [hplace, List.append_assoc] at ht
      exact ht.push hc
    · have hstate := o.state hc hxy
      have hstage := o.stage hc hxy hd
      have hleft : ∃ more, done ++ (h.tick c x).state :: rest = done ++ more ∧
          List.Forall₂ W more ((k.tick d y).state :: ds) := ⟨_, rfl, .cons hstate hrest⟩
      rw [o.outcome hc hxy hd]
      cases ho : (h.tick c x).outcome with
      | error p => exact ⟨rfl, hleft, hm, fun _ => rfl, hstage, by simp⟩
      | ok r =>
        have hflags := o.flags ho
        cases r with
        | running => exact ⟨rfl, hleft, hm.pause _, fun _ => rfl, hstage, fun _ _ => hflags⟩
        | failure =>
          have ht := ih (run.complete (h.id c)) (run'.complete (k.id d)) (hm.complete hP (o.id hc))
            (done ++ [(h.tick c x).state]) (hn' _ (o.keeps c x)) _ _ hstage (by rw [hflags, hd])
          rw [List.length_append, List.length_singleton, List.append_assoc] at ht
          exact (ht.push hstate).complete hflags
        | success => exact ⟨rfl, hleft, matched_nil, order_of_idle run, hstage, fun _ _ => hflags⟩
        | error => exact ⟨rfl, hleft, matched_nil, order_of_idle run, hstage, fun _ _ => hflags⟩
        | ready => exact ⟨rfl, hleft, matched_nil, order_of_idle run, hstage, fun _ _ => hflags⟩

/-! ## One tick after the other -/

/-- Ticks from one stage to another, each of which takes it up as the one before left it. -/
inductive Handling.InTurn (h : Handling H γ) : Stage H → List (γ × Stage H) → Stage H → Prop
  | done {x y : Stage H} (hxy : x.Alike y) : h.InTurn x [] y
  | next {x y z : Stage H} {c : γ} {calls : List (γ × Stage H)} (hxy : x.Alike y)
      (hrest : h.InTurn (h.tick c y).stage calls z) : h.InTurn x ((c, y) :: calls) z

theorem Handling.InTurn.ends {x y z : Stage H} {calls : List (γ × Stage H)}
    (ht : h.InTurn x calls y) (hyz : y.Alike z) : h.InTurn x calls z := by
  induction ht with
  | done hxy => exact .done (hxy.trans hyz)
  | next hxy _ ih => exact .next hxy (ih hyz)

theorem calls_of_fresh {ws : List (Watched h)} (hfresh : ∀ w ∈ ws, w.calls = []) :
    ws.flatMap Watched.calls = [] := List.flatMap_eq_nil_iff.2 hfresh

/-- A selector that goes along its children as they are stored ticks them in turn. -/
theorem Selector.walk_inTurn (hid : ∀ c x, h.id (h.tick c x).state = h.id c) (run : Run)
    (done rest : List (Watched h)) (hn : ((done ++ rest).map h.watched.id).Nodup)
    (hfresh : ∀ w ∈ rest, w.calls = []) (x : Stage H) :
    ∃ rest', (walk h.watched run (rest.map h.watched.id) (done ++ rest) x).state.2 = done ++ rest' ∧
      h.InTurn x (rest'.flatMap Watched.calls)
        (walk h.watched run (rest.map h.watched.id) (done ++ rest) x).stage := by
  induction rest generalizing run done x with
  | nil => exact ⟨[], rfl, .done (.refl x)⟩
  | cons w rest ih =>
    obtain ⟨hw, hfresh⟩ := List.forall_mem_cons.1 hfresh
    have hnew := not_mem_of_nodup hn
    have hn' : ∀ w', h.watched.id w' = h.watched.id w →
        ((done ++ [w'] ++ rest).map h.watched.id).Nodup := by
      intro w' he
      rw [List.append_cons] at hn
      simpa only [List.map_append, List.map_cons, he] using hn
    simp only [List.map_cons, walk, dropWhile_at hnew, takeWhile_at hnew]
    split
    · obtain ⟨rest', he, hturn⟩ := ih run (done ++ [w]) (hn' w rfl) hfresh x
      rw [List.append_assoc, List.singleton_append] at he hturn
      refine ⟨w :: rest', he.trans (List.append_assoc ..), ?_⟩
      rw [List.flatMap_cons, hw, List.nil_append]
      exact hturn
    · have hcalls : (h.watched.tick w x).state.calls = [(w.now, x)] :=
        congrArg (· ++ [(w.now, x)]) hw
      have hlast : h.InTurn x
          (((h.watched.tick w x).state :: rest).flatMap Watched.calls)
          (h.watched.tick w x).stage := by
        rw [List.flatMap_cons, hcalls, calls_of_fresh hfresh]
        exact .next (.refl x) (.done (.refl _))
      split
      · exact ⟨_, rfl, hlast⟩
      · exact ⟨_, rfl, hlast⟩
      · exact ⟨_, rfl, hlast⟩
      · obtain ⟨rest', he, hturn⟩ := ih (run.complete (h.watched.id w))
          (done ++ [(h.watched.tick w x).state]) (hn' _ (hid w.now x)) hfresh _
        rw [List.append_assoc, List.singleton_append] at he hturn
        refine ⟨(h.watched.tick w x).state :: rest', he.trans (List.append_assoc ..), ?_⟩
        rw [List.flatMap_cons, hcalls]
        exact .next (.refl x) hturn
      · exact ⟨_, rfl, hlast⟩
      · exact ⟨_, rfl, hlast⟩

end Conduct
