import Conduct.Proofs.Calls

/-! How a tick gets from one stage to another.

A tick of a node passes through the ticks that it makes of the children, one after the other. What
else it does on the way changes the scene alone, and leaves no trace of a tick in the log. So what is
known of the ticks of the children adds up to what is known of the tick. Main statements:
`Behavior.tick_passed`, `Handling.Passes.flags` and `Handling.Passes.traces`.
-/

set_option autoImplicit false

namespace Conduct

variable {H : Host} {γ α : Type}

/-! ## Traces in the log -/

/-- The entries of the log that trace ticks, if a log is attached. -/
def Scene.traces (s : Scene H) : Option (List LogEntry) :=
  s.log.map fun es => es.filter fun e => e.category == "debug"

theorem Scene.traces_of_log {s t : Scene H} (h : s.log = t.log) : s.traces = t.traces := by
  unfold traces
  rw [h]

theorem Scene.traces_write (s : Scene H) {e : LogEntry} (he : e.category ≠ "debug") :
    (s.write e).traces = s.traces := by
  unfold traces write
  cases s.log with
  | none => rfl
  | some es => simp [he]

theorem Scene.traces_write_debug (s : Scene H) {e : LogEntry} (he : e.category = "debug") :
    (s.write e).traces = s.traces.map ([e] ++ ·) := by
  unfold traces write
  cases s.log with
  | none => rfl
  | some es => simp [he]

/-- A script that leaves the log alone. -/
def Script.Discreet (f : Script H α) : Prop := ∀ flags scene, (f flags scene).2.log = scene.log

/-- A behavior whose scripts leave the log alone. -/
def Behavior.Discreet : Behavior H → Prop
  | .action _ script _ => ∀ f ∈ script, f.Discreet
  | .condition _ script _ => ∀ f ∈ script, f.Discreet
  | .extension e _ => ∀ played, (e.answer played).Discreet
  | _ => True

theorem Behavior.discreet_anew {b : Behavior H} : b.anew.Discreet ↔ b.Discreet := by cases b <;> rfl

/-! ## Passages -/

/-- From one stage another comes to be by these ticks of children, in this order, and otherwise by
changes of the scene that leave no trace. -/
inductive Handling.Passes (h : Handling H γ) : Stage H → List (γ × Stage H) → Stage H → Prop
  | refl (x : Stage H) : h.Passes x [] x
  | tick {x y : Stage H} {made : List (γ × Stage H)} (c : γ) (p : h.Passes (h.tick c x).stage made y) :
      h.Passes x ((c, x) :: made) y
  | aside {x y : Stage H} {made : List (γ × Stage H)} {scene : Scene H}
      (hs : scene.traces = x.scene.traces) (p : h.Passes { x with scene := scene } made y) :
      h.Passes x made y

variable {h : Handling H γ} {x y z : Stage H} {made more : List (γ × Stage H)}

namespace Handling

theorem Passes.trans (p : h.Passes x made y) (q : h.Passes y more z) :
    h.Passes x (made ++ more) z := by
  induction p with
  | refl x => exact q
  | tick c _ ih => exact .tick c (ih q)
  | aside hs _ ih => exact .aside hs (ih q)

/-- If the ticks of the children keep the flags, so does all that happens. -/
theorem Passes.flags (p : h.Passes x made y)
    (hk : ∀ e ∈ made, (h.tick e.1 e.2).stage.flags = e.2.flags) :
    y.flags = x.flags ∧ ∀ e ∈ made, e.2.flags = x.flags := by
  induction p with
  | refl x => exact ⟨rfl, fun e he => absurd he List.not_mem_nil⟩
  | @tick x y made c _ ih =>
    obtain ⟨hc, hmade⟩ := List.forall_mem_cons.1 hk
    obtain ⟨hy, hflags⟩ := ih hmade
    refine ⟨hy.trans hc, List.forall_mem_cons.2 ⟨rfl, fun e he => ?_⟩⟩
    exact (hflags e he).trans hc
  | aside _ _ ih => exact ih hk

/-- The traces of the ticks of the children are all that the log gets meanwhile, with those of later
ticks before those of earlier ones. -/
theorem Passes.traces (p : h.Passes x made y) {ess : List (List LogEntry)}
    (hk : List.Forall₂ (fun e es =>
      (h.tick e.1 e.2).stage.scene.traces = e.2.scene.traces.map (es ++ ·)) made ess) :
    y.scene.traces = x.scene.traces.map (ess.reverse.flatten ++ ·) := by
  induction p generalizing ess with
  | refl x =>
    cases hk
    simp
  | @tick x y made c _ ih =>
    cases hk with
    | @cons _ es _ ess hc hmade =>
      rw [ih hmade, hc, Option.map_map, List.reverse_cons, List.flatten_append]
      congr 1
      funext entries
      simp
  | aside hs _ ih => rw [ih hk, hs]

/-- From a stage and some watched children, a tick gets to other ones by the ticks that the children
see meanwhile. -/
def Passed (h : Handling H γ) (x : Stage H) (cs : List (Watched h)) (y : Stage H)
    (ds : List (Watched h)) : Prop :=
  ∃ made, h.Passes x made y ∧
    (ds.flatMap Watched.calls).Perm (cs.flatMap Watched.calls ++ made)

variable {c d : Watched h} {cs ds es : List (Watched h)}

theorem Passed.refl (x : Stage H) (cs : List (Watched h)) : h.Passed x cs x cs :=
  ⟨[], .refl x, by rw [List.append_nil]⟩

theorem Passed.trans (p : h.Passed x cs y ds) (q : h.Passed y ds z es) : h.Passed x cs z es := by
  obtain ⟨made, p, hp⟩ := p
  obtain ⟨more, q, hq⟩ := q
  refine ⟨made ++ more, p.trans q, hq.trans ?_⟩
  rw [← List.append_assoc]
  exact hp.append_right more

theorem Passed.tick (x : Stage H) (c : Watched h) (cs : List (Watched h)) :
    h.Passed x (c :: cs) (h.watched.tick c x).stage ((h.watched.tick c x).state :: cs) := by
  refine ⟨[(c.now, x)], .tick c.now (.refl _), ?_⟩
  have hcalls : (h.watched.tick c x).state.calls = c.calls ++ [(c.now, x)] := rfl
  rw [List.flatMap_cons, List.flatMap_cons, hcalls, List.append_assoc, List.append_assoc]
  exact List.perm_append_comm.append_left c.calls

theorem Passed.reset (x : Stage H) (c : Watched h) (cs : List (Watched h)) :
    h.Passed x (c :: cs) x (h.watched.reset c :: cs) :=
  ⟨[], .refl x, by rw [List.append_nil]; rfl⟩

theorem Passed.aside (x : Stage H) {scene : Scene H} (hs : scene.traces = x.scene.traces)
    (cs : List (Watched h)) : h.Passed x cs { x with scene := scene } cs :=
  ⟨[], .aside hs (.refl _), by rw [List.append_nil]⟩

theorem Passed.write (x : Stage H) {category : String} (hc : category ≠ "debug")
    (message node : String) (cs : List (Watched h)) :
    h.Passed x cs (x.write category message node) cs :=
  .aside x (x.scene.traces_write hc) cs

theorem Passed.tell (x : Stage H) (f : H.State → H.State) (cs : List (Watched h)) :
    h.Passed x cs (x.tell f) cs :=
  .aside x (show (x.tell f).scene.traces = x.scene.traces from rfl) cs

theorem Passed.append (p : h.Passed x cs y ds) (bs : List (Watched h)) :
    h.Passed x (bs ++ cs) y (bs ++ ds) := by
  obtain ⟨made, p, hp⟩ := p
  refine ⟨made, p, ?_⟩
  rw [List.flatMap_append, List.flatMap_append, List.append_assoc]
  exact hp.append_left _

theorem Passed.cons (p : h.Passed x cs y ds) (c : Watched h) : h.Passed x (c :: cs) y (c :: ds) :=
  p.append [c]

end Handling

open Handling (Passed)

/-! ## Control nodes -/

theorem Sequence.walk_passed (s : Settings) (run : Run) (index : Nat) (cs : List (Watched h))
    (x : Stage H) :
    h.Passed x cs (walk h.watched s run index cs x).stage
      (walk h.watched s run index cs x).state.2 := by
  induction cs generalizing run index x with
  | nil => exact .refl x []
  | cons c cs ih =>
    have hticked := Passed.tick x c cs
    simp only [walk]
    split
    · exact (ih _ _ x).cons c
    · split
      · exact hticked
      · exact hticked
      · split
        · exact hticked
        · exact hticked.trans ((ih _ _ _).cons _)
      · split
        · exact hticked
        · exact (hticked.trans (.write _ (by decide) _ _ _)).trans ((ih _ _ _).cons _)
      · exact hticked
      · exact hticked

theorem Selector.walk_passed (run : Run) (ids : List String) (cs : List (Watched h)) (x : Stage H) :
    h.Passed x cs (walk h.watched run ids cs x).stage (walk h.watched run ids cs x).state.2 := by
  induction ids generalizing run cs x with
  | nil => exact .refl x cs
  | cons id ids ih =>
    simp only [walk]
    cases hd : cs.dropWhile fun c => h.watched.id c != id with
    | nil => exact ih run cs x
    | cons c after =>
      obtain ⟨hsplit, -⟩ := split_at hd
      have hticked := (Passed.tick x c after).append (cs.takeWhile fun c => h.watched.id c != id)
      rw [← hsplit] at hticked
      dsimp only
      split
      · exact ih run cs x
      · split
        · exact hticked
        · exact hticked
        · exact hticked
        · exact hticked.trans (ih _ _ _)
        · exact hticked
        · exact hticked

namespace Parallel

theorem advance_passed (budget : Option Nat) (results : Results) (cs : List (Watched h))
    (x : Stage H) :
    h.Passed x cs (advance h.watched budget results cs x).stage
      (advance h.watched budget results cs x).state.2 := by
  induction cs generalizing budget results x with
  | nil => exact .refl x []
  | cons c cs ih =>
    have hticked := Passed.tick x c cs
    simp only [advance]
    split
    · exact (ih _ _ x).cons c
    · split
      · exact hticked
      · exact hticked.trans ((ih _ _ _).cons _)

theorem cancel_passed (results : Results) (cs : List (Watched h)) (x : Stage H) :
    h.Passed x cs (cancel h.watched results cs x).2 (cancel h.watched results cs x).1 := by
  induction cs generalizing x with
  | nil => exact .refl x []
  | cons c cs ih =>
    simp only [cancel]
    split
    · exact ((Passed.reset x c cs).trans (.tell x _ _)).trans ((ih _).cons _)
    · exact (ih x).cons c

theorem finish_passed (s : Settings) (results : Results) (cs : List (Watched h)) (x : Stage H)
    (status : Status) :
    h.Passed x cs (finish h.watched s results cs x status).stage
      (finish h.watched s results cs x status).state.2 := by
  unfold finish
  split
  · exact cancel_passed results cs x
  · exact .refl x cs

theorem tick_passed (s : Settings) (results : Results) (cs : List (Watched h)) (x : Stage H) :
    h.Passed x cs (tick h.watched s results cs x).stage (tick h.watched s results cs x).state.2 := by
  have hadvance := advance_passed s.maxConcurrency results cs x
  simp only [tick]
  split
  · exact hadvance
  · refine hadvance.trans ?_
    unfold settle
    split
    · exact finish_passed s _ _ _ _
    · dsimp only
      split
      · exact finish_passed s _ _ _ _
      · exact .refl _ _

end Parallel

theorem Repeater.loop_passed (s : Settings) (left : Nat) (run : Run) (c : Watched h)
    (rest : List (Watched h)) (x : Stage H) :
    h.Passed x (c :: rest) (loop h.watched s left run c x).stage
      ((loop h.watched s left run c x).state.2 :: rest) := by
  induction left generalizing run c x with
  | zero => exact .refl x _
  | succ left ih =>
    have hprepare : h.Passed x (c :: rest) (prepare h.watched s run c x).2
        ((prepare h.watched s run c x).1 :: rest) := by
      unfold prepare
      split
      · exact (Passed.reset x c rest).trans (.tell x _ _)
      · exact .refl x _
    have hticked := hprepare.trans (.tick _ _ rest)
    simp only [loop]
    split
    · exact .refl x _
    · split
      · exact hticked
      · exact hticked
      · exact hticked
      · exact hticked
      · split
        · exact hticked
        · exact hticked.trans (ih _ _ _)

theorem Repeater.tick_passed (s : Settings) (run : Run) (cs : List (Watched h)) (x : Stage H) :
    h.Passed x cs (tick h.watched s run cs x).stage (tick h.watched s run cs x).state.2 := by
  cases cs with
  | nil => exact .refl x []
  | cons c rest => exact loop_passed s _ run c rest x

theorem Inverter.tick_passed (s : Settings) (cs : List (Watched h)) (x : Stage H) :
    h.Passed x cs (tick h.watched s cs x).stage (tick h.watched s cs x).state := by
  cases cs with
  | nil => exact .refl x []
  | cons c rest => exact .tick x c rest

theorem Root.tick_passed (s : Settings) (started : Option UInt64) (cs : List (Watched h))
    (x : Stage H) :
    h.Passed (x.raise s.flags) cs (tick h.watched s started cs x).stage
      (tick h.watched s started cs x).state.2 := by
  have hgiveUp : ∀ c rest y, h.Passed y (c :: rest) (giveUp h.watched c rest y).stage
      (giveUp h.watched c rest y).state.2 :=
    fun c rest y => (Passed.reset y c rest).trans (.tell y _ _)
  cases cs with
  | nil => exact .refl _ []
  | cons c rest =>
    have hticked := Passed.tick (x.raise s.flags) c rest
    simp only [tick]
    split
    · exact (hticked.trans (.write _ (by decide) _ _ _)).trans (hgiveUp _ _ _)
    · split
      · exact hticked.trans (hgiveUp _ _ _)
      · exact hticked

/-! ## Leaves and behaviors of the host -/

theorem Action.log_perform (s : Settings) {script : Option (Script H Status)}
    (hd : ∀ f ∈ script, f.Discreet) (run : Run) (x : Stage H) :
    (perform s script run x).2.2.scene.log = x.scene.log := by
  have happroach : ∀ target, (approach s x.scene target).2.log = x.scene.log := by
    intro target
    unfold approach
    split
    · rfl
    · dsimp only
      split
      · rfl
      · rfl
  unfold perform
  dsimp only
  split
  · split
    · next f => exact hd f rfl x.flags x.scene
    · rfl
  · unfold moveTo
    split
    · split
      · rfl
      · split
        · exact happroach _
        · rfl
    · exact happroach _
    · rfl
  · unfold attack
    split
    · rfl
    · rfl
    · rfl
    · split
      · rfl
      · split
        · rfl
        · rfl
  · unfold interact
    split
    · rfl
    · rfl
    · rfl
    · split
      · rfl
      · split
        · rfl
        · rfl
  · rfl

theorem Action.log_tick (s : Settings) {script : Option (Script H Status)}
    (hd : ∀ f ∈ script, f.Discreet) (run : Run) (x : Stage H) :
    (tick s script run x).stage.scene.log = x.scene.log := by
  unfold tick
  split
  · rfl
  · have hlog := log_perform s hd { run with nextAttempt := none } x
    unfold attempt
    generalize perform s script { run with nextAttempt := none } x = p at hlog
    obtain ⟨outcome, run', x'⟩ := p
    cases outcome with
    | panic p => exact hlog
    | fault e => exact hlog
    | value status => exact hlog

theorem Condition.log_tick (s : Settings) {script : Option (Script H Bool)}
    (hd : ∀ f ∈ script, f.Discreet) (path : PropertyPath) (x : Stage H) :
    (tick s script path x).2.scene.log = x.scene.log := by
  unfold tick
  split
  · next f _ =>
    have hlog : (x.run f).2.scene.log = x.scene.log := hd f rfl x.flags x.scene
    dsimp only
    split
    · exact hlog
    · exact hlog
    · exact hlog
  · rfl

theorem Extension.tickAll_passed (cs : List (Watched h)) (x : Stage H) :
    h.Passed x cs (tickAll h.watched cs x).stage (tickAll h.watched cs x).state.2 := by
  induction cs generalizing x with
  | nil => exact .refl x []
  | cons c cs ih =>
    have hticked := Passed.tick x c cs
    simp only [tickAll]
    split
    · exact hticked
    · exact hticked.trans ((ih _).cons _)

theorem Extension.reply_passed {e : Extension H} (hd : ∀ played, (e.answer played).Discreet)
    (played : Nat) (cs : List (Watched h)) (x : Stage H) :
    h.Passed x cs (e.reply played cs x).stage (e.reply played cs x).state.2 := by
  have hanswer : h.Passed x cs (x.run (e.answer played)).2 cs :=
    .aside x (Scene.traces_of_log (hd played x.flags x.scene)) cs
  unfold reply
  dsimp only
  split
  · exact hanswer
  · exact hanswer
  · exact hanswer

theorem Extension.tick_passed {e : Extension H} (hd : ∀ played, (e.answer played).Discreet)
    (played : Nat) (cs : List (Watched h)) (x : Stage H) :
    h.Passed x cs (tick h.watched e played cs x).stage
      (tick h.watched e played cs x).state.2 := by
  have htold := Passed.tell x e.announce cs
  have hall := htold.trans (tickAll_passed cs _)
  simp only [tick]
  split
  · split
    · exact hall
    · exact hall.trans (reply_passed hd played _ _)
  · exact htold.trans (reply_passed hd played _ _)

/-! ## All behaviors -/

/-- The flags that a node raises for what is below it. -/
def Behavior.raised : Behavior H → Flags
  | .root s _ => s.flags
  | _ => ⟨false, false⟩

theorem Behavior.raised_anew (b : Behavior H) : b.anew.raised = b.raised := by cases b <;> rfl

theorem Stage.raise_nothing (x : Stage H) : x.raise ⟨false, false⟩ = x := by
  simp [raise, Flags.or]

theorem Handling.Passed.raise_nothing {cs ds : List (Watched h)} (p : h.Passed x cs y ds) :
    h.Passed (x.raise ⟨false, false⟩) cs y ds := by rwa [x.raise_nothing]

/-- A tick passes through the ticks that it makes of the children, with the flags up that the node
raises for them. -/
theorem Behavior.tick_passed {b : Behavior H} (hb : b.Discreet) (cs : List (Watched h))
    (x : Stage H) :
    h.Passed (x.raise b.raised) cs (b.tick h.watched cs x).stage
      (b.tick h.watched cs x).state.2 := by
  cases b with
  | root s started => exact Root.tick_passed s started cs x
  | sequence s run => exact (Sequence.walk_passed s run 0 cs x).raise_nothing
  | selector s run g => exact (Selector.walk_passed _ _ cs x).raise_nothing
  | parallel s results => exact (Parallel.tick_passed s results cs x).raise_nothing
  | inverter s => exact (Inverter.tick_passed s cs x).raise_nothing
  | repeater s run => exact (Repeater.tick_passed s run cs x).raise_nothing
  | action s script run =>
    obtain ⟨scene, he⟩ := Action.stage_tick s script run x
    have hlog := Action.log_tick s hb run x
    simp only [tick, Turn.map, he] at hlog ⊢
    exact (Passed.aside x (Scene.traces_of_log hlog) cs).raise_nothing
  | condition s script path =>
    obtain ⟨scene, he⟩ := Condition.stage_tick s script path x
    have hlog := Condition.log_tick s hb path x
    simp only [tick, he] at hlog ⊢
    exact (Passed.aside x (Scene.traces_of_log hlog) cs).raise_nothing
  | extension e played => exact (Extension.tick_passed hb played cs x).raise_nothing

end Conduct
