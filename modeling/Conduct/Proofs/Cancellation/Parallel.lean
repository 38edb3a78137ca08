import Conduct.Proofs.Calls
import Conduct.Proofs.Tidiness.Parallel
import Conduct.Proofs.Verdict

/-! What a parallel makes of its children when it cancels the running ones.

A tick comes to a child or leaves it alone, and what the parallel then knows of the child is what the
child reported last in the run. A child that is running may be unknown to the run, where an earlier
one succeeded without waiting for it. Main statements: `tick_knows` and `tick_cancels`.
-/

set_option autoImplicit false

namespace Conduct

variable {H : Host} {γ : Type}

/-- A completed tick leaves a child with the status that it reported, and a panic leaves the status
alone. -/
structure Handling.Shows (h : Handling H γ) (status : γ → Status) : Prop where
  keeps : h.Keeps h.id
  ticked : ∀ c x r, (h.tick c x).outcome = .ok r → status (h.tick c x).state = r ∧ r ≠ .ready
  unwound : ∀ c x p, (h.tick c x).outcome = .error p → status (h.tick c x).state = status c
  reset : ∀ c, status (h.reset c) ≠ .running

variable {h : Handling H γ} {status : γ → Status}

theorem Handling.Shows.tidy (a : h.Shows status) :
    h.Tidy status (fun _ => True) (fun _ => True) where
  id := a.keeps.tick
  shape _ _ := trivial
  unwound _ _ _ := trivial
  ticked c x r _ ho := ⟨trivial, a.ticked c x r ho⟩
  reset c _ := ⟨trivial, a.reset c⟩

namespace Parallel

variable {s : Settings} {results results' : Results} {cs ds : List γ} {x : Stage H} {r : Status}

/-! ## The children, one by one -/

/-- What the ticks make of a child and of what is known of it. A tick of all children is capped if
not all unfinished ones are to be ticked, and cut if a panic unwinds it. -/
inductive Advanced (h : Handling H γ) (capped cut : Prop) (results results' : Results) (c : γ) :
    γ → Prop
  | ticked (x : Stage H) {r : Status} (ho : (h.tick c x).outcome = .ok r)
      (hr : results'.get? (h.id c) = some r) :
      Advanced h capped cut results results' c (h.tick c x).state
  | unwound (x : Stage H) {p : Panic} (ho : (h.tick c x).outcome = .error p) (hcut : cut)
      (hr : results'.get? (h.id c) = results.get? (h.id c)) :
      Advanced h capped cut results results' c (h.tick c x).state
  | left (hleft : capped ∨ cut ∨ finished results (h.id c) = true)
      (hr : results'.get? (h.id c) = results.get? (h.id c)) :
      Advanced h capped cut results results' c c

theorem advance_advanced {known : Results} {capped cut : Prop} (budget : Option Nat)
    (results : Results) (cs : List γ) (x : Stage H) (hnodup : (cs.map h.id).Nodup)
    (hknown : ∀ c ∈ cs, results.get? (h.id c) = known.get? (h.id c)) (hcap : budget ≠ none → capped)
    (hcut : ∀ p, (advance h budget results cs x).outcome = .error p → cut) :
    List.Forall₂ (Advanced h capped cut known (advance h budget results cs x).state.1) cs
      (advance h budget results cs x).state.2 := by
  induction cs generalizing budget results x with
  | nil => exact .nil
  | cons c cs ih =>
    obtain ⟨hc, hcs⟩ := List.forall_mem_cons.1 hknown
    rw [List.map_cons, List.nodup_cons] at hnodup
    have hkept := fun budget results x => get?_advance (h := h) budget results cs x hnodup.1
    simp only [advance] at hcut ⊢
    split at hcut
    · next hskip =>
      rw [if_pos hskip]
      refine .cons (.left ?_ ((hkept _ _ _).trans hc)) (ih budget results x hnodup.2 hcs hcap hcut)
      rcases Bool.or_eq_true_iff.1 hskip with hf | hb
      · exact .inr (.inr (by rw [← hf, finished, finished, hc]))
      · exact .inl (hcap (by rw [eq_of_beq hb]; exact Option.some_ne_none 0))
    · next hskip =>
      rw [if_neg hskip]
      cases hout : (h.tick c x).outcome with
      | error p =>
        simp only [hout] at hcut ⊢
        have hleft : ∀ c ∈ cs, Advanced h capped cut known results c c :=
          fun c hc => .left (.inr (.inl (hcut p rfl))) (hcs c hc)
        exact .cons (.unwound x hout (hcut p rfl) hc) (List.forall₂_same.2 hleft)
      | ok r =>
        simp only [hout] at hcut ⊢
        refine .cons (.ticked x hout ?_) (ih _ _ _ hnodup.2 ?_ ?_ hcut)
        · exact (hkept _ _ _).trans (Dict.From.get?_insert_self _ _ _)
        · intro d hd
          have hne : h.id d ≠ h.id c := fun he => hnodup.1 (he ▸ List.mem_map_of_mem hd)
          rw [Dict.From.get?_insert_of_ne _ hne, hcs d hd]
        · intro hb
          exact hcap fun hnone => hb (by rw [hnone]; rfl)

/-- A child that is known to be running is reset. -/
def stopped (h : Handling H γ) (results : Results) (c : γ) : γ :=
  if results.get? (h.id c) = some .running then h.reset c else c

theorem stopped_watched (h : Handling H γ) (results : Results) (w : Watched h) :
    (stopped h.watched results w).calls = w.calls ∧
      (stopped h.watched results w).now = stopped h results w.now := by
  unfold stopped
  have hid : h.watched.id w = h.id w.now := rfl
  rw [hid]
  split
  · exact ⟨rfl, rfl⟩
  · exact ⟨rfl, rfl⟩

theorem cancel_eq_map (h : Handling H γ) (results : Results) (cs : List γ) (x : Stage H) :
    (cancel h results cs x).1 = cs.map (stopped h results) := by
  induction cs generalizing x with
  | nil => rfl
  | cons c cs ih =>
    simp only [cancel, List.map_cons, stopped, beq_iff_eq]
    split
    · exact congrArg (h.reset c :: ·) (ih _)
    · exact congrArg (c :: ·) (ih _)

/-- A run goes on, succeeds with its children as they are, or ends otherwise, which may cancel some. -/
theorem settle_cases (h : Handling H γ) (s : Settings) (results : Results) (cs : List γ)
    (x : Stage H) :
    ((settle h s results cs x).outcome = .ok .running ∧
      (settle h s results cs x).state = (results, cs)) ∨
    ((settle h s results cs x).outcome = .ok .success ∧
      (settle h s results cs x).state = (.nil, cs) ∧
      decide s cs.length (count h results cs .success) (count h results cs .failure) =
        some .success) ∨
    (((settle h s results cs x).outcome = .ok .failure ∨
        (settle h s results cs x).outcome = .ok .error) ∧
      (settle h s results cs x).state =
        (.nil, if s.abortOnFailure then cs.map (stopped h results) else cs)) := by
  have hfinish : ∀ v, v ≠ .success → (finish h s results cs x v).outcome = .ok v ∧
      (finish h s results cs x v).state =
        (.nil, if s.abortOnFailure then cs.map (stopped h results) else cs) := by
    intro v hv
    rw [← cancel_eq_map h results cs x]
    unfold finish
    by_cases hs : s.abortOnFailure = true
    · rw [if_pos ⟨hv, hs⟩, if_pos hs]
      exact ⟨rfl, rfl⟩
    · rw [if_neg fun hboth => hs hboth.2, if_neg hs]
      exact ⟨rfl, rfl⟩
  unfold settle
  by_cases herror : 0 < count h results cs .error
  · rw [if_pos herror]
    obtain ⟨ho, hstate⟩ := hfinish .error (by simp)
    exact .inr (.inr ⟨.inr ho, hstate⟩)
  · rw [if_neg herror]
    rcases decide_cases s cs.length (count h results cs .success) (count h results cs .failure) with
      hd | hd | hd
    · rw [hd]
      exact .inl ⟨rfl, rfl⟩
    · rw [hd]
      exact .inr (.inl ⟨rfl, rfl, rfl⟩)
    · simp only [hd]
      obtain ⟨ho, hstate⟩ := hfinish .failure (by simp)
      exact .inr (.inr ⟨.inl ho, hstate⟩)

/-- A parallel that is to cancel the running children when a run fails goes over all children and then
resets those that are known to be running. -/
theorem tick_cancels (hnodup : (cs.map h.id).Nodup) (hs : s.abortOnFailure = true)
    (ho : (tick h s results cs x).outcome = .ok r) (hr : r ≠ .running) (hr' : r ≠ .success) :
    ∃ results' ds,
      List.Forall₂ (Advanced h (s.maxConcurrency ≠ none) False results results') cs ds ∧
      (tick h s results cs x).state.2 = ds.map (stopped h results') := by
  simp only [tick] at ho ⊢
  cases hout : (advance h s.maxConcurrency results cs x).outcome with
  | error p =>
    simp only [hout] at ho
    cases ho
  | ok u =>
    simp only [hout] at ho ⊢
    have hadvanced : List.Forall₂ (Advanced h (s.maxConcurrency ≠ none) False results _) cs _ :=
      advance_advanced s.maxConcurrency results cs x hnodup (fun _ _ => rfl) id
        (fun p hp => by rw [hout] at hp; cases hp)
    refine ⟨_, _, hadvanced, ?_⟩
    rcases settle_cases h s (advance h s.maxConcurrency results cs x).state.1
      (advance h s.maxConcurrency results cs x).state.2
      (advance h s.maxConcurrency results cs x).stage with
      ⟨ho', -⟩ | ⟨ho', -, -⟩ | ⟨-, hstate⟩
    · rw [ho'] at ho
      exact absurd (Except.ok.inj ho).symm hr
    · rw [ho'] at ho
      exact absurd (Except.ok.inj ho).symm hr'
    · rw [hstate, if_pos hs]

/-! ## What is known of the children -/

/-- A run may succeed while children are running. -/
def Settings.Hasty (s : Settings) : Prop :=
  s.earlyExit = true ∧ (s.policy = .requireOne ∨ s.policy = .requireMajority)

/-- What a parallel knows of a child is right, and it knows of every running one, if it leaves none of
them behind when a run ends. -/
structure Knows (id : γ → String) (status : γ → Status) (s : Settings) (results : Results) (c : γ) :
    Prop where
  told : ∀ r, results.get? (id c) = some r → status c = r
  tracks : s.abortOnFailure = true → ¬ s.Hasty → status c = .running →
    results.get? (id c) = some .running

theorem knows_of_still {id : γ → String} {c : γ} (hstill : status c ≠ .running) :
    Knows id status s .nil c where
  told := nofun
  tracks _ _ hr := absurd hr hstill

theorem Knows.same {id : γ → String} {c d : γ} (hk : Knows id status s results c) (hid : id d = id c)
    (hstatus : status d = status c) (hr : results'.get? (id c) = results.get? (id c)) :
    Knows id status s results' d where
  told r hget := by
    rw [hstatus]
    exact hk.told r (by rw [← hr, ← hid, hget])
  tracks hs hh hrunning := by
    rw [hid, hr]
    exact hk.tracks hs hh (hstatus ▸ hrunning)

theorem Advanced.knows (a : h.Shows status) {capped cut : Prop} {c d : γ}
    (hk : Knows h.id status s results c) (hd : Advanced h capped cut results results' c d) :
    Knows h.id status s results' d := by
  cases hd with
  | ticked x ho hr =>
    obtain ⟨hstatus, -⟩ := a.ticked c x _ ho
    rw [← a.keeps.tick c x] at hr
    refine ⟨fun r' hr' => ?_, fun _ _ hrunning => ?_⟩
    · rw [hr] at hr'
      rw [hstatus, Option.some.inj hr']
    · rw [hr, ← hstatus, hrunning]
  | unwound x ho hcut hr => exact hk.same (a.keeps.tick c x) (a.unwound c x _ ho) hr
  | left hleft hr => exact hk.same rfl rfl hr

theorem advanced_knows (a : h.Shows status) {capped cut : Prop}
    (hk : ∀ c ∈ cs, Knows h.id status s results c)
    (hcs : List.Forall₂ (Advanced h capped cut results results') cs ds) :
    ∀ d ∈ ds, Knows h.id status s results' d := by
  induction hcs with
  | nil => exact nofun
  | cons hd _ ih =>
    obtain ⟨hc, hcs⟩ := List.forall_mem_cons.1 hk
    exact List.forall_mem_cons.2 ⟨hd.knows a hc, ih hcs⟩

theorem settle_knows (a : h.Shows status) (hk : ∀ c ∈ cs, Knows h.id status s results c)
    (x : Stage H) : ∀ c ∈ (settle h s results cs x).state.2,
      Knows h.id status s (settle h s results cs x).state.1 c := by
  rcases settle_cases h s results cs x with ⟨-, hstate⟩ | ⟨-, hstate, hd⟩ | ⟨-, hstate⟩
  · rw [hstate]
    exact hk
  · rw [hstate]
    refine fun c hc => ⟨nofun, fun hs hh hr => ?_⟩
    have hslow : s.earlyExit = false ∨ s.policy = .requireAll ∨ s.policy = .custom := by
      unfold Settings.Hasty at hh
      cases hp : s.policy with
      | requireAll => exact .inr (.inl rfl)
      | custom => exact .inr (.inr rfl)
      | requireOne | requireMajority => exact .inl (by simpa [hp] using hh)
    exact absurd hr (still_of_decide hslow (fun c hc hr => (hk c hc).tracks hs hh hr) hd c hc)
  · rw [hstate]
    intro d hd
    refine ⟨nofun, fun hs hh hr => ?_⟩
    rw [if_pos hs] at hd
    obtain ⟨c, hc, rfl⟩ := List.mem_map.1 hd
    unfold stopped at hr
    split at hr
    · exact absurd hr (a.reset c)
    · next hget => exact absurd ((hk c hc).tracks hs hh hr) hget

/-- What is known of the children stays right in a tick, whatever becomes of it. -/
theorem tick_knows (a : h.Shows status) (hnodup : (cs.map h.id).Nodup)
    (hk : ∀ c ∈ cs, Knows h.id status s results c) (x : Stage H) :
    ∀ c ∈ (tick h s results cs x).state.2,
      Knows h.id status s (tick h s results cs x).state.1 c := by
  have hknows := advanced_knows a hk (advance_advanced s.maxConcurrency results cs x hnodup
    (fun _ _ => rfl) (fun _ => trivial) (fun _ _ => trivial))
  simp only [tick]
  split
  · exact hknows
  · exact settle_knows a hknows _

end Parallel

end Conduct
