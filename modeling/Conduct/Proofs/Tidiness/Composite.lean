import Conduct.Proofs.Tidiness.Paused
import Mathlib.Data.List.Nodup
import Mathlib.Data.List.TakeWhile

/-! What a tick leaves of a run of a sequence or a selector.

Main statements: `Sequence.walk_tidy` and `Selector.tick_tidy`.
-/

set_option autoImplicit false

namespace Conduct

variable {H : Host} {γ : Type} {h : Handling H γ} {status : γ → Status} {Shape Good : γ → Prop}
  {r : Status}

/-! ## Sequences -/

namespace Sequence

/-- No child is running but the first one that did not finish. -/
def Awaits (id : γ → String) (status : γ → Status) (completed : List String) : List γ → Prop
  | [] => True
  | c :: cs =>
    if id c ∈ completed then status c ≠ .running ∧ Awaits id status completed cs else Still status cs

theorem awaits_of_still (id : γ → String) (completed : List String) {cs : List γ}
    (hs : Still status cs) : Awaits id status completed cs := by
  induction cs with
  | nil => trivial
  | cons c cs ih =>
    obtain ⟨hc, hcs⟩ := still_cons.1 hs
    unfold Awaits
    split
    · exact ⟨hc, ih hcs⟩
    · exact hcs

theorem PausedFrom.awaits {id : γ → String} {index : Nat} {run : Run} {cs : List γ}
    (hp : PausedFrom id status index run cs) : Awaits id status run.completed cs := by
  obtain ⟨pre, c, post, ⟨rfl, -, hbefore, hafter⟩, -, hdone, hc⟩ := hp
  induction pre with
  | nil =>
    simp only [List.nil_append, Awaits, if_neg hc]
    exact hafter
  | cons d pre ih =>
    obtain ⟨hd, hbefore⟩ := still_cons.1 hbefore
    obtain ⟨hdd, hdone⟩ := List.forall_mem_cons.1 hdone
    simp only [List.cons_append, Awaits, if_pos hdd]
    exact ⟨hd, ih hbefore hdone⟩

/-- What a walk from an index on leaves when it reports a status. -/
structure Left (id : γ → String) (status : γ → Status) (Good : γ → Prop) (index : Nat)
    (completed : List String) (r : Status) (run : Run) (cs : List γ) : Prop where
  good : ∀ c ∈ cs, Good c
  idle : r ≠ .running → run = {} ∧ Still status cs
  paused : r = .running → completed ⊆ run.completed ∧ PausedFrom id status index run cs

variable {id : γ → String} {index : Nat} {completed : List String} {run : Run} {c : γ} {cs : List γ}

theorem Left.push {completed' : List String} (l : Left id status Good (index + 1) completed' r run cs)
    (hgood : Good c) (hstill : status c ≠ .running) (hid : id c ∈ completed')
    (hsub : completed ⊆ completed') : Left id status Good index completed r run (c :: cs) where
  good := List.forall_mem_cons.2 ⟨hgood, l.good⟩
  idle hr := ⟨(l.idle hr).1, still_cons.2 ⟨hstill, (l.idle hr).2⟩⟩
  paused hr := by
    obtain ⟨hsub', pre, d, post, ⟨rfl, hd, hbefore, hafter⟩, hcursor, hdone, hnew⟩ := l.paused hr
    refine ⟨fun i hi => hsub' (hsub hi), c :: pre, d, post, ?_, ?_, ?_, hnew⟩
    · exact ⟨rfl, hd, still_cons.2 ⟨hstill, hbefore⟩, hafter⟩
    · rw [hcursor, List.length_cons]
      omega
    · exact List.forall_mem_cons.2 ⟨hsub' hid, hdone⟩

theorem Left.stop (hgood : Good c) (hrest : ∀ d ∈ cs, Good d) (hr : r ≠ .running)
    (hc : status c ≠ .running) (hstill : Still status cs) :
    Left id status Good index completed r {} (c :: cs) where
  good := List.forall_mem_cons.2 ⟨hgood, hrest⟩
  idle _ := ⟨rfl, still_cons.2 ⟨hc, hstill⟩⟩
  paused hr' := absurd hr' hr

theorem walk_tidy (a : h.Tidy status Shape Good) (s : Settings) (run : Run) (index : Nat)
    (cs : List γ) (stage : Stage H) (hgood : ∀ c ∈ cs, Good c)
    (hwait : Awaits h.id status run.completed cs)
    (ho : (walk h s run index cs stage).outcome = .ok r) :
    Left h.id status Good index run.completed r (walk h s run index cs stage).state.1
      (walk h s run index cs stage).state.2 := by
  induction cs generalizing run index stage with
  | nil =>
    simp only [walk] at ho ⊢
    refine ⟨hgood, fun _ => ⟨rfl, still_nil⟩, ?_⟩
    rintro rfl
    cases hf : run.failed with
    | true => simp [hf] at ho
    | false => simp [hf] at ho
  | cons c cs ih =>
    obtain ⟨hc, hcs⟩ := List.forall_mem_cons.1 hgood
    by_cases hskip : run.completed.contains (h.id c) = true
    · have hmem := List.contains_iff_mem.1 hskip
      simp only [Awaits, if_pos hmem] at hwait
      simp only [walk] at ho ⊢
      rw [if_pos hskip] at ho ⊢
      exact (ih run (index + 1) stage hcs hwait.2 ho).push hc hwait.1 hmem (fun _ hi => hi)
    · have hnew : h.id c ∉ run.completed := fun hi => hskip (List.contains_iff_mem.2 hi)
      simp only [Awaits, if_neg hnew] at hwait
      simp only [walk] at ho ⊢
      rw [if_neg hskip] at ho ⊢
      cases hout : (h.tick c stage).outcome with
      | error p =>
        simp only [hout] at ho
        cases ho
      | ok reported =>
        obtain ⟨hgood', hstatus, hready⟩ := a.ticked c stage reported hc hout
        have hid := a.id c stage
        cases reported with
        | ready => exact absurd rfl hready
        | running =>
          simp only [hout] at ho ⊢
          refine ⟨List.forall_mem_cons.2 ⟨hgood', hcs⟩, fun hr => absurd (Except.ok.inj ho).symm hr,
            fun _ => ⟨fun _ hi => hi, [], _, cs, ⟨rfl, hstatus, still_nil, hwait⟩, rfl, ?_, ?_⟩⟩
          · exact fun _ hd => absurd hd List.not_mem_nil
          · rw [hid]
            exact hnew
        | error =>
          simp only [hout] at ho ⊢
          cases ho
          exact .stop hgood' hcs (by decide) (by rw [hstatus]; decide) hwait
        | success =>
          have hdone : status (h.tick c stage).state ≠ .running := by
            rw [hstatus]
            decide
          by_cases hstop : s.stopOnFirstSuccess = true
          · simp only [hout, if_pos hstop] at ho ⊢
            cases ho
            exact .stop hgood' hcs (by decide) hdone hwait
          · simp only [hout, if_neg hstop] at ho ⊢
            refine (ih (run.complete (h.id c)) (index + 1) _ hcs (awaits_of_still _ _ hwait) ho).push
              hgood' hdone ?_ (List.subset_cons_self _ _)
            rw [hid]
            exact List.mem_cons_self
        | failure =>
          have hdone : status (h.tick c stage).state ≠ .running := by
            rw [hstatus]
            decide
          by_cases hstop : s.abortOnFailure = true
          · simp only [hout, if_pos hstop] at ho ⊢
            cases ho
            exact .stop hgood' hcs (by decide) hdone hwait
          · simp only [hout, if_neg hstop] at ho ⊢
            refine (ih { run.complete (h.id c) with failed := true } (index + 1) _ hcs
              (awaits_of_still _ _ hwait) ho).push hgood' hdone ?_ (List.subset_cons_self _ _)
            rw [hid]
            exact List.mem_cons_self

end Sequence

/-! ## Selectors -/

namespace Selector

variable {id : γ → String} {order completed present : List String} {i j : String}

theorem Next.skip (hn : Next (j :: order) completed present i) (hi : i ∈ present)
    (hj : j ∈ completed ∨ j ∉ present) : Next order completed present i := by
  obtain ⟨hnew, before, after, he, hbefore⟩ := hn
  cases before with
  | nil =>
    simp only [List.nil_append, List.cons.injEq] at he
    obtain ⟨rfl, -⟩ := he
    rcases hj with hj | hj
    · exact absurd hj hnew
    · exact absurd hi hj
  | cons k before =>
    simp only [List.cons_append, List.cons.injEq] at he
    exact ⟨hnew, before, after, he.2, (List.forall_mem_cons.1 hbefore).2⟩

theorem Next.eq (hn : Next (j :: order) completed present i) (hj : j ∉ completed)
    (hp : j ∈ present) : i = j := by
  obtain ⟨-, before, after, he, hbefore⟩ := hn
  cases before with
  | nil =>
    simp only [List.nil_append, List.cons.injEq] at he
    exact he.1.symm
  | cons k before =>
    simp only [List.cons_append, List.cons.injEq] at he
    obtain ⟨rfl, -⟩ := he
    rcases (List.forall_mem_cons.1 hbefore).1 with hk | hk
    · exact absurd hk hj
    · exact absurd hp hk

theorem Next.append (hn : Next order completed present i) (more : List String) :
    Next (order ++ more) completed present i := by
  obtain ⟨hnew, before, after, rfl, hbefore⟩ := hn
  exact ⟨hnew, before, after ++ more, by rw [List.append_assoc, List.cons_append], hbefore⟩

/-- What a walk over some ids leaves when it reports a status, after others that are gone by. -/
structure Left (id : γ → String) (status : γ → Status) (Good : γ → Prop) (order : List String)
    (start : Run) (r : Status) (run : Run) (cs : List γ) : Prop where
  good : ∀ c ∈ cs, Good c
  idle : r ≠ .running → run = {} ∧ Still status cs
  paused : r = .running → run.order = start.order ∧ run.planned = start.planned ∧
    ∃ pre c post, Alone status cs pre c post ∧ run.cursor = pre.length ∧
      Next order run.completed (cs.map id) (id c)

theorem walk_tidy (a : h.Tidy status Shape Good) (run : Run) (passed ids : List String)
    (cs : List γ) (stage : Stage H) (hgood : ∀ c ∈ cs, Good c) (hnodup : (cs.map h.id).Nodup)
    (hpassed : ∀ i ∈ passed, i ∈ run.completed ∨ i ∉ cs.map h.id)
    (hwait : ∀ c ∈ cs, status c = .running → Next ids run.completed (cs.map h.id) (h.id c))
    (ho : (walk h run ids cs stage).outcome = .ok r) :
    Left h.id status Good (passed ++ ids) run r (walk h run ids cs stage).state.1
      (walk h run ids cs stage).state.2 := by
  induction ids generalizing run passed cs stage with
  | nil =>
    simp only [walk] at ho ⊢
    cases ho
    refine ⟨hgood, fun _ => ⟨rfl, fun c hc hr => ?_⟩, fun hr => absurd hr (by decide)⟩
    obtain ⟨-, before, after, he, -⟩ := hwait c hc hr
    simp at he
  | cons i ids ih =>
    have hgo : ∀ hi : i ∈ run.completed ∨ i ∉ cs.map h.id,
        (walk h run ids cs stage).outcome = .ok r →
        Left h.id status Good (passed ++ i :: ids) run r (walk h run ids cs stage).state.1
          (walk h run ids cs stage).state.2 := by
      intro hi ho
      have hl := ih run (passed ++ [i]) cs stage hgood hnodup
        (List.forall_mem_append.2 ⟨hpassed, List.forall_mem_singleton.2 hi⟩)
        (fun c hc hr => (hwait c hc hr).skip (List.mem_map_of_mem hc) hi) ho
      rwa [List.append_assoc] at hl
    simp only [walk] at ho ⊢
    generalize hd : (cs.dropWhile fun c => h.id c != i) = rest at ho ⊢
    cases rest with
    | nil =>
      have habsent : i ∉ cs.map h.id := by
        intro hmem
        obtain ⟨c, hc, he⟩ := List.mem_map.1 hmem
        exact absurd he (bne_iff_ne.1 (List.dropWhile_eq_nil_iff.1 hd c hc))
      exact hgo (.inr habsent) ho
    | cons c after =>
      obtain ⟨hcs, rfl⟩ := split_at hd
      by_cases hskip : run.completed.contains (h.id c) = true
      · dsimp only at ho ⊢
        rw [if_pos hskip] at ho ⊢
        exact hgo (.inl (List.contains_iff_mem.1 hskip)) ho
      · have hnew : h.id c ∉ run.completed := fun hi => hskip (List.contains_iff_mem.2 hi)
        dsimp only at ho ⊢
        rw [if_neg hskip] at ho ⊢
        generalize (cs.takeWhile fun d => h.id d != h.id c) = before at hcs ho ⊢
        subst hcs
        have hmem : c ∈ before ++ c :: after := List.mem_append_right _ List.mem_cons_self
        have hids : (before ++ (h.tick c stage).state :: after).map h.id =
            (before ++ c :: after).map h.id := by
          simp only [List.map_append, List.map_cons, a.id]
        have hothers : ∀ d ∈ before ++ after, status d ≠ .running := by
          intro d hdmem hr
          have hmem' : d ∈ before ++ c :: after := by
            rcases List.mem_append.1 hdmem with hdm | hdm
            · exact List.mem_append_left _ hdm
            · exact List.mem_append_right _ (List.mem_cons_of_mem _ hdm)
          have he := (hwait d hmem' hr).eq hnew (List.mem_map_of_mem hmem)
          simp only [List.map_append, List.map_cons] at hnodup
          have hout := (List.nodup_cons.1 (List.nodup_middle.1 hnodup)).1
          rw [← List.map_append, ← he] at hout
          exact hout (List.mem_map_of_mem hdmem)
        obtain ⟨hbefore, hafter⟩ := List.forall_mem_append.1 hothers
        obtain ⟨hgoodb, hgoodc⟩ := List.forall_mem_append.1 hgood
        obtain ⟨hc, hgooda⟩ := List.forall_mem_cons.1 hgoodc
        cases hout : (h.tick c stage).outcome with
        | error p =>
          simp only [hout] at ho
          cases ho
        | ok reported =>
          obtain ⟨hgood', hstatus, hready⟩ := a.ticked c stage reported hc hout
          have hall : ∀ d ∈ before ++ (h.tick c stage).state :: after, Good d :=
            List.forall_mem_append.2 ⟨hgoodb, List.forall_mem_cons.2 ⟨hgood', hgooda⟩⟩
          have hstill : (h.tick c stage).outcome ≠ .ok .running →
              Still status (before ++ (h.tick c stage).state :: after) := by
            intro hr
            refine still_append.2 ⟨hbefore, still_cons.2 ⟨?_, hafter⟩⟩
            rw [hstatus]
            rintro rfl
            exact hr hout
          cases reported with
          | ready => exact absurd rfl hready
          | running =>
            simp only [hout] at ho ⊢
            cases ho
            refine ⟨hall, fun hr => absurd rfl hr, fun _ => ⟨rfl, rfl, before, _, after,
              ⟨rfl, hstatus, hbefore, hafter⟩, rfl, ?_, passed, ids, ?_, ?_⟩⟩
            · rw [a.id]
              exact hnew
            · rw [a.id]
            · rw [hids]
              exact hpassed
          | success =>
            simp only [hout] at ho ⊢
            cases ho
            exact ⟨hall, fun _ => ⟨rfl, hstill (by rw [hout]; decide)⟩,
              fun hr => absurd hr (by decide)⟩
          | error =>
            simp only [hout] at ho ⊢
            cases ho
            exact ⟨hall, fun _ => ⟨rfl, hstill (by rw [hout]; decide)⟩,
              fun hr => absurd hr (by decide)⟩
          | failure =>
            have hst := hstill (by rw [hout]; decide)
            simp only [hout] at ho ⊢
            have hl := ih (run.complete (h.id c)) (passed ++ [h.id c]) _ _ hall (hids ▸ hnodup)
              (List.forall_mem_append.2 ⟨fun j hj => ?_, List.forall_mem_singleton.2 ?_⟩)
              (fun d hd hr => absurd hr (hst d hd)) ho
            · rw [List.append_assoc] at hl
              exact ⟨hl.good, hl.idle, hl.paused⟩
            · rw [hids]
              exact (hpassed j hj).imp_left (List.mem_cons_of_mem _)
            · exact .inl List.mem_cons_self

theorem tick_tidy (a : h.Tidy status Shape Good) (s : Settings) (run : Run) (g : Random.Generator)
    (cs : List γ) (stage : Stage H) (hgood : ∀ c ∈ cs, Good c) (hnodup : (cs.map h.id).Nodup)
    (hrun : Still status cs ∨ Paused h.id status run cs)
    (ho : (tick h s run g cs stage).outcome = .ok r) :
    (∀ c ∈ (tick h s run g cs stage).state.2, Good c) ∧
      (r ≠ .running → (tick h s run g cs stage).state.1.1 = {} ∧
        Still status (tick h s run g cs stage).state.2) ∧
      (r = .running → Paused h.id status (tick h s run g cs stage).state.1.1
        (tick h s run g cs stage).state.2) := by
  have hwait : ∀ c ∈ cs, status c = .running →
      Next (prepare s run (cs.map h.id) g).1.order (prepare s run (cs.map h.id) g).1.completed
        (cs.map h.id) (h.id c) := by
    intro c hc hr
    rcases hrun with hs | ⟨hplanned, pre, d, post, ⟨rfl, -, hbefore, hafter⟩, -, hnext⟩
    · exact absurd hr (hs c hc)
    · obtain rfl : c = d := by
        rcases List.mem_append.1 hc with hc | hc
        · exact absurd hr (hbefore c hc)
        · rcases List.mem_cons.1 hc with hc | hc
          · exact hc
          · exact absurd hr (hafter c hc)
      obtain ⟨more, he⟩ := extend_eq run.order ((pre ++ c :: post).map h.id)
      simp only [prepare, hplanned, if_true, he]
      exact hnext.append more
  have hl := walk_tidy a (prepare s run (cs.map h.id) g).1 [] _ cs stage hgood hnodup
    (fun _ hi => absurd hi List.not_mem_nil) hwait ho
  refine ⟨hl.good, hl.idle, fun hr => ?_⟩
  obtain ⟨horder, hplanned, pre, c, post, halone, hcursor, hnext⟩ := hl.paused hr
  refine ⟨hplanned, pre, c, post, halone, hcursor, ?_⟩
  rw [show (tick h s run g cs stage).state.1.1.order = _ from horder]
  exact hnext

end Selector

end Conduct
