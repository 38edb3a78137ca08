import Conduct.Proofs.Cancellation.Parallel

/-! Which children a tick of a parallel ticks.

The children of a parallel may be other ones at every tick. A tick goes over the present ones that
have not come to an end in the run, as they are stored, and ticks as many of the first of them as are
allowed at a time. All others are left as they are, and what is known of absent ones plays no part.
Main statements: `advance_schedules` and `Underway.schedules`.
-/

set_option autoImplicit false

namespace Conduct

variable {H : Host} {γ : Type}

theorem tickedIds_append (es news : List Event) :
    tickedIds (es ++ news) = tickedIds es ++ tickedIds news := List.filterMap_append

theorem tickedIds_resets (ids : List String) : tickedIds (ids.map .reset) = [] := by
  induction ids with
  | nil => rfl
  | cons id ids ih => exact ih

namespace Parallel

variable {h : Handling H γ} {s : Settings} {results results' : Results} {es news : List Event}
  {cs ds : List γ} {id : String}

/-! ## What is due in a tick -/

/-- A child has come to an end in a run: it reported a terminal status. -/
def ended (es : List Event) (id : String) : Bool :=
  es.any fun
    | .ticked id' (some status) => id' == id && status.isTerminal
    | _ => false

/-- The first items, if there is a limit. -/
def firstOf {α : Type} : Option Nat → List α → List α
  | none, items => items
  | some limit, items => items.take limit

/-- The children that a tick comes to: the first of those that have not come to an end. -/
def Settings.due (s : Settings) (es : List Event) (ids : List String) : List String :=
  firstOf s.maxConcurrency (ids.filter fun id => !ended es id)

theorem ended_iff :
    ended es id = true ↔ ∃ status, status.isTerminal = true ∧ Reported es id status := by
  unfold ended Reported
  rw [List.any_eq_true]
  constructor
  · rintro ⟨e, he, hterminal⟩
    cases e with
    | reset id' => cases hterminal
    | ticked id' report =>
      cases report with
      | none => cases hterminal
      | some status =>
        obtain ⟨hid, hterminal⟩ := Bool.and_eq_true_iff.1 hterminal
        exact ⟨status, hterminal, eq_of_beq hid ▸ he⟩
  · rintro ⟨status, hterminal, he⟩
    exact ⟨_, he, Bool.and_eq_true_iff.2 ⟨beq_self_eq_true id, hterminal⟩⟩

theorem Recalls.finished_eq (hr : Recalls results es) (id : String) :
    finished results id = ended es id := by
  rw [Bool.eq_iff_iff, ended_iff]
  unfold finished
  constructor
  · intro hf
    cases hget : results.get? id with
    | none =>
      rw [hget] at hf
      cases hf
    | some status =>
      rw [hget] at hf
      exact ⟨status, hf, (hr id status hf).1 hget⟩
  · rintro ⟨status, hterminal, hreported⟩
    rw [(hr id status hterminal).2 hreported]
    exact hterminal

theorem firstOf_cons {α : Type} {limit : Option Nat} (hl : limit ≠ some 0) (item : α)
    (items : List α) : firstOf limit (item :: items) = item :: firstOf (limit.map (· - 1)) items := by
  cases limit with
  | none => rfl
  | some n =>
    cases n with
    | zero => exact absurd rfl hl
    | succ n => rfl

theorem firstOf_zero {α : Type} (items : List α) : firstOf (some 0) items = [] := rfl

theorem mem_of_mem_firstOf {α : Type} {limit : Option Nat} {items : List α} {item : α}
    (hi : item ∈ firstOf limit items) : item ∈ items := by
  cases limit with
  | none => exact hi
  | some n => exact List.mem_of_mem_take hi

/-! ## One tick -/

/-- The ticked children are the first of those that are due, and all of them unless the tick was cut
off. All others are left as they are. -/
structure Scheduled (h : Handling H γ) (due : List String) (cut : Prop) (cs ds : List γ)
    (news : List Event) : Prop where
  first : tickedIds news <+: due
  all : ¬ cut → tickedIds news = due
  left : List.Forall₂ (fun c d => h.id c ∈ tickedIds news ∨ d = c) cs ds

theorem left_same (h : Handling H γ) (ids : List String) (cs : List γ) :
    List.Forall₂ (fun c d => h.id c ∈ ids ∨ d = c) cs cs := List.forall₂_same.2 fun _ _ => .inr rfl

/-- The children are ticked as they are stored, which is by induction on what is left of them. -/
theorem advance_schedules (h : Handling H γ) (budget : Option Nat) (results : Results) (cs : List γ)
    (x : Stage H.recorded) (hnodup : (cs.map h.id).Nodup) :
    ∃ news, (advance h.recorded budget results cs x).stage.events = x.events ++ news ∧
      Scheduled h (firstOf budget ((cs.map h.id).filter fun id => !finished results id))
        (∃ p, (advance h.recorded budget results cs x).outcome = .error p) cs
        (advance h.recorded budget results cs x).state.2 news := by
  induction cs generalizing budget results x with
  | nil =>
    have hdue : firstOf budget (([].map h.id).filter fun id => !finished results id) = [] := by
      cases budget with
      | none => rfl
      | some n => exact List.take_nil
    exact ⟨[], (List.append_nil _).symm, hdue ▸ List.prefix_rfl, fun _ => hdue.symm, .nil⟩
  | cons c cs ih =>
    rw [List.map_cons, List.nodup_cons] at hnodup
    obtain ⟨hnew, hnodup⟩ := hnodup
    have hid : h.recorded.id c = h.id c := rfl
    rw [List.map_cons, List.filter_cons]
    simp only [advance, hid]
    cases hf : finished results (h.id c) with
    | true =>
      simp only [Bool.true_or, if_true, Bool.not_true, Bool.false_eq_true, if_false]
      obtain ⟨news, he, hs⟩ := ih budget results x hnodup
      exact ⟨news, he, hs.first, hs.all, .cons (.inr rfl) hs.left⟩
    | false =>
      simp only [Bool.false_or, Bool.not_false, if_true]
      by_cases hb : budget = some 0
      · subst hb
        simp only [BEq.rfl, if_true]
        obtain ⟨news, he, hs⟩ := ih (some 0) results x hnodup
        rw [firstOf_zero] at hs ⊢
        exact ⟨news, he, hs.first, hs.all, .cons (.inr rfl) hs.left⟩
      · rw [firstOf_cons hb, if_neg (mt eq_of_beq hb)]
        have he := h.events_recorded c x
        have ho := h.outcome_recorded c x
        cases hout : (h.tick c x.forget).outcome with
        | error p =>
          rw [hout] at he ho
          simp only [ho]
          refine ⟨[.ticked (h.id c) none], he, ⟨_, rfl⟩, fun hcut => absurd ⟨p, rfl⟩ hcut, ?_⟩
          exact .cons (.inl (List.mem_singleton_self _)) (left_same h _ cs)
        | ok status =>
          rw [hout] at he ho
          simp only [ho]
          obtain ⟨news, hrest, hs⟩ := ih (budget.map (· - 1)) (results.insert (h.id c) status)
            (h.recorded.tick c x).stage hnodup
          -- What the child reports is not what is known of the ones after it.
          have hsame : (cs.map h.id).filter (fun id => !finished (results.insert (h.id c) status) id) =
              (cs.map h.id).filter fun id => !finished results id := by
            refine List.filter_congr fun id hmem => ?_
            have hne : id ≠ h.id c := fun he => hnew (he ▸ hmem)
            rw [finished, finished, Dict.From.get?_insert_of_ne _ hne]
          rw [hsame] at hs
          rw [he, List.append_assoc] at hrest
          refine ⟨.ticked (h.id c) (some status) :: news, hrest, ?_, fun hcut => ?_, ?_⟩
          · exact List.prefix_cons_inj _ |>.2 hs.first
          · exact congrArg _ (hs.all hcut)
          · refine .cons (.inl List.mem_cons_self) (hs.left.imp fun c d hcd => ?_)
            exact hcd.imp_left (List.mem_cons_of_mem _)

/-! ## What is known of absent children -/

/-- The same is known of all these children. -/
def AlikeOn (ids : List String) (results results' : Results) : Prop :=
  ∀ id ∈ ids, results'.get? id = results.get? id

theorem AlikeOn.insert {ids : List String} (ha : AlikeOn ids results results') (id : String)
    (status : Status) : AlikeOn ids (results.insert id status) (results'.insert id status) := by
  intro id' hmem
  by_cases hid : id' = id
  · rw [hid, Dict.From.get?_insert_self, Dict.From.get?_insert_self]
  · rw [Dict.From.get?_insert_of_ne _ hid, Dict.From.get?_insert_of_ne _ hid, ha id' hmem]

theorem advance_alike {ids : List String} (ha : AlikeOn ids results results') (budget : Option Nat)
    (hids : ∀ c ∈ cs, h.id c ∈ ids) (x : Stage H) :
    (advance h budget results' cs x).outcome = (advance h budget results cs x).outcome ∧
      (advance h budget results' cs x).state.2 = (advance h budget results cs x).state.2 ∧
      (advance h budget results' cs x).stage = (advance h budget results cs x).stage ∧
      AlikeOn ids (advance h budget results cs x).state.1
        (advance h budget results' cs x).state.1 := by
  induction cs generalizing budget results results' x with
  | nil => exact ⟨rfl, rfl, rfl, ha⟩
  | cons c cs ih =>
    obtain ⟨hc, hcs⟩ := List.forall_mem_cons.1 hids
    have hfinished : finished results' (h.id c) = finished results (h.id c) := by
      rw [finished, finished, ha _ hc]
    simp only [advance, hfinished]
    split
    · obtain ⟨ho, hd, hx, hr⟩ := ih ha budget hcs x
      exact ⟨ho, congrArg (c :: ·) hd, hx, hr⟩
    · cases hout : (h.tick c x).outcome with
      | error p => exact ⟨rfl, rfl, rfl, ha⟩
      | ok status =>
        obtain ⟨ho, hd, hx, hr⟩ :=
          ih (ha.insert (h.id c) status) (budget.map (· - 1)) hcs (h.tick c x).stage
        exact ⟨ho, congrArg ((h.tick c x).state :: ·) hd, hx, hr⟩

theorem count_alike (ha : AlikeOn (cs.map h.id) results results') (status : Status) :
    count h results' cs status = count h results cs status := by
  unfold count
  refine List.countP_congr fun c hc => ?_
  rw [ha _ (List.mem_map_of_mem hc)]

theorem cancel_alike (ha : AlikeOn (cs.map h.id) results results') (x : Stage H) :
    cancel h results' cs x = cancel h results cs x := by
  induction cs generalizing x with
  | nil => rfl
  | cons c cs ih =>
    obtain ⟨hc, hcs⟩ := List.forall_mem_cons.1 ha
    simp only [cancel, hc, ih hcs]

theorem settle_alike (ha : AlikeOn (cs.map h.id) results results') (x : Stage H) :
    (settle h s results' cs x).outcome = (settle h s results cs x).outcome ∧
      (settle h s results' cs x).state.2 = (settle h s results cs x).state.2 ∧
      (settle h s results' cs x).stage = (settle h s results cs x).stage := by
  have hfinish : ∀ status, finish h s results' cs x status = finish h s results cs x status := by
    intro status
    unfold finish
    rw [cancel_alike ha]
  simp only [settle, count_alike ha, hfinish]
  split
  · exact ⟨rfl, rfl, rfl⟩
  · split
    · exact ⟨rfl, rfl, rfl⟩
    · exact ⟨rfl, rfl, rfl⟩

/-- A tick makes nothing of what is known of absent children. -/
theorem tick_alike (k : h.Keeps h.id) (ha : AlikeOn (cs.map h.id) results results') (x : Stage H) :
    (tick h s results' cs x).outcome = (tick h s results cs x).outcome ∧
      (tick h s results' cs x).state.2 = (tick h s results cs x).state.2 ∧
      (tick h s results' cs x).stage = (tick h s results cs x).stage := by
  obtain ⟨ho, hd, hx, hr⟩ :=
    advance_alike ha s.maxConcurrency (fun c hc => List.mem_map_of_mem hc) x
  have hids := map_advance k s.maxConcurrency results cs x
  simp only [tick, ho]
  split
  · exact ⟨rfl, hd, hx⟩
  · rw [hd, hx]
    exact settle_alike (hids ▸ hr) _

/-! ## Runs over changing children -/

/-- What becomes of a child that a tick does not come to: it stays as it is, unless a run that does
not succeed ends with the running children reset. -/
def LeftAlone (h : Handling H γ) (s : Settings) (outcome : Except Panic Status) (c d : γ) : Prop :=
  d = c ∨ s.abortOnFailure = true ∧ (outcome = .ok .failure ∨ outcome = .ok .error) ∧ d = h.reset c

theorem tick_schedules (s : Settings) (hr : Recalls results es) (hcs : (cs.map h.id).Nodup)
    (x : Stage H) :
    ∃ news, log h s results cs x es = es ++ news ∧
      tickedIds news <+: s.due es (cs.map h.id) ∧
      ((∀ p, (tick h s results cs x).outcome ≠ .error p) →
        tickedIds news = s.due es (cs.map h.id)) ∧
      List.Forall₂ (fun c d => h.id c ∈ tickedIds news ∨
        LeftAlone h s (tick h s results cs x).outcome c d) cs (tick h s results cs x).state.2 := by
  obtain ⟨ho, hst, -⟩ := tick_recorded h s results cs x es
  obtain ⟨news, he, hs⟩ := advance_schedules h s.maxConcurrency results cs (x.recorded es) hcs
  rw [List.filter_congr fun id _ => congrArg (!·) (hr.finished_eq id)] at hs
  rw [← ho, ← hst, log]
  simp only [tick]
  generalize advance h.recorded s.maxConcurrency results cs (x.recorded es) = turn at he hs
  obtain ⟨outcome, ⟨told, ds⟩, y⟩ := turn
  cases outcome with
  | error p =>
    refine ⟨news, he, hs.first, fun hne => absurd rfl (hne p), hs.left.imp fun c d hcd => ?_⟩
    exact hcd.imp_right .inl
  | ok u =>
    dsimp only
    obtain ⟨ids, hreset⟩ := settle_events h s told ds y
    have hquiet : tickedIds (news ++ ids.map .reset) = tickedIds news := by
      rw [tickedIds_append, tickedIds_resets, List.append_nil]
    have hevents : (settle h.recorded s told ds y).stage.events =
        es ++ (news ++ ids.map .reset) := by
      rw [hreset, he, List.append_assoc]
      rfl
    refine ⟨news ++ ids.map .reset, hevents, ?_, fun _ => ?_, ?_⟩
    · rw [hquiet]
      exact hs.first
    · rw [hquiet]
      exact hs.all fun hcut => by
        obtain ⟨p, hp⟩ := hcut
        cases hp
    · rw [hquiet]
      rcases settle_cases h.recorded s told ds y with ⟨-, hstate⟩ | ⟨-, hstate, -⟩ | ⟨hfails, hstate⟩
      · rw [hstate]
        exact hs.left.imp fun c d hcd => hcd.imp_right .inl
      · rw [hstate]
        exact hs.left.imp fun c d hcd => hcd.imp_right .inl
      · rw [hstate]
        by_cases ha : s.abortOnFailure = true
        · rw [if_pos ha]
          refine List.forall₂_map_right_iff.2 (hs.left.imp fun c d hcd => ?_)
          refine hcd.imp_right fun hd => ?_
          unfold stopped
          split
          · exact .inr ⟨ha, hfails, congrArg h.reset hd⟩
          · exact .inl hd
        · rw [if_neg ha]
          exact hs.left.imp fun c d hcd => hcd.imp_right .inl

/-- Unless a panic unwinds it, a tick of a parallel ticks the first of the present children that have
not come to an end in the run, as many as are allowed at a time, once each and as they are stored. None
that came to an end is ticked again, and those that the tick does not come to are left alone. What is
known of absent children changes nothing, and a verdict forgets all that is known. -/
theorem Underway.schedules (k : h.Keeps h.id) (d : Underway h s results es)
    (hcs : (cs.map h.id).Nodup) (x : Stage H) :
    ∃ news, log h s results cs x es = es ++ news ∧
      tickedIds news <+: s.due es (cs.map h.id) ∧
      ((∀ p, (tick h s results cs x).outcome ≠ .error p) →
        tickedIds news = s.due es (cs.map h.id)) ∧
      (tickedIds news).Nodup ∧ (∀ id ∈ tickedIds news, ended es id = false) ∧
      List.Forall₂ (fun c d => h.id c ∈ tickedIds news ∨
        LeftAlone h s (tick h s results cs x).outcome c d) cs (tick h s results cs x).state.2 ∧
      (∀ results' : Results, (∀ c ∈ cs, results'.get? (h.id c) = results.get? (h.id c)) →
        (tick h s results' cs x).outcome = (tick h s results cs x).outcome ∧
          (tick h s results' cs x).state.2 = (tick h s results cs x).state.2 ∧
          (tick h s results' cs x).stage = (tick h s results cs x).stage) ∧
      (Concluded (tick h s results cs x).outcome → (tick h s results cs x).state.1 = .nil) := by
  have hr := d.recalls k
  obtain ⟨news, he, hfirst, hall, hleft⟩ := tick_schedules s hr hcs x
  obtain ⟨_, -, t⟩ := tick_ticked k s hr cs x
  have hdue : (s.due es (cs.map h.id)).Sublist (cs.map h.id) := by
    have hopen := (cs.map h.id).filter_sublist (p := fun id => !ended es id)
    unfold Settings.due
    cases s.maxConcurrency with
    | none => exact hopen
    | some n => exact (List.take_sublist n _).trans hopen
  refine ⟨news, he, hfirst, hall, hcs.sublist (hfirst.sublist.trans hdue), fun id hid => ?_, hleft,
    fun results' ha => tick_alike k (List.forall_mem_map.2 ha) x, t.concluded⟩
  have hopen := (List.mem_filter.1 (mem_of_mem_firstOf (hfirst.subset hid))).2
  simpa using hopen

section Paced

/-- A parallel that waits for all children and ticks two of them at a time. -/
def paced : Settings := { earlyExit := false, maxConcurrency := some 2 }

/-- The child that has failed is passed over, and the last one does not get its turn. -/
theorem schedules_paced : ∃ results news,
    Underway cast paced results [.ticked "a" (some .failure), .ticked "b" (some .running)] ∧
      log cast paced results [("a", .failure), ("b", .running), ("c", .success), ("d", .running)]
          (Rehearsal.clock 0) [.ticked "a" (some .failure), .ticked "b" (some .running)] =
        [.ticked "a" (some .failure), .ticked "b" (some .running)] ++ news ∧
      tickedIds news = ["b", "c"] := by
  have hpaused : ¬ Concluded (tick cast paced .nil [("a", .failure), ("b", .running)]
      (Rehearsal.clock 0)).outcome := by
    rintro ⟨verdict, hv, ht⟩
    cases hv
    cases ht
  have hkeeps : cast.Keeps cast.id := ⟨fun _ _ => rfl, fun _ => rfl⟩
  have hfresh : Underway cast paced .nil [] := .fresh
  have d : Underway cast paced _ [.ticked "a" (some .failure), .ticked "b" (some .running)] :=
    hfresh.paused [("a", .failure), ("b", .running)] (Rehearsal.clock 0) hpaused
  have hcs :
      ([("a", .failure), ("b", .running), ("c", .success), ("d", .running)].map cast.id).Nodup := by
    decide
  obtain ⟨news, he, -, hall, -⟩ := d.schedules hkeeps hcs (Rehearsal.clock 0)
  refine ⟨_, news, d, he, (hall fun p hp => ?_).trans (by decide)⟩
  cases hp

end Paced

end Parallel

end Conduct
