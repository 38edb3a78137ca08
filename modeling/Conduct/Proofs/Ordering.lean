import Conduct.Proofs.Planning
import Conduct.Proofs.Survival

/-! The order in which a selector ticks its children.

A run goes by one plan, which its first tick makes. The children of the selector may be other ones at
every tick: those that are new stand behind all that are known, and those that are gone are passed
over, but keep their places. So every tick goes over the present children in one order, and past
those that fail. Main statements: `walk_tried`, `Selecting.follows` and `put_back_out_of_order`.
-/

set_option autoImplicit false

namespace Conduct.Selector

variable {H : Host} {γ : Type} {h : Handling H γ} {s : Settings} {run run' : Run}
  {id : String} {order plan ids : List String} {news : List Event}
  {outcome : Except Panic Status}

/-! ## Standing in line -/

/-- An order with the children that are new to it behind it. -/
def join (order ids : List String) : List String := order ++ ids.filter fun id => !order.contains id

theorem nodup_join (ho : order.Nodup) (hi : ids.Nodup) : (join order ids).Nodup := by
  refine List.nodup_append.2 ⟨ho, hi.filter _, ?_⟩
  rintro a ha b hb rfl
  have hnew := (List.mem_filter.1 hb).2
  rw [List.contains_iff_mem.2 ha] at hnew
  cases hnew

theorem join_of_mem (hi : ∀ id ∈ ids, id ∈ order) : join order ids = order := by
  have hnone : (ids.filter fun id => !order.contains id) = [] := by
    refine List.filter_eq_nil_iff.2 fun id hid hnew => ?_
    rw [List.contains_iff_mem.2 (hi id hid)] at hnew
    cases hnew
  rw [join, hnone, List.append_nil]

theorem extend_eq_join (hi : ids.Nodup) : extend order ids = join order ids := by
  induction ids generalizing order with
  | nil => exact (List.append_nil order).symm
  | cons id ids ih =>
    obtain ⟨hid, hi⟩ := List.nodup_cons.1 hi
    rw [extend_cons, join, List.filter_cons]
    cases hc : order.contains id with
    | true =>
      rw [if_pos rfl, if_neg (by decide)]
      exact ih hi
    | false =>
      -- What stands behind the new one is the same with it and without it.
      have hsame : (ids.filter fun id' => !(order ++ [id]).contains id') =
          ids.filter fun id' => !order.contains id' := by
        refine List.filter_congr fun id' hid' => ?_
        have hne : id' ≠ id := fun he => hid (he ▸ hid')
        rw [List.contains_append, List.contains_cons, beq_false_of_ne hne, Bool.false_or,
          List.contains_nil, Bool.or_false]
      rw [if_neg (by decide), if_pos (by decide), ih hi, join, hsame, List.append_assoc,
        List.singleton_append]

/-! ## Rounds of a run -/

/-- A tick of a selector: the children that it found, what it did to them and what it came to. -/
structure Round where
  present : List String
  events : List Event
  outcome : Except Panic Status

def Round.ticked (r : Round) : List String := tickedIds r.events

/-- A tick of a selector with the given children. -/
def round (h : Handling H γ) (s : Settings) (run : Run) (g : Random.Generator) (cs : List γ)
    (stage : Stage H) : Round where
  present := cs.map h.id
  events := (tick h.recorded s run g cs (stage.recorded [])).stage.events
  outcome := (tick h s run g cs stage).outcome

/-- A selector in the middle of a run that has the given rounds so far. Its children may be other
ones at every tick, with ids that are distinct. -/
inductive Selecting (h : Handling H γ) (s : Settings) : Run → List Round → Prop
  | fresh : Selecting h s {} []
  | ticked {run : Run} {rounds : List Round} (d : Selecting h s run rounds) (g : Random.Generator)
      (cs : List γ) (stage : Stage H) (hnodup : (cs.map h.id).Nodup)
      (hp : ¬ Concluded (tick h s run g cs stage).outcome) :
      Selecting h s (tick h s run g cs stage).state.1.1 (rounds ++ [round h s run g cs stage])

/-- A child failed in some round. -/
def failed (rounds : List Round) (id : String) : Bool :=
  rounds.any fun r => r.events.contains (.ticked id (some .failure))

/-- The plan, with those behind it that were new in each round. -/
def lineUp (plan : List String) (rounds : List Round) : List String :=
  rounds.foldl (fun order r => join order r.present) plan

/-- Those in line who are present and have not failed. -/
def due (order : List String) (before : List Round) (present : List String) : List String :=
  order.filter fun id => present.contains id && !failed before id

/-- A round goes along those who are due, and past those that fail. If all fail, so does the round; if
one succeeds, so does the round, and goes no further. -/
structure Round.Tries (due : List String) (r : Round) : Prop where
  first : r.ticked <+: due
  onward : ∀ id ∈ r.ticked.dropLast, Reported r.events id .failure
  all : (∀ id ∈ r.ticked, Reported r.events id .failure) →
    r.ticked = due ∧ r.outcome = .ok .failure
  success : ∀ id, Reported r.events id .success →
    r.outcome = .ok .success ∧ r.ticked.getLast? = some id

/-- One child stands before another one. -/
def Before (order : List String) (id id' : String) : Prop := [id, id'].Sublist order

/-- The rounds of a run go by one plan, which the first of them makes. No later round ticks a child
that stands before one that was ticked already, unless it was not there at that time. -/
structure Follows (s : Settings) (plan : List String) (rounds : List Round) : Prop where
  planned : ∀ r ∈ rounds.head?, Planned s r.present plan
  once : (lineUp plan rounds).Nodup
  tries : ∀ before r after, rounds = before ++ r :: after →
    r.Tries (due (lineUp plan (before ++ [r])) before r.present)
  onward : rounds.Pairwise fun r r' => ∀ id ∈ r.ticked, ∀ id' ∈ r'.ticked,
    Before (lineUp plan rounds) id' id → id' ∉ r.present

theorem lineUp_concat (plan : List String) (rounds : List Round) (r : Round) :
    lineUp plan (rounds ++ [r]) = join (lineUp plan rounds) r.present := List.foldl_concat ..

theorem lineUp_prefix (plan : List String) (rounds more : List Round) :
    lineUp plan rounds <+: lineUp plan (rounds ++ more) := by
  induction more generalizing rounds with
  | nil => simp only [List.append_nil, List.prefix_rfl]
  | cons r more ih =>
    rw [List.append_cons]
    refine .trans ?_ (ih (rounds ++ [r]))
    rw [lineUp_concat]
    exact List.prefix_append _ _

theorem failed_iff {rounds : List Round} :
    failed rounds id = true ↔ ∃ r ∈ rounds, Reported r.events id .failure := by
  simp only [failed, List.any_eq_true, List.contains_iff_mem, Reported]

theorem mem_due {before : List Round} {present : List String} :
    id ∈ due order before present ↔ id ∈ order ∧ id ∈ present ∧ failed before id = false := by
  rw [due, List.mem_filter, Bool.and_eq_true_iff, List.contains_iff_mem, Bool.not_eq_true']

/-! ## One walk -/

theorem toOption_eq_some {result : Except Panic Status} {status : Status} :
    result.toOption = some status ↔ result = .ok status := by
  cases result with
  | error p => exact ⟨nofun, nofun⟩
  | ok status' => exact ⟨fun h => by cases h; rfl, fun h => by cases h; rfl⟩

theorem Round.Tries.nil {present : List String} : Round.Tries [] ⟨present, [], .ok .failure⟩ where
  first := List.prefix_rfl
  onward _ hid := absurd hid List.not_mem_nil
  all _ := ⟨rfl, rfl⟩
  success _ hs := absurd hs List.not_mem_nil

/-- The round stops at a child that does not fail. -/
theorem Round.Tries.last {present : List String} {result : Except Panic Status}
    (hf : result ≠ .ok .failure) (hs : result = .ok .success → outcome = .ok .success) :
    Round.Tries (id :: ids) ⟨present, [.ticked id result.toOption], outcome⟩ where
  first := ⟨ids, rfl⟩
  onward _ hid := absurd hid List.not_mem_nil
  all ha := by
    have := List.mem_singleton.1 (ha id (List.mem_singleton_self id))
    exact absurd (toOption_eq_some.1 (Event.ticked.inj this).2.symm) hf
  success id' hr := by
    obtain ⟨rfl, he⟩ := Event.ticked.inj (List.mem_singleton.1 hr)
    exact ⟨hs (toOption_eq_some.1 he.symm), rfl⟩

/-- The round goes past a child that fails. -/
theorem Round.Tries.next {present : List String} (hid : id ∉ ids)
    (ht : Round.Tries ids ⟨present, news, outcome⟩) :
    Round.Tries (id :: ids) ⟨present, .ticked id (some .failure) :: news, outcome⟩ := by
  have hticked : Round.ticked ⟨present, .ticked id (some .failure) :: news, outcome⟩ =
      id :: tickedIds news := rfl
  refine ⟨?_, ?_, ?_, ?_⟩
  · exact List.cons_prefix_cons.2 ⟨rfl, ht.first⟩
  · intro id' hid'
    rw [hticked] at hid'
    rcases List.mem_cons.1 ((List.dropLast_sublist _).subset hid') with rfl | _
    · exact List.mem_cons_self
    · cases hnews : tickedIds news with
      | nil =>
        rw [hnews] at hid'
        exact absurd hid' List.not_mem_nil
      | cons id'' rest =>
        rw [hnews, List.dropLast_cons_cons, List.mem_cons] at hid'
        rcases hid' with rfl | hid'
        · exact List.mem_cons_self
        · exact List.mem_cons_of_mem _ (ht.onward id' (by rw [Round.ticked, hnews]; exact hid'))
  · intro ha
    have hrest : ∀ id' ∈ tickedIds news, Reported news id' .failure := by
      intro id' hid'
      rcases List.mem_cons.1 (ha id' (List.mem_cons_of_mem _ hid')) with he | hr
      · obtain ⟨rfl, -⟩ := Event.ticked.inj he
        exact absurd (ht.first.subset hid') hid
      · exact hr
    obtain ⟨hdue, ho⟩ := ht.all hrest
    exact ⟨congrArg (id :: ·) hdue, ho⟩
  · intro id' hr
    obtain ⟨ho, hlast⟩ := ht.success id' ((List.mem_cons.1 hr).resolve_left (by simp))
    refine ⟨ho, ?_⟩
    have hlast : (tickedIds news).getLast? = some id' := hlast
    rw [hticked, List.getLast?_cons, hlast]
    rfl

/-- What a walk leaves of a run: nothing after a verdict, or else the same order and those that have
failed. -/
structure Run.Left (run run' : Run) (news : List Event) (outcome : Except Panic Status) : Prop where
  order : ¬ Concluded outcome → run'.order = run.order
  planned : ¬ Concluded outcome → run'.planned = run.planned
  completed : ¬ Concluded outcome →
    ∀ id, id ∈ run'.completed ↔ id ∈ run.completed ∨ Reported news id .failure
  ends : Concluded outcome → run' = {}

theorem Run.Left.concluded (hc : Concluded outcome) : run.Left {} news outcome :=
  ⟨fun hn => absurd hc hn, fun hn => absurd hc hn, fun hn => absurd hc hn, fun _ => rfl⟩

theorem Run.Left.halted (hc : ¬ Concluded outcome) (cursor : Nat) :
    run.Left { run with cursor := cursor } [.ticked id outcome.toOption] outcome where
  order _ := rfl
  planned _ := rfl
  completed _ id' := by
    refine (or_iff_left fun hr => hc ?_).symm
    have hreport := (Event.ticked.inj (List.mem_singleton.1 hr)).2.symm
    exact ⟨.failure, toOption_eq_some.1 hreport, rfl⟩
  ends hc' := absurd hc' hc

theorem Run.Left.next (hl : (run.complete id).Left run' news outcome) :
    run.Left run' (.ticked id (some .failure) :: news) outcome where
  order := hl.order
  planned := hl.planned
  completed hn id' := by
    rw [hl.completed hn, Run.complete, Reported, Reported, List.mem_cons, List.mem_cons,
      Event.ticked.injEq, and_iff_left rfl]
    tauto
  ends := hl.ends

/-- Those that a walk along some ids comes to. -/
def Run.ahead (run : Run) (present ids : List String) : List String :=
  ids.filter fun id => present.contains id && !run.completed.contains id

theorem Run.ahead_skip {present : List String}
    (hs : id ∈ present → run.completed.contains id = true) :
    run.ahead present (id :: ids) = run.ahead present ids := by
  refine List.filter_cons_of_neg fun ht => ?_
  obtain ⟨hp, hn⟩ := Bool.and_eq_true_iff.1 ht
  rw [hs (List.contains_iff_mem.1 hp)] at hn
  cases hn

theorem Run.ahead_cons {present : List String} (hp : id ∈ present)
    (hc : run.completed.contains id = false) (hid : id ∉ ids) :
    run.ahead present (id :: ids) = id :: (run.complete id).ahead present ids := by
  have hrest : (run.complete id).ahead present ids = run.ahead present ids := by
    refine List.filter_congr fun id' hid' => ?_
    have hne : id' ≠ id := fun he => hid (he ▸ hid')
    rw [Run.complete, List.contains_cons, beq_false_of_ne hne, Bool.false_or]
  rw [hrest]
  exact List.filter_cons_of_pos (by rw [List.contains_iff_mem.2 hp, hc]; rfl)

/-- A walk tries those ahead one by one, which is by induction on the ids that are left. -/
theorem walk_tried (h : Handling H γ) (hid : ∀ c x, h.id (h.tick c x).state = h.id c) (run : Run)
    (ids : List String) (hids : ids.Nodup) (cs : List γ) (x : Stage H.recorded) :
    ∃ news, (walk h.recorded run ids cs x).stage.events = x.events ++ news ∧
      Round.Tries (run.ahead (cs.map h.id) ids)
        ⟨cs.map h.id, news, (walk h.recorded run ids cs x).outcome⟩ ∧
      run.Left (walk h.recorded run ids cs x).state.1 news
        (walk h.recorded run ids cs x).outcome := by
  induction ids generalizing run cs x with
  | nil => exact ⟨[], (List.append_nil _).symm, .nil, .concluded ⟨.failure, rfl, rfl⟩⟩
  | cons id ids ih =>
    obtain ⟨hnew, hrest⟩ := List.nodup_cons.1 hids
    have hrecorded : h.recorded.id = h.id := rfl
    simp only [walk, hrecorded]
    generalize hd : (cs.dropWhile fun c => h.id c != id) = rest
    cases rest with
    | nil =>
      rw [Run.ahead_skip fun hmem => absurd hmem (not_mem_ids hd)]
      exact ih run hrest cs x
    | cons c after =>
      obtain ⟨hcs, rfl⟩ := split_at hd
      dsimp only
      cases hskip : run.completed.contains (h.id c) with
      | true =>
        rw [if_pos rfl, Run.ahead_skip fun _ => hskip]
        exact ih run hrest cs x
      | false =>
        have hpresent : h.id c ∈ cs.map h.id := by
          rw [hcs]
          exact List.mem_map_of_mem (List.mem_append_right _ List.mem_cons_self)
        have hmap := map_exchanged h.id hcs (hid c x.forget)
        have he := h.events_recorded c x
        rw [if_neg (by decide), Run.ahead_cons hpresent hskip hnew]
        simp only [Handling.outcome_recorded]
        cases ho : (h.tick c x.forget).outcome with
        | error p =>
          rw [ho] at he
          exact ⟨_, he, .last (by simp) (by simp), .halted (not_concluded_error p) run.cursor⟩
        | ok status =>
          rw [ho] at he
          cases status with
          | running =>
            exact ⟨_, he, .last (by simp) (by simp), .halted not_concluded_running _⟩
          | success => exact ⟨_, he, .last (by simp) fun _ => rfl, .concluded ⟨_, rfl, rfl⟩⟩
          | error => exact ⟨_, he, .last (by simp) (by simp), .concluded ⟨_, rfl, rfl⟩⟩
          | ready => exact ⟨_, he, .last (by simp) (by simp), .concluded ⟨_, rfl, rfl⟩⟩
          | failure =>
            obtain ⟨news, hmore, ht, hl⟩ := ih (run.complete (h.id c)) hrest _
              (h.recorded.tick c x).stage
            rw [hmap] at ht
            rw [he, List.append_assoc] at hmore
            have hahead : h.id c ∉ (run.complete (h.id c)).ahead (cs.map h.id) ids :=
              fun hmem => hnew (List.mem_filter.1 hmem).1
            exact ⟨_ :: news, hmore, .next hahead ht, .next hl⟩

/-! ## A run -/

theorem before_iff {id' : String} :
    Before order id id' ↔ ∃ front rear, order = front ++ rear ∧ id ∈ front ∧ id' ∈ rear := by
  rw [Before, List.cons_sublist_iff]
  simp only [List.singleton_sublist]

/-- Whoever stands before one in the front of a line is in the front too. -/
theorem Before.of_prefix {front : List String} {id' : String} (hb : Before order id id')
    (ho : order.Nodup) (hp : front <+: order) (hid : id' ∈ front) : Before front id id' := by
  obtain ⟨rear, rfl⟩ := hp
  obtain ⟨ahead, behind, he, ha, hbehind⟩ := before_iff.1 hb
  have hapart := (List.nodup_append.1 ho).2.2
  rcases List.append_eq_append_iff.1 he with ⟨more, rfl, rfl⟩ | ⟨more, rfl, rfl⟩
  · exact absurd rfl (hapart id' hid id' (List.mem_append_right _ hbehind))
  · rcases List.mem_append.1 hbehind with hmore | hrear
    · exact before_iff.2 ⟨ahead, more, rfl, ha, hmore⟩
    · exact absurd rfl (hapart id' hid id' hrear)

theorem Before.mem_dropLast {id' : String} (hb : Before order id id') : id ∈ order.dropLast := by
  obtain ⟨front, rear, rfl, hid, hid'⟩ := before_iff.1 hb
  rw [List.dropLast_append_of_ne_nil (List.ne_nil_of_mem hid')]
  exact List.mem_append_left _ hid

theorem Before.filter {id' : String} (hb : Before order id id') (p : String → Bool)
    (hid : p id = true) (hid' : p id' = true) : Before (order.filter p) id id' := by
  have := List.Sublist.filter p hb
  rwa [List.filter_cons_of_pos hid, List.filter_cons_of_pos hid', List.filter_nil] at this

/-- A child that is due in a later round was due in any earlier one where it stood before one that was
ticked, so that it would have failed there. -/
theorem onward_of_tries {rounds : List Round} (ho : (lineUp plan rounds).Nodup)
    (ht : ∀ before r after, rounds = before ++ r :: after →
      r.Tries (due (lineUp plan (before ++ [r])) before r.present)) :
    rounds.Pairwise fun r r' => ∀ id ∈ r.ticked, ∀ id' ∈ r'.ticked,
      Before (lineUp plan rounds) id' id → id' ∉ r.present := by
  refine List.pairwise_iff_forall_sublist.2 fun {r r'} hsub id hid id' hid' hbefore hpresent => ?_
  obtain ⟨front, rear, rfl, hr, hr'⟩ := List.cons_sublist_iff.1 hsub
  obtain ⟨l, m, rfl⟩ := List.append_of_mem hr
  obtain ⟨m', n, rfl⟩ := List.append_of_mem (List.singleton_sublist.1 hr')
  have hfirst := ht l r (m ++ (m' ++ r' :: n)) (by simp)
  have hsecond := ht (l ++ r :: (m ++ m')) r' n (by simp)
  have hline : lineUp plan (l ++ [r]) <+: lineUp plan (l ++ r :: m ++ (m' ++ r' :: n)) := by
    have := lineUp_prefix plan (l ++ [r]) (m ++ (m' ++ r' :: n))
    rwa [List.append_assoc, List.singleton_append, ← List.cons_append, ← List.append_assoc] at this
  have hdue := hfirst.first.subset hid
  obtain ⟨hstands, -, -⟩ := mem_due.1 hdue
  obtain ⟨-, -, hnever⟩ := mem_due.1 (hsecond.first.subset hid')
  have hnot : failed l id' = false := by
    refine Bool.eq_false_iff.2 fun hf => ?_
    obtain ⟨q, hq, hreported⟩ := failed_iff.1 hf
    have := failed_iff.2 ⟨q, List.mem_append_left (r :: (m ++ m')) hq, hreported⟩
    rw [hnever] at this
    cases this
  have hahead : Before (due (lineUp plan (l ++ [r])) l r.present) id' id := by
    refine (hbefore.of_prefix ho hline hstands).filter _ ?_ (List.mem_filter.1 hdue).2
    rw [hnot, List.contains_iff_mem.2 hpresent]
    rfl
  have hnodup : (due (lineUp plan (l ++ [r])) l r.present).Nodup :=
    (ho.sublist hline.sublist).filter _
  have hfailed := hfirst.onward id' (hahead.of_prefix hnodup hfirst.first hid).mem_dropLast
  have := failed_iff.2 ⟨r, List.mem_append_right l (List.mem_cons_self (l := m ++ m')), hfailed⟩
  rw [hnever] at this
  cases this

theorem Follows.nil (hp : plan.Nodup) : Follows s plan [] where
  planned := nofun
  once := hp
  tries before r after he := by
    have := congrArg List.length he
    rw [List.length_append] at this
    cases this
  onward := .nil

theorem Follows.concat {rounds : List Round} {r : Round} (hf : Follows s plan rounds)
    (hp : rounds = [] → Planned s r.present plan) (hr : r.present.Nodup)
    (ht : r.Tries (due (lineUp plan (rounds ++ [r])) rounds r.present)) :
    Follows s plan (rounds ++ [r]) := by
  have honce : (lineUp plan (rounds ++ [r])).Nodup := by
    rw [lineUp_concat]
    exact nodup_join hf.once hr
  have htries : ∀ before r' after, rounds ++ [r] = before ++ r' :: after →
      r'.Tries (due (lineUp plan (before ++ [r'])) before r'.present) := by
    intro before r' after he
    rcases List.eq_nil_or_concat after with rfl | ⟨after, q, rfl⟩
    · obtain ⟨rfl, hlast⟩ := List.append_inj' he rfl
      obtain rfl := List.singleton_inj.1 hlast
      exact ht
    · rw [List.concat_eq_append, ← List.cons_append, ← List.append_assoc] at he
      exact hf.tries before r' after (List.append_inj' he rfl).1
  refine ⟨?_, honce, htries, onward_of_tries honce htries⟩
  intro r' hr'
  cases rounds with
  | nil =>
    obtain rfl : r = r' := Option.some.inj hr'
    exact hp rfl
  | cons q rounds => exact hf.planned r' hr'

/-- A run remembers the line and those that failed. -/
structure Run.Remembers (run : Run) (plan : List String) (rounds : List Round) : Prop where
  planned : run.planned = true
  order : run.order = lineUp plan rounds
  completed : ∀ id, run.completed.contains id = failed rounds id

/-- What a tick makes of a run whose line is up to date. -/
structure Ticked (s : Settings) (plan : List String) (rounds : List Round) (r : Round)
    (run' : Run) : Prop where
  follows : Follows s plan (rounds ++ [r])
  remembers : ¬ Concluded r.outcome → run'.Remembers plan (rounds ++ [r])
  ends : Concluded r.outcome → run' = {}

theorem failed_concat {rounds : List Round} {r : Round} :
    failed (rounds ++ [r]) id = true ↔ failed rounds id = true ∨ Reported r.events id .failure := by
  simp only [failed_iff, List.mem_append, List.mem_singleton, or_and_right, exists_or,
    exists_eq_left]

theorem tick_ticked (hid : ∀ c x, h.id (h.tick c x).state = h.id c) {rounds : List Round}
    {g : Random.Generator} {cs : List γ} (hnodup : (cs.map h.id).Nodup) (stage : Stage H)
    (hf : Follows s plan rounds) (hp : rounds = [] → Planned s (cs.map h.id) plan)
    (ho : (prepare s run (cs.map h.id) g).1.order = join (lineUp plan rounds) (cs.map h.id))
    (hc : ∀ id, run.completed.contains id = failed rounds id) :
    Ticked s plan rounds (round h s run g cs stage) (tick h s run g cs stage).state.1.1 := by
  obtain ⟨houtcome, hstate, -⟩ := tick_recorded h s run g cs stage []
  obtain ⟨news, he, ht, hl⟩ := walk_tried h hid (prepare s run (cs.map h.id) g).1
    (prepare s run (cs.map h.id) g).1.order (ho ▸ nodup_join hf.once hnodup) cs (stage.recorded [])
  have hround : round h s run g cs stage =
      ⟨cs.map h.id, news, (tick h s run g cs stage).outcome⟩ := by
    have hevents : (round h s run g cs stage).events = news := he
    rw [← hevents]
    rfl
  have hline : lineUp plan (rounds ++ [round h s run g cs stage]) =
      (prepare s run (cs.map h.id) g).1.order := (lineUp_concat ..).trans ho.symm
  have hdue : (prepare s run (cs.map h.id) g).1.ahead (cs.map h.id)
      (prepare s run (cs.map h.id) g).1.order =
        due (lineUp plan (rounds ++ [round h s run g cs stage])) rounds (cs.map h.id) := by
    rw [hline]
    refine List.filter_congr fun id _ => ?_
    rw [← hc]
    rfl
  have ht : Round.Tries (due (lineUp plan (rounds ++ [round h s run g cs stage])) rounds
      (cs.map h.id)) (round h s run g cs stage) := by
    rw [← hdue, hround, ← houtcome]
    exact ht
  have hl : (prepare s run (cs.map h.id) g).1.Left (tick h s run g cs stage).state.1.1 news
      (tick h s run g cs stage).outcome := by
    rw [← houtcome, ← hstate]
    exact hl
  refine ⟨hf.concat hp hnodup ht, fun hn => ⟨hl.planned hn, ?_, fun id => ?_⟩, hl.ends⟩
  · rw [hl.order hn, hline]
  · rw [Bool.eq_iff_iff, List.contains_iff_mem, hl.completed hn, failed_concat, ← hc,
      List.contains_iff_mem, hround]
    rfl

/-- A run has not begun, or it goes by a plan. -/
def Run.Led (s : Settings) (run : Run) (rounds : List Round) : Prop :=
  run = {} ∧ rounds = [] ∨
    rounds ≠ [] ∧ ∃ plan, Follows s plan rounds ∧ run.Remembers plan rounds

theorem Run.Led.tick (hid : ∀ c x, h.id (h.tick c x).state = h.id c) {rounds : List Round}
    (hled : run.Led s rounds) (g : Random.Generator) {cs : List γ} (hnodup : (cs.map h.id).Nodup)
    (stage : Stage H) :
    ∃ plan, Ticked s plan rounds (round h s run g cs stage)
        (Selector.tick h s run g cs stage).state.1.1 ∧
      (rounds ≠ [] → run.Remembers plan rounds) := by
  rcases hled with ⟨rfl, rfl⟩ | ⟨hne, plan, hf, hr⟩
  · have hplan := planned_plan s (cs.map h.id) g
    have hall : ∀ id ∈ cs.map h.id, id ∈ (Selector.plan s (cs.map h.id) g).1 := fun id =>
      hplan.perm.mem_iff.2
    refine ⟨(Selector.plan s (cs.map h.id) g).1, ?_, fun hn => absurd rfl hn⟩
    refine tick_ticked hid hnodup stage (.nil (hplan.perm.nodup_iff.2 hnodup)) (fun _ => hplan) ?_
      fun _ => rfl
    exact (extend_of_mem hall).trans (join_of_mem hall).symm
  · refine ⟨plan, tick_ticked hid hnodup stage hf (fun he => absurd he hne) ?_ hr.completed,
      fun _ => hr⟩
    unfold prepare
    rw [hr.planned, ← hr.order]
    exact extend_eq_join hnodup

theorem Selecting.led (hid : ∀ c x, h.id (h.tick c x).state = h.id c) {rounds : List Round}
    (d : Selecting h s run rounds) : run.Led s rounds := by
  induction d with
  | fresh => exact .inl ⟨rfl, rfl⟩
  | ticked d g cs stage hnodup hp ih =>
    obtain ⟨plan, ht, -⟩ := ih.tick hid g hnodup stage
    exact .inr ⟨List.concat_ne_nil _ _, plan, ht.follows, ht.remembers hp⟩

theorem Selecting.unconcluded {rounds : List Round} (d : Selecting h s run rounds) :
    ∀ r ∈ rounds, ¬ Concluded r.outcome := by
  induction d with
  | fresh => exact nofun
  | ticked d g cs stage hnodup hp ih =>
    intro r hr
    rcases List.mem_append.1 hr with hr | hr
    · exact ih r hr
    · obtain rfl := List.mem_singleton.1 hr
      exact hp

/-- All ticks of a run go by the plan that the first of them makes, which lists every child once, and
by the line of newcomers behind it. Every tick goes along the present children that have not failed
in the run, in this order, and past those that fail. So no child is ticked after one that stands
behind it, unless it was gone when that one was ticked and has been put back. A success and any other
verdict end the run, and nothing is left of it. -/
theorem Selecting.follows (hid : ∀ c x, h.id (h.tick c x).state = h.id c) {rounds : List Round}
    (d : Selecting h s run rounds) (g : Random.Generator) {cs : List γ}
    (hnodup : (cs.map h.id).Nodup) (stage : Stage H) :
    ∃ plan, Follows s plan (rounds ++ [round h s run g cs stage]) ∧
      (rounds ≠ [] → run.Remembers plan rounds) ∧
      (¬ Concluded (tick h s run g cs stage).outcome →
        (tick h s run g cs stage).state.1.1.Remembers plan
          (rounds ++ [round h s run g cs stage])) ∧
      (Concluded (tick h s run g cs stage).outcome →
        (tick h s run g cs stage).state.1.1 = {}) ∧
      ∀ r ∈ rounds, ∀ id, ¬ Reported r.events id .success := by
  obtain ⟨plan, ht, hr⟩ := (d.led hid).tick hid g hnodup stage
  refine ⟨plan, ht.follows, hr, ht.remembers, ht.ends, fun r hmem id hs => ?_⟩
  obtain ⟨before, after, he⟩ := List.append_of_mem hmem
  have htries := ht.follows.tries before r (after ++ [round h s run g cs stage])
    (by rw [he, List.append_assoc, List.cons_append])
  exact d.unconcluded r hmem ⟨.success, (htries.success id hs).1, rfl⟩

/-! ## Trees -/

section Trees

variable {t t' child : Tree H} {rounds : List Round}

/-- A tree whose top is a selector in the middle of a run that has the given rounds so far. -/
def Choosing (s : Settings) (t : Tree H) (rounds : List Round) : Prop :=
  ∃ run g, t.value.behavior = .selector s run g ∧
    Selecting (Tree.handling (H := H) Tree.tick) s run rounds

theorem Choosing.insertChild (d : Choosing s t rounds) {index : Nat}
    (hi : t.insertChild index child = .ok t') : Choosing s t' rounds := by
  obtain ⟨ds, rfl⟩ := Tree.insertChild_eq hi
  exact d

theorem Choosing.removeChild? (d : Choosing s t rounds)
    (hr : t.removeChild? id = some (child, t')) : Choosing s t' rounds := by
  obtain ⟨ds, rfl⟩ := Tree.removeChild?_eq hr
  exact d

theorem concluded_settled (hc : Concluded outcome) : Concluded (outcome.map Status.settled) := by
  obtain ⟨verdict, rfl, hv⟩ := hc
  cases verdict with
  | ready => cases hv
  | _ => exact ⟨_, rfl, hv⟩

theorem Choosing.tick (d : Choosing s t rounds) (hnodup : (t.children.map Tree.id).Nodup)
    (stage : Stage H) (hp : ¬ Concluded (t.tick stage).outcome) :
    ∃ run g, t.value.behavior = .selector s run g ∧
      Choosing s (t.tick stage).state
        (rounds ++ [round (Tree.handling Tree.tick) s run g t.children stage]) := by
  obtain ⟨run, g, hb, d⟩ := d
  have hbehavior := Tree.behavior_tick t stage
  have houtcome := Tree.outcome_tick t stage
  rw [hb] at hbehavior houtcome
  rw [houtcome] at hp
  exact ⟨run, g, hb, _, _, hbehavior,
    d.ticked g t.children stage hnodup fun hc => hp (concluded_settled hc)⟩

end Trees

/-! ## Children that come and go -/

/-- A child is new at the front while another one is gone, and succeeds at last. -/
theorem follows_newcomer :
    ∃ run rounds plan, Selecting (steady (H := Rehearsal.host)) {} run rounds ∧
      Follows {} plan (rounds ++ [round steady {} run (.ofSeed 0)
        [("c", .success), ("b", .failure)] (Rehearsal.clock 0)]) ∧
      lineUp plan (rounds ++ [round steady {} run (.ofSeed 0)
        [("c", .success), ("b", .failure)] (Rehearsal.clock 0)]) = ["a", "b", "c"] ∧
      (round steady {} run (.ofSeed 0) [("c", .success), ("b", .failure)]
        (Rehearsal.clock 0)).ticked = ["b", "c"] := by
  let d := (Selecting.fresh (h := steady (H := Rehearsal.host)) (s := {})).ticked (.ofSeed 0)
    [("a", .failure), ("b", .running)] (Rehearsal.clock 0) (by decide)
    not_concluded_running
  have hnodup : ([("c", Status.success), ("b", .failure)].map
    (steady (H := Rehearsal.host)).id).Nodup := by decide
  obtain ⟨plan, hf, -⟩ := d.follows (fun _ _ => rfl) (.ofSeed 0) hnodup (Rehearsal.clock 0)
  have hplan : plan = ["a", "b"] := (hf.planned _ rfl).sequential rfl
  refine ⟨_, _, plan, d, hf, ?_, rfl⟩
  rw [hplan]
  rfl

/-- No child is ticked after one that stands behind it. -/
def InOrder (order : List String) (rounds : List Round) : Prop :=
  (rounds.flatMap Round.ticked).Pairwise fun id id' => ¬ Before order id' id

/-- A child that was taken out in the middle of a run and is put back has kept its place, so that it is
ticked after the one that stands behind it. -/
theorem put_back_out_of_order :
    ∃ run rounds, Selecting (steady (H := Rehearsal.host)) {} run rounds ∧
      rounds.map Round.present = [["a", "b"], ["b"], ["a", "b"]] ∧
      rounds.map Round.ticked = [["a"], ["b"], ["a"]] ∧
      Follows {} ["a", "b"] rounds ∧ lineUp ["a", "b"] rounds = ["a", "b"] ∧
      ¬ InOrder ["a", "b"] rounds := by
  let d := (((Selecting.fresh (h := steady (H := Rehearsal.host)) (s := {})).ticked (.ofSeed 0)
    [("a", .running), ("b", .running)] (Rehearsal.clock 0) (by decide)
    not_concluded_running).ticked (.ofSeed 0) [("b", .running)] (Rehearsal.clock 0) (by decide)
    not_concluded_running).ticked (.ofSeed 0) [("a", .running), ("b", .running)]
    (Rehearsal.clock 0) (by decide) not_concluded_running
  obtain ⟨-, hnone⟩ | ⟨-, plan, hf, -⟩ := d.led fun _ _ => rfl
  · cases hnone
  · obtain rfl : plan = ["a", "b"] := (hf.planned _ rfl).sequential rfl
    refine ⟨_, _, d, rfl, rfl, hf, rfl, fun ho => ?_⟩
    have hticked : ["a", "b", "a"].Pairwise fun id id' => ¬ Before ["a", "b"] id' id := ho
    unfold Before at hticked
    revert hticked
    decide

end Conduct.Selector
