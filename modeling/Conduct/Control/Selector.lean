import Conduct.Host
import Conduct.Random.Shuffle

/-! Selectors: children in a planned order until one succeeds.

The order is planned at the first tick of a run: as the children are stored, shuffled, or by
descending weight. Children that come later follow in the order in which they are stored.
-/

set_option autoImplicit false

namespace Conduct.Selector

inductive Order
  | sequential
  | random
  /-- By descending weight; children of one weight stay in order. -/
  | priority
  deriving DecidableEq

def Order.byName : List (String × Order) :=
  [("sequential", .sequential), ("random", .random), ("priority", .priority)]

structure Settings where
  executionOrder : Order := .sequential
  weights : List Float := []
  shuffleSeed : Option UInt64 := none
  /-- The generator that was drawn for it, which it starts with if it has no seed. No property
  names it. -/
  entropy : Random.Generator := .ofSeed 0

def Settings.known : List (Json.Setting Settings) :=
  [.of "executionOrder" (Json.Decode.variant Order.byName) fun s o => { s with executionOrder := o },
    .of "shuffleSeed" (Json.Decode.optional Json.Decode.uint64) fun s n => { s with shuffleSeed := n },
    .of "weights" (Json.Decode.list Json.Decode.float) fun s ws => { s with weights := ws }]

/-- The generator that a selector starts with. -/
def Settings.generator (s : Settings) : Random.Generator :=
  match s.shuffleSeed with
  | some seed => .ofSeed seed
  | none => s.entropy

/-- What a selector remembers of an unfinished run. -/
structure Run where
  /-- The index of the child that the run is paused at. -/
  cursor : Nat := 0
  /-- The ids of the children that failed in this run. -/
  completed : List String := []
  /-- The ids of the children in the order in which they are tried. -/
  order : List String := []
  planned : Bool := false
  deriving DecidableEq

def Run.complete (run : Run) (id : String) : Run := { run with completed := id :: run.completed }

/-! ## Planning -/

/-- A key by which floats are in total order, with minus zero below zero. -/
def orderKey (f : Float) : Int :=
  let bits := f.toBits.toNat
  if bits < 0x8000000000000000 then bits else -(bits - 0x8000000000000000 : Nat) - 1

def Settings.weight (s : Settings) (index : Nat) : Float := s.weights[index]?.getD 1

def byWeight (s : Settings) (ids : List String) : List String :=
  let weighted := ids.zipIdx.map fun (id, index) => (orderKey (s.weight index), id)
  (weighted.mergeSort fun a b => b.1 ≤ a.1).map Prod.snd

/-- The planned order of the children, and the generator after planning it. -/
def plan (s : Settings) (ids : List String) (g : Random.Generator) :
    List String × Random.Generator :=
  match s.executionOrder with
  | .sequential => (ids, g)
  | .random => Random.shuffle ids g
  | .priority => (byWeight s ids, g)

/-- The order with the ids that are new to it at its end. -/
def extend (order ids : List String) : List String :=
  ids.foldl (fun known id => if known.contains id then known else known ++ [id]) order

theorem extend_cons (order : List String) (id : String) (ids : List String) :
    extend order (id :: ids) =
      extend (if order.contains id then order else order ++ [id]) ids := rfl

theorem extend_eq (order ids : List String) : ∃ more, extend order ids = order ++ more := by
  induction ids generalizing order with
  | nil => exact ⟨[], (List.append_nil order).symm⟩
  | cons id ids ih =>
    rw [extend_cons]
    split
    · exact ih order
    · obtain ⟨more, he⟩ := ih (order ++ [id])
      exact ⟨id :: more, by rw [he, List.append_assoc, List.singleton_append]⟩

theorem mem_extend {id : String} {order ids : List String} :
    id ∈ extend order ids ↔ id ∈ order ∨ id ∈ ids := by
  induction ids generalizing order with
  | nil => simp [extend]
  | cons id' ids ih =>
    rw [extend_cons, ih, List.mem_cons]
    split
    · next hc =>
      have hc := List.contains_iff_mem.1 hc
      constructor
      · exact fun h => h.imp_right .inr
      · rintro (h | rfl | h)
        · exact .inl h
        · exact .inl hc
        · exact .inr h
    · rw [List.mem_append, List.mem_singleton, or_assoc]

theorem extend_of_mem {order ids : List String} (h : ∀ id ∈ ids, id ∈ order) :
    extend order ids = order := by
  induction ids with
  | nil => rfl
  | cons id ids ih =>
    obtain ⟨hid, hids⟩ := List.forall_mem_cons.1 h
    rw [extend_cons, if_pos (List.contains_iff_mem.2 hid), ih hids]

/-- The run with its order planned and up to date, and the generator after that. -/
def prepare (s : Settings) (run : Run) (ids : List String) (g : Random.Generator) :
    Run × Random.Generator :=
  let (order, g) := if run.planned then (run.order, g) else plan s ids g
  ({ run with order := extend order ids, planned := true }, g)

/-! ## Ticking -/

variable {H : Host} {γ : Type}

def walk (h : Handling H γ) : Run → List String → List γ → Stage H → Turn H Status (Run × List γ)
  | _, [], children, stage => ⟨.ok .failure, ({}, children), stage⟩
  | run, id :: ids, children, stage =>
    match children.dropWhile fun c => h.id c != id with
    | [] => walk h run ids children stage
    | child :: after =>
      if run.completed.contains id then walk h run ids children stage
      else
        let before := children.takeWhile fun c => h.id c != id
        let turn := h.tick child stage
        let children := before ++ turn.state :: after
        match turn.outcome with
        | .error p => ⟨.error p, (run, children), turn.stage⟩
        | .ok .running => ⟨.ok .running, ({ run with cursor := before.length }, children), turn.stage⟩
        | .ok .success => ⟨.ok .success, ({}, children), turn.stage⟩
        | .ok .failure => walk h (run.complete id) ids children turn.stage
        | .ok .error => ⟨.ok .error, ({}, children), turn.stage⟩
        | .ok .ready => ⟨.ok .error, ({}, children), turn.stage⟩

def tick (h : Handling H γ) (s : Settings) (run : Run) (g : Random.Generator) (children : List γ)
    (stage : Stage H) : Turn H Status ((Run × Random.Generator) × List γ) :=
  let (run, g) := prepare s run (children.map h.id) g
  (walk h run run.order children stage).map fun (run, children) => ((run, g), children)

def findings (s : Settings) (childCount : Nat) : List String :=
  if s.executionOrder = .priority ∧ s.weights.length ≠ childCount then
    ["weights has " ++ toString s.weights.length ++ " entries for " ++ toString childCount ++
      " children"]
  else []

end Conduct.Selector
