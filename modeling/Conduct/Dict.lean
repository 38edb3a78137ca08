/-! Maps from names to values, in increasing order of the names.

The order is part of the type: `Dict.From α lo` holds the entries whose names lie above the bound
`lo`, so a dictionary has one value for each name and one way to be written down.
Main statements: `get?_insert_self`, `get?_insert_of_ne`, `get?_erase_self`, `get?_erase_of_ne`,
`From.ext` and `ofList_toList`.
-/

set_option autoImplicit false

namespace Conduct

/-- The name lies above the bound, where no bound admits every name. -/
def Dict.Above : Option String → String → Prop
  | none, _ => True
  | some bound, key => bound < key

/-- The entries of a dictionary whose names lie above a bound. -/
inductive Dict.From (α : Type) : Option String → Type
  | nil {lo : Option String} : From α lo
  | cons {lo : Option String} (key : String) (above : Dict.Above lo key) (value : α)
      (rest : From α (some key)) : From α lo

abbrev Dict (α : Type) : Type := Dict.From α none

namespace Dict

variable {α β : Type} {lo : Option String}

theorem lt_of_not_lt_of_ne {a b : String} (h : ¬a < b) (hne : a ≠ b) : b < a := by
  by_cases hlt : b < a
  · exact hlt
  · exact absurd (String.le_antisymm (String.not_lt.1 hlt) (String.not_lt.1 h)) hne

theorem Above.of_lt {a b : String} (h : a < b) : Above (some a) b := h

theorem Above.trans {bound : Option String} {a b : String} (h : Above bound a) (hab : a < b) :
    Above bound b := by
  cases bound with
  | none => trivial
  | some c => exact String.lt_trans h hab

/-! ## Looking at entries -/

def empty : Dict α := .nil

instance : EmptyCollection (Dict α) := ⟨empty⟩

instance : Inhabited (Dict α) := ⟨empty⟩

namespace From

def get? (name : String) : {lo : Option String} → From α lo → Option α
  | _, .nil => none
  | _, .cons key _ value rest => if key = name then some value else rest.get? name

def toList : {lo : Option String} → From α lo → List (String × α)
  | _, .nil => []
  | _, .cons key _ value rest => (key, value) :: rest.toList

def contains (d : From α lo) (name : String) : Bool := (d.get? name).isSome

def size (d : From α lo) : Nat := d.toList.length

def isEmpty (d : From α lo) : Bool := d.toList.isEmpty

/-! ## Changing entries -/

/-- The same entries under a lower bound. -/
def relax {bound : Option String} {key : String} (h : Above bound key) :
    From α (some key) → From α bound
  | .nil => .nil
  | .cons name above value rest => .cons name (h.trans above) value rest

/-- Gives a name that lies above the bound a value, in place of the one it had. -/
def insertAbove (name : String) (new : α) :
    {lo : Option String} → Above lo name → From α lo → From α lo
  | _, h, .nil => .cons name h new .nil
  | _, h, .cons key above value rest =>
    if hlt : name < key then .cons name h new (.cons key (.of_lt hlt) value rest)
    else if heq : name = key then .cons key above new rest
    else .cons key above value (rest.insertAbove name new (.of_lt (lt_of_not_lt_of_ne hlt heq)))

def erase (name : String) : {lo : Option String} → From α lo → From α lo
  | _, .nil => .nil
  | _, .cons key above value rest =>
    if key = name then rest.relax above else .cons key above value (rest.erase name)

def map (f : α → β) : {lo : Option String} → From α lo → From β lo
  | _, .nil => .nil
  | _, .cons key above value rest => .cons key above (f value) (rest.map f)

def insert (d : Dict α) (name : String) (new : α) : Dict α := d.insertAbove name new trivial

end From

/-- The dictionary of a list of entries, of which a later one of the same name wins. -/
def ofList (entries : List (String × α)) : Dict α :=
  entries.foldl (fun d e => d.insert e.1 e.2) .nil

/-! ## What changes do to a look-up -/

namespace From

@[simp] theorem get?_nil (name : String) : (nil : From α lo).get? name = none := rfl

theorem get?_cons {key : String} {above : Above lo key} {value : α} {rest : From α (some key)}
    (name : String) :
    (cons key above value rest).get? name = if key = name then some value else rest.get? name :=
  rfl

@[simp] theorem get?_relax {bound : Option String} {key : String} (h : Above bound key)
    (d : From α (some key)) (name : String) : (d.relax h).get? name = d.get? name := by
  cases d <;> rfl

theorem get?_eq_none_of_le {key name : String} (h : ¬key < name) :
    (d : From α (some key)) → d.get? name = none
  | .nil => rfl
  | .cons other above _ rest => by
    have hlt : key < other := above
    have hne : other ≠ name := fun e => h (e ▸ hlt)
    have hrest : ¬other < name := fun e => h (String.lt_trans hlt e)
    simp [get?_cons, hne, get?_eq_none_of_le hrest rest]

theorem get?_insertAbove_self (name : String) (new : α) :
    {lo : Option String} → (h : Above lo name) → (d : From α lo) →
      (d.insertAbove name new h).get? name = some new
  | _, _, .nil => by simp [insertAbove, get?_cons]
  | _, _, .cons key above value rest => by
    unfold insertAbove
    split
    · simp [get?_cons]
    · split
      · next heq => simp [get?_cons, heq]
      · next hlt heq =>
        rw [get?_cons, if_neg (Ne.symm heq)]
        exact get?_insertAbove_self name new _ rest

theorem get?_insertAbove_of_ne {name other : String} (hne : other ≠ name) (new : α) :
    {lo : Option String} → (h : Above lo name) → (d : From α lo) →
      (d.insertAbove name new h).get? other = d.get? other
  | _, _, .nil => by simp [insertAbove, get?_cons, Ne.symm hne]
  | _, _, .cons key above value rest => by
    unfold insertAbove
    split
    · rw [get?_cons, if_neg (Ne.symm hne), get?_cons, get?_cons]
    · split
      · next heq => rw [get?_cons, get?_cons, if_neg (heq ▸ Ne.symm hne), if_neg (heq ▸ Ne.symm hne)]
      · rw [get?_cons, get?_cons, get?_insertAbove_of_ne hne new _ rest]

theorem get?_insert_self (d : Dict α) (name : String) (new : α) :
    (d.insert name new).get? name = some new := get?_insertAbove_self name new _ d

theorem get?_insert_of_ne (d : Dict α) {name other : String} (hne : other ≠ name) (new : α) :
    (d.insert name new).get? other = d.get? other := get?_insertAbove_of_ne hne new _ d

theorem get?_erase_self (name : String) :
    {lo : Option String} → (d : From α lo) → (d.erase name).get? name = none
  | _, .nil => rfl
  | _, .cons key above value rest => by
    unfold erase
    split
    · next heq =>
      rw [get?_relax]
      exact get?_eq_none_of_le (heq ▸ String.lt_irrefl key) rest
    · next hne => rw [get?_cons, if_neg hne, get?_erase_self name rest]

theorem get?_erase_of_ne {name other : String} (hne : other ≠ name) :
    {lo : Option String} → (d : From α lo) → (d.erase name).get? other = d.get? other
  | _, .nil => rfl
  | _, .cons key above value rest => by
    unfold erase
    split
    · next heq => rw [get?_relax, get?_cons, if_neg (heq ▸ Ne.symm hne)]
    · rw [get?_cons, get?_cons, get?_erase_of_ne hne rest]

theorem ext {d e : From α lo} (h : ∀ name, d.get? name = e.get? name) : d = e := by
  induction d with
  | nil =>
    cases e with
    | nil => rfl
    | cons key above value rest =>
      have hkey := h key
      rw [get?_nil, get?_cons, if_pos rfl] at hkey
      cases hkey
  | cons key above value rest ih =>
    cases e with
    | nil =>
      have hkey := h key
      rw [get?_nil, get?_cons, if_pos rfl] at hkey
      cases hkey
    | cons other above' value' rest' =>
      have hkey := h key
      have hother := h other
      rw [get?_cons, if_pos rfl, get?_cons] at hkey
      rw [get?_cons, get?_cons, if_pos rfl] at hother
      by_cases hsame : other = key
      · subst hsame
        rw [if_pos rfl] at hkey
        cases hkey
        congr 1
        refine ih fun name => ?_
        by_cases hname : other = name
        · subst hname
          rw [get?_eq_none_of_le (String.lt_irrefl _) rest,
            get?_eq_none_of_le (String.lt_irrefl _) rest']
        · have hrest := h name
          rwa [get?_cons, get?_cons, if_neg hname, if_neg hname] at hrest
      · -- the lower one of two different names is in one of the dictionaries only
        rw [if_neg hsame] at hkey
        rw [if_neg (Ne.symm hsame)] at hother
        by_cases hlt : other < key
        · rw [get?_eq_none_of_le (String.lt_asymm hlt) rest] at hother
          cases hother
        · rw [get?_eq_none_of_le hlt rest'] at hkey
          cases hkey

end From

/-! ## Dictionaries of entries -/

theorem get?_foldl_insert (entries : List (String × α)) (found : Dict α) (name : String) :
    (entries.foldl (fun d e => d.insert e.1 e.2) found).get? name =
      (entries.reverse.lookup name).or (found.get? name) := by
  induction entries generalizing found with
  | nil => rfl
  | cons e entries ih =>
    rw [List.foldl_cons, ih, List.reverse_cons, List.lookup_append, Option.or_assoc]
    by_cases hname : name = e.1
    · rw [hname, From.get?_insert_self, List.lookup_cons, beq_self_eq_true]
      rfl
    · rw [From.get?_insert_of_ne found hname, List.lookup_cons, beq_false_of_ne hname]
      rfl

theorem get?_ofList (entries : List (String × α)) (name : String) :
    (ofList entries).get? name = entries.reverse.lookup name := by
  rw [ofList, get?_foldl_insert, From.get?_nil, Option.or_none]

/-- The entries of a dictionary have different names, so their order is no matter. -/
theorem From.lookup_reverse_toList (d : From α lo) (name : String) :
    d.toList.reverse.lookup name = d.get? name := by
  induction d with
  | nil => rfl
  | cons key above value rest ih =>
    rw [toList, List.reverse_cons, List.lookup_append, ih, get?_cons, List.lookup_cons]
    by_cases hname : name = key
    · subst hname
      rw [get?_eq_none_of_le (String.lt_irrefl _) rest, beq_self_eq_true, if_pos rfl]
      rfl
    · rw [beq_false_of_ne hname, if_neg (Ne.symm hname), List.lookup_nil]
      exact Option.or_none

theorem ofList_toList (d : Dict α) : ofList d.toList = d :=
  From.ext fun name => by rw [get?_ofList, From.lookup_reverse_toList]

end Dict

end Conduct
