import Conduct.Json.Mismatch

/-! Typed data from values of JSON.

A decoder gives the data that a value stands for, or why it does not fit. A record of settings is
decoded from a dictionary in the order of its names: each known name changes its setting, other
names are passed over, and the first value that does not fit is reported.
-/

set_option autoImplicit false

namespace Conduct.Json

abbrev Decoder (α : Type) : Type := Json → Except Mismatch α

def wrongType {α : Type} (j : Json) (wanted : String) : Except Mismatch α :=
  .error (.wrongType (.ofJson j) wanted)

namespace Decode

def bool : Decoder Bool
  | .bool b => .ok b
  | j => wrongType j "a boolean"

def string : Decoder String
  | .str s => .ok s
  | j => wrongType j "a string"

def float : Decoder Float
  | .num n => .ok n.toFloat
  | j => wrongType j "f64"

/-- A whole number from `low` up to but without `high`. -/
def between (low high : Int) (wanted : String) : Decoder Int
  | .num (.int n _) => if low ≤ n ∧ n < high then .ok n else .error (.outOfRange n wanted)
  | j => wrongType j wanted

def int64 : Decoder Int := between (-0x8000000000000000) 0x8000000000000000 "i64"

def count (j : Json) : Except Mismatch Nat := (between 0 UInt64.size "usize" j).map Int.toNat

def uint64 (j : Json) : Except Mismatch UInt64 :=
  (between 0 UInt64.size "u64" j).map fun n => UInt64.ofNat n.toNat

def uint32 (j : Json) : Except Mismatch UInt32 :=
  (between 0 UInt32.size "u32" j).map fun n => UInt32.ofNat n.toNat

def uint8 (j : Json) : Except Mismatch Nat := (between 0 UInt8.size "u8" j).map Int.toNat

/-- Data that null stands in the place of. -/
def optional {α : Type} (decode : Decoder α) : Decoder (Option α)
  | .null => .ok none
  | j => (decode j).map some

def list {α : Type} (decode : Decoder α) : Decoder (List α)
  | .arr items => items.mapM decode
  | j => wrongType j "a sequence"

def named {α : Type} (variants : List (String × α)) (name : String) : Except Mismatch α :=
  match variants.lookup name with
  | some a => .ok a
  | none => .error (.unknownVariant name (variants.map Prod.fst))

/-- One of the named variants, by its name or as the only member of an object whose value is null.
-/
def variant {α : Type} (variants : List (String × α)) : Decoder α
  | .str name => named variants name
  | .obj members =>
    match members.toList with
    | [(name, content)] => do
      let a ← named variants name
      match content with
      | .null => .ok a
      | other => wrongType other "unit"
    | _ => .error .notSingleKey
  | j => wrongType j "string or map"

end Decode

/-! ## Settings -/

/-- How the value of a name changes a record of settings. -/
structure Setting (σ : Type) where
  name : String
  change : Json → σ → Except Mismatch σ

def Setting.of {σ α : Type} (name : String) (decode : Decoder α) (put : σ → α → σ) : Setting σ :=
  ⟨name, fun j s => (decode j).map (put s)⟩

def Setting.apply {σ : Type} (known : List (Setting σ)) (s : σ) (entry : String × Json) :
    Except Mismatch σ :=
  match known.find? fun setting => setting.name == entry.1 with
  | some setting => setting.change entry.2 s
  | none => .ok s

def Setting.decode {σ : Type} (known : List (Setting σ)) (start : σ) (bag : Dict Json) :
    Except Mismatch σ :=
  bag.toList.foldlM (Setting.apply known) start

end Conduct.Json
