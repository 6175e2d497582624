import Mathlib.Algebra.GroupWithZero.Nat
import Mathlib.Data.Int.Notation
import Mathlib.Data.List.Nodup

/-!
# JSON values

The values of a JSON document: objects keep the order of their keys, and a number is a natural
number, a negative integer or a double, as it was written.  In a document no object has a key
twice (`Json.WF`).

Doubles are of a type `F` with the operations of `Float64`, of which nothing else is known.  A JSON
number is always finite, so `F` stands for the finite doubles.
-/

set_option autoImplicit false

namespace Data

/-- The values of a `u64`. -/
abbrev U64 := Fin (2 ^ 64)

instance neZero_u64 : NeZero (2 ^ 64) := inferInstance

/-- What a program asks of the finite doubles. -/
class Float64 (F : Type) where
  /-- An integer of at most 64 bits `as f64`. -/
  ofInt : ℤ → F
  /-- `x <= 0.0`. -/
  nonpos : F → Bool
  /-- The digits a double is printed with. -/
  text : F → String

/-- Whole numbers standing for themselves. -/
instance : Float64 ℤ := ⟨id, fun x ↦ decide (x ≤ 0), fun x ↦ toString x ++ ".0"⟩

/-- A JSON number: an integer that fits 64 bits, or a double.  `neg n` is `-(n + 1)`. -/
inductive Number (F : Type)
  | pos (n : U64)
  | neg (n : Fin (2 ^ 63))
  | float (x : F)
deriving DecidableEq

/-- The double nearest to a number. -/
def Number.toFloat {F : Type} [Float64 F] : Number F → F
  | .pos n => Float64.ofInt n.val
  | .neg n => Float64.ofInt (-(n.val + 1))
  | .float x => x

/-- The digits of a number. -/
def Number.text {F : Type} [Float64 F] : Number F → String
  | .pos n => toString n.val
  | .neg n => "-" ++ toString (n.val + 1)
  | .float x => Float64.text x

/-- A JSON value. -/
inductive Json (F : Type)
  | null
  | bool (b : Bool)
  | number (n : Number F)
  | string (s : String)
  | array (items : List (Json F))
  | object (entries : List (String × Json F))

namespace Json

variable {F : Type}

/-- No object of the value has a key twice. -/
inductive WF : Json F → Prop
  | null : WF .null
  | bool (b : Bool) : WF (.bool b)
  | number (n : Number F) : WF (.number n)
  | string (s : String) : WF (.string s)
  | array {items : List (Json F)} (h : ∀ item ∈ items, WF item) : WF (.array items)
  | object {entries : List (String × Json F)} (nodup : (entries.map Prod.fst).Nodup)
      (h : ∀ entry ∈ entries, WF entry.2) : WF (.object entries)

end Json

end Data
