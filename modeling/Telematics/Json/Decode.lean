import Telematics.Json.Value
import Telematics.Number.Word
import Telematics.Time.Rfc3339

/-!
# Decoding JSON values

What a JSON value has to be to stand for a truth value, a number, a text, an instant or a record. A
record is an object with the names of its fields, each at most once, or an array of all its fields
in order; names that it does not have are passed over. An optional field is left out or null.
-/

set_option autoImplicit false

namespace Telematics

namespace Json

/-- A truth value. -/
def bool? : Json → Option Bool
  | bool b => some b
  | _ => none

/-- A text. -/
def text? : Json → Option String
  | text s => s
  | _ => none

/-- A whole number between bounds. -/
def int? (low high : Int) : Json → Option Int
  | number n => n.toInt?.filter fun v => decide (low ≤ v) && decide (v ≤ high)
  | _ => none

/-- A whole number of 64 bits with a sign. -/
def int64? : Json → Option Int := int? Number.leastInt64 Number.mostInt64

/-- A whole number of 32 bits with a sign. -/
def int32? : Json → Option Int := int? Number.leastInt32 Number.mostInt32

/-- A whole number of 64 bits without a sign. -/
def nat64? (j : Json) : Option Nat := (j.int? 0 Number.mostNat64).map Int.toNat

/-- A whole number of 32 bits without a sign. -/
def nat32? (j : Json) : Option Nat := (j.int? 0 Number.mostNat32).map Int.toNat

/-- A floating-point number; whole numbers are such too. -/
def float? : Json → Option Float
  | number n =>
    match n.toInt? with
    | some v => some (Float.ofInt v)
    | none => n.toFloat?
  | _ => none

/-- An instant. -/
def instant? (j : Json) : Option Instant := j.text?.bind fun s => (Instant.parse s).toOption

/-- The items of an array. -/
def items? : Json → Option (List Json)
  | array items => some items
  | _ => none

/-- Every name has a text, and no name of a field comes twice. -/
def namesFit (names : List String) (members : List (Option String × Json)) : Bool :=
  (members.all fun m => m.1.isSome) &&
    names.all fun name => decide (members.countP (fun m => m.1 == some name) ≤ 1)

/-- The values of the fields of a record, in the order of their names. -/
def fields? (names : List String) : Json → Option (List (Option Json))
  | array items => if items.length = names.length then some (items.map some) else none
  | object members =>
    if namesFit names members then some (names.map fun name => members.lookup (some name)) else none
  | _ => none

/-- A field that must be there. -/
def required {α : Type} (decode : Json → Option α) (field : Option Json) : Option α :=
  field.bind decode

/-- A field that may be left out or null. -/
def optional {α : Type} (decode : Json → Option α) : Option Json → Option (Option α)
  | none => some none
  | some null => some none
  | some j => (decode j).map some

/-- The items of an array, all decoded. -/
def list? {α : Type} (decode : Json → Option α) (j : Json) : Option (List α) :=
  j.items?.bind fun items => items.mapM decode

end Json

end Telematics
