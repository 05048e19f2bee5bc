import Telematics.Level

/-!
# Rises of a list of levels

`rises` walks along a list, down while the next value is not larger and up while it is, and gives
the positions of the foot and the top of every climb. Two neighbours that cannot be compared leave
the walk where it is for ever; then there is no answer.
-/

set_option autoImplicit false

namespace Telematics

namespace Rise

variable {α : Type} [Level α]

/-- The climb that ends at position `i`, if one started at `foot`. -/
def finished (foot : Option Nat) (i : Nat) : List (Nat × Nat) :=
  match foot with
  | some t => [(t, i)]
  | none => []

/-- The walk from position `i`, where the value is `here`; `foot` is where the present climb
started. -/
def walk (i : Nat) (here : α) (foot : Option Nat) : List α → Option (List (Nat × Nat))
  | [] => some (finished foot i)
  | next :: rest =>
    if next ≤ here then (walk (i + 1) next none rest).map (finished foot i ++ ·)
    else if here < next then walk (i + 1) next (some (foot.getD i)) rest
    else none

end Rise

/-- The positions of the foot and the top of every climb, from the left; none if two neighbours
cannot be compared. -/
def rises {α : Type} [Level α] : List α → Option (List (Nat × Nat))
  | [] => some []
  | x :: xs => Rise.walk 0 x none xs

end Telematics
