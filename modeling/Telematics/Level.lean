/-!
# Arithmetic of levels

Detection compares, subtracts and averages readings of a level. `Level` names the operations that it
needs, so that the same definitions run on floating-point readings and can be reasoned about with
exact rational ones.
-/

set_option autoImplicit false

namespace Telematics

/-- Numbers that a reading of a level may be. -/
class Level (α : Type) extends Add α, Sub α, Mul α, Div α, LT α, LE α, OfScientific α where
  /-- A count as a level. -/
  ofCount : Nat → α
  decideLt : DecidableRel (fun a b : α => a < b)
  decideLe : DecidableRel (fun a b : α => a ≤ b)
  /-- Both are the same number. -/
  same : α → α → Bool

namespace Level

instance {α : Type} [Level α] (a b : α) : Decidable (a < b) := Level.decideLt a b

instance {α : Type} [Level α] (a b : α) : Decidable (a ≤ b) := Level.decideLe a b

/-- Floating-point readings, as sources deliver them. -/
instance : Level Float where
  ofCount := Float.ofNat
  decideLt := fun a b => inferInstanceAs (Decidable (a < b))
  decideLe := fun a b => inferInstanceAs (Decidable (a ≤ b))
  same := fun a b => a == b

/-- Exact readings. -/
instance : Level Rat where
  ofCount := fun n => n
  decideLt := fun a b => inferInstanceAs (Decidable (a < b))
  decideLe := fun a b => inferInstanceAs (Decidable (a ≤ b))
  same := fun a b => a == b

end Level

end Telematics
