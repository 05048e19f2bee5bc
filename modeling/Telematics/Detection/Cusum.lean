import Telematics.Number.Significant

/-!
# Change points of a rate

A score follows the counts of successive windows: each count raises it, each window lowers it by the
rate that is normal and a drift, and it never falls below zero. A window is active while the score
is above a threshold. Scores are counted in halves and held to 53 significant binary digits after
every operation; sums of counts below 2 ^ 51 are exact.
-/

set_option autoImplicit false

namespace Telematics.Cusum

/-- The significant binary digits of a score. -/
def precision : Nat := 53

/-- The normal count of a window, in halves. -/
def baseline : Int := 2

/-- What a window loses besides, in halves. -/
def drift : Int := 1

/-- The score above which a window is active, in halves. -/
def threshold : Int := 10

/-- A number of halves as a score holds it. -/
def hold (halves : Int) : Int := Number.roundBitsInt precision halves

/-- The score after a window. -/
def step (score : Int) (count : Nat) : Int :=
  max 0 (hold (hold (hold (score + hold (2 * count)) - baseline) - drift))

/-- The score after each window, from a score on. -/
def scores (score : Int) : List Nat → List Int
  | [] => []
  | count :: counts => step score count :: scores (step score count) counts

/-- Which windows are active. -/
def active (counts : List Nat) : List Bool :=
  (scores 0 counts).map fun score => decide (threshold < score)

end Telematics.Cusum
