import Telematics.Request
import Telematics.Segment

/-!
# Accepted requests

What a detector may rely on once `Request.rejection` found nothing: the range is not empty, at most
30 days long and over, and every tunable is allowed. A tunable that is left out falls back to a
default; where the default is allowed, so is the value that counts (`allowed_getD`).
-/

set_option autoImplicit false

namespace Telematics

namespace Tuning

variable {t : Tuning}

/-- Each tunable of a tuning in which nothing is outside is not outside. -/
theorem firstOutside_eq_none_iff :
    t.firstOutside = none ↔
      t.minIdleSeconds.bind (outsideInt .minIdle) = none ∧
      t.minSegmentSeconds.bind (outsideInt .minSegment) = none ∧
      (t.signalCountThreshold.bind fun n => outsideInt .signalCount n) = none ∧
      t.maxGapSeconds.bind (outsideInt .maxGap) = none ∧
      t.maxIdleRpm.bind outsideRpm = none ∧
      t.minIncreasePercent.bind outsideIncrease = none := by
  simp only [firstOutside, Option.orElse_eq_orElse, ← Option.or_eq_orElse, Option.or_eq_none_iff]

/-- A whole number that is not outside is allowed, and so is the default in its place. -/
theorem allowed_getD {tunable : Tunable} {v : Option Int} {default : Int}
    (h : v.bind (outsideInt tunable) = none) (hdefault : tunable.allows default = true) :
    tunable.allows (v.getD default) = true := by
  cases v with
  | none => exact hdefault
  | some v =>
      rw [Option.bind_some, outsideInt] at h
      split at h
      · rename_i hallowed
        exact hallowed
      · exact absurd h (by simp)

theorem allows_iff {tunable : Tunable} {v : Int} :
    tunable.allows v = true ↔ (tunable.low : Int) ≤ v ∧ v ≤ tunable.high := by
  rw [Tunable.allows, Bool.and_eq_true, decide_eq_true_eq, decide_eq_true_eq]

/-- The shortest segment lasts from one second to an hour. -/
theorem minSegment_bounds (h : t.firstOutside = none) {default : Int}
    (hdefault : Tunable.minSegment.allows default = true) :
    1 ≤ t.minSegmentSeconds.getD default ∧ t.minSegmentSeconds.getD default ≤ 3600 :=
  allows_iff.1 (allowed_getD (firstOutside_eq_none_iff.1 h).2.1 hdefault)

/-- So it is positive, and 32 bits hold its seconds. -/
theorem minSegment_reportable (h : t.firstOutside = none) {default : Int}
    (hdefault : Tunable.minSegment.allows default = true) :
    0 < t.minSegmentSeconds.getD default ∧
      t.minSegmentSeconds.getD default ≤ Segment.longest := by
  obtain ⟨hlow, hhigh⟩ := minSegment_bounds h hdefault
  exact ⟨hlow, Int.le_trans hhigh (by decide)⟩

/-- The shortest time off that ends a trip lasts from one minute to an hour. -/
theorem minIdle_bounds (h : t.firstOutside = none) {default : Int}
    (hdefault : Tunable.minIdle.allows default = true) :
    60 ≤ t.minIdleSeconds.getD default ∧ t.minIdleSeconds.getD default ≤ 3600 :=
  allows_iff.1 (allowed_getD (firstOutside_eq_none_iff.1 h).1 hdefault)

/-- The longest gap lasts from one second to two hours. -/
theorem maxGap_bounds (h : t.firstOutside = none) {default : Int}
    (hdefault : Tunable.maxGap.allows default = true) :
    1 ≤ t.maxGapSeconds.getD default ∧ t.maxGapSeconds.getD default ≤ 7200 :=
  allows_iff.1 (allowed_getD (firstOutside_eq_none_iff.1 h).2.2.2.1 hdefault)

/-- An active window has at least three arrivals. -/
theorem le_countThreshold (h : t.firstOutside = none) {default : Nat} (hdefault : 3 ≤ default) :
    3 ≤ t.countThreshold default := by
  have hcount := (firstOutside_eq_none_iff.1 h).2.2.1
  rw [countThreshold]
  cases hn : t.signalCountThreshold with
  | none => exact hdefault
  | some n =>
      rw [hn, Option.bind_some, outsideInt] at hcount
      split at hcount
      · rename_i hallowed
        exact Int.ofNat_le.1 (allows_iff.1 hallowed).1
      · exact absurd hcount (by simp)

/-- The ceiling of the engine speed is at least 100. -/
theorem le_idleRpm (h : t.firstOutside = none) {default : Float} (hdefault : 100.0 ≤ default) :
    100.0 ≤ t.idleRpm default := by
  have hrpm := (firstOutside_eq_none_iff.1 h).2.2.2.2.1
  rw [idleRpm]
  cases hv : t.maxIdleRpm with
  | none => exact hdefault
  | some v =>
      rw [hv, Option.bind_some, outsideRpm] at hrpm
      split at hrpm
      · rename_i hallowed
        exact hallowed.1
      · exact absurd hrpm (by simp)

/-- The least increase is above zero. -/
theorem minIncrease_pos (h : t.firstOutside = none) {default : Float} (hdefault : 0.0 < default) :
    0.0 < t.minIncrease default := by
  have hincrease := (firstOutside_eq_none_iff.1 h).2.2.2.2.2
  rw [minIncrease]
  cases hv : t.minIncreasePercent with
  | none => exact hdefault
  | some v =>
      rw [hv, Option.bind_some, outsideIncrease] at hincrease
      split at hincrease
      · rename_i hallowed
        exact hallowed.1
      · exact absurd hincrease (by simp)

/-! The lengths of time that follow. -/

theorem minSegment_pos (h : t.firstOutside = none) {default : Int}
    (hdefault : Tunable.minSegment.allows default = true) : 0 < t.minSegment default :=
  Int.mul_pos (minSegment_bounds h hdefault).1 (by decide)

theorem minIdle_nonneg (h : t.firstOutside = none) {default : Int}
    (hdefault : Tunable.minIdle.allows default = true) : 0 ≤ t.minIdle default := by
  have hlow := (minIdle_bounds h hdefault).1
  exact Int.mul_nonneg (by omega) (by decide)

theorem maxGap_nonneg (h : t.firstOutside = none) {default : Int}
    (hdefault : Tunable.maxGap.allows default = true) : 0 ≤ t.maxGap default := by
  have hlow := (maxGap_bounds h hdefault).1
  exact Int.mul_nonneg (by omega) (by decide)

end Tuning

/-- What holds of an accepted request. -/
structure Request.Accepted (now : Instant) (r : Request) : Prop where
  /-- The range is not empty. -/
  ascending : r.asked.start < r.asked.stop
  /-- It is at most 30 days long. -/
  short : r.asked.length ≤ Span.days 30
  /-- It is over. -/
  past : r.asked.stop ≤ now
  /-- Every tunable is allowed. -/
  allowed : r.tuning.firstOutside = none

/-- A request that is not rejected is accepted. -/
theorem Request.accepted_of_rejection_eq_none {now : Instant} {r : Request}
    (h : r.rejection now = none) : r.Accepted now := by
  rw [rejection] at h
  split at h
  · exact absurd h (by simp)
  · split at h
    · exact absurd h (by simp)
    · rename_i hascending
      split at h
      · exact absurd h (by simp)
      · split at h
        · exact absurd h (by simp)
        · rename_i hshort
          split at h
          · exact absurd h (by simp)
          · rename_i hpast
            exact ⟨Int.not_le.1 hascending, Int.not_lt.1 hshort, Int.not_lt.1 hpast,
              Option.map_eq_none_iff.1 h⟩

end Telematics
