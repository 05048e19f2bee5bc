import Telematics.Proofs.ActivityRuns
import Telematics.Proofs.GuardedSteps

/-!
# Guarded reports

The builders of segments with guards: a duration that 32 bits do not hold is not made to fit, and
the test for the shortest segment turns durations back into lengths of time. The guards never fail
where the lengths are those of stretches in an asked range that is not too long, or of stretches
that start not too long before its end (`clip_eq`, `keepStarts_eq`).
-/

set_option autoImplicit false

namespace Telematics.Guarded

variable {asked : Range} {start stop : Instant}

/-! ## Single segments -/

/-- The whole seconds of a length, if 32 bits hold them. -/
def durationOf (d : Span) : Option Int :=
  let s := d.wholeSeconds
  if -2147483648 ≤ s ∧ s ≤ Segment.longest then some s else none

/-- A finished segment; none unless it stops after it starts. -/
def closed (start stop : Instant) (startedBefore : Bool) : Option (Option Segment) :=
  if start < stop then do
    let duration ← durationOf (stop - start)
    return some ⟨start, some stop, duration, false, startedBefore⟩
  else return none

/-- A segment in progress at the end of the asked range. -/
def ongoing (start askedStop : Instant) (startedBefore : Bool) : Option (Option Segment) := do
  let duration ← durationOf (askedStop - start)
  return some ⟨start, none, duration, true, startedBefore⟩

/-- The closed segment of a range cut to the asked range. -/
def clipped (asked r : Range) : Option (Option Segment) :=
  closed (max r.start asked.start) (min r.stop asked.stop) (decide (r.start < asked.start))

/-- The ongoing segment of a range that starts before the end of the asked range. -/
def clippedOngoing (asked r : Range) : Option (Option Segment) :=
  let start := max r.start asked.start
  if start < asked.stop then ongoing start asked.stop (decide (r.start < asked.start))
  else return none

/-- The closed segment of a range from its own start, its stop capped by the asked range. -/
def capped (asked r : Range) : Option (Option Segment) :=
  closed r.start (min r.stop asked.stop) (decide (r.start < asked.start))

/-- The ongoing segment of a range from its own start. -/
def cappedOngoing (asked r : Range) : Option (Option Segment) :=
  ongoing r.start asked.stop (decide (r.start < asked.start))

/-! ## Lists of segments -/

/-- The segments of a list of ranges, with a rule of its own for the last one. -/
def ofRanges (inner last : Range → Option (Option Segment)) : List Range → Option (List Segment)
  | [] => some []
  | [r] => (last r).map Option.toList
  | r :: next :: rest => do
    let first ← inner r
    let others ← ofRanges inner last (next :: rest)
    return first.toList ++ others

/-- The segments that are reported as at least so long. -/
def atLeast (shortest : Span) (segments : List Segment) : Option (List Segment) :=
  collect (fun s => do
    let duration ← seconds s.durationSeconds
    return if shortest ≤ duration then some s else none) segments

/-- The segments of ranges that are long enough. -/
def report (inner last : Range → Option (Option Segment)) (shortest : Span) (ranges : List Range) :
    Option (List Segment) := do
  let segments ← ofRanges inner last ranges
  atLeast shortest segments

/-- The segments of ranges cut to the asked range; the last one is in progress if `lastOngoing`. -/
def clip (asked : Range) (shortest : Span) (lastOngoing : Bool) :
    List Range → Option (List Segment) :=
  report (clipped asked) (if lastOngoing then clippedOngoing asked else clipped asked) shortest

/-- The segments of ranges from their own starts; the last one is in progress if `lastOngoing`. -/
def keepStarts (asked : Range) (shortest : Span) (lastOngoing : Bool) :
    List Range → Option (List Segment) :=
  report (capped asked) (if lastOngoing then cappedOngoing asked else capped asked) shortest

/-! ## The guards never fail -/

/-- A guarded segment is the plain one, and 32 bits hold its duration. -/
def Agrees (guarded : Option (Option Segment)) (plain : Option Segment) : Prop :=
  guarded = some plain ∧
    ∀ s, plain = some s → -2147483648 ≤ s.durationSeconds ∧ s.durationSeconds ≤ Segment.longest

theorem agrees_none : Agrees (some none) none := ⟨rfl, fun _ h => absurd h (by simp)⟩

theorem durationOf_eq {d : Span} (h0 : 0 ≤ d) (h : d ≤ Span.seconds Segment.longest) :
    durationOf d = some (Segment.durationOf d) ∧
      -2147483648 ≤ Segment.durationOf d ∧ Segment.durationOf d ≤ Segment.longest := by
  obtain ⟨hlow, hhigh⟩ := Span.wholeSeconds_le h0 h
  have hfits : -2147483648 ≤ d.wholeSeconds ∧ d.wholeSeconds ≤ Segment.longest :=
    ⟨by omega, hhigh⟩
  rw [Segment.durationOf_eq_wholeSeconds h0 h]
  exact ⟨if_pos hfits, hfits⟩

theorem agrees_ongoing (hle : start ≤ stop) (h : stop - start ≤ Span.seconds Segment.longest)
    (before : Bool) :
    Agrees (ongoing start stop before) (some (Segment.ongoing start stop before)) := by
  obtain ⟨heq, hfits⟩ := durationOf_eq (d := stop - start) (Int.sub_nonneg_of_le hle) h
  refine ⟨?_, ?_⟩
  · rw [ongoing, heq]
    rfl
  · rintro s hs
    obtain rfl := Option.some.inj hs
    exact hfits

theorem agrees_closed (h : stop - start ≤ Span.seconds Segment.longest) (before : Bool) :
    Agrees (closed start stop before) (Segment.closed? start stop before) := by
  rw [closed, Segment.closed?]
  split
  · rename_i hlt
    obtain ⟨heq, hfits⟩ :=
      durationOf_eq (d := stop - start) (Int.sub_nonneg_of_le (Int.le_of_lt hlt)) h
    refine ⟨?_, ?_⟩
    · rw [heq]
      rfl
    · rintro s hs
      obtain rfl := Option.some.inj hs
      exact hfits
  · exact agrees_none

theorem atLeast_eq {segments : List Segment} (shortest : Span)
    (h : ∀ s ∈ segments, -2147483648 ≤ s.durationSeconds ∧ s.durationSeconds ≤ Segment.longest) :
    atLeast shortest segments = some (Segment.atLeast shortest segments) := by
  rw [atLeast, Segment.atLeast, ← List.filterMap_eq_filter]
  apply collect_eq
  intro s hs
  obtain ⟨hlow, hhigh⟩ := h s hs
  rw [Segment.longest] at hhigh
  rw [seconds_eq (by rw [mostSeconds]; omega) (by rw [mostSeconds]; omega)]
  exact congrArg some (if_congr decide_eq_true_iff.symm rfl rfl)

theorem report_eq {inner last : Range → Option (Option Segment)}
    {plainInner plainLast : Range → Option Segment} {ranges : List Range} (shortest : Span)
    (hinner : ∀ r ∈ ranges, Agrees (inner r) (plainInner r))
    (hlast : ∀ r ∈ ranges, Agrees (last r) (plainLast r)) :
    report inner last shortest ranges =
      some (Segment.atLeast shortest (Segment.ofRanges plainInner plainLast ranges)) := by
  have hsegments : ofRanges inner last ranges =
      some (Segment.ofRanges plainInner plainLast ranges) := by
    induction ranges with
    | nil => rfl
    | cons r rest ih =>
        obtain ⟨hr, hrest⟩ := List.forall_mem_cons.1 hinner
        obtain ⟨hr', hrest'⟩ := List.forall_mem_cons.1 hlast
        cases rest with
        | nil =>
            rw [ofRanges, hr'.1]
            rfl
        | cons next rest =>
            rw [ofRanges, hr.1, ih hrest hrest']
            rfl
  rw [report, hsegments]
  exact atLeast_eq shortest
    (Segment.forall_mem_ofRanges (fun r hr => (hinner r hr).2) fun r hr => (hlast r hr).2)

/-- Ranges are cut to an asked range that is not too long. -/
theorem clip_eq (hasked : asked.length ≤ Span.seconds Segment.longest) (shortest : Span)
    (lastOngoing : Bool) (ranges : List Range) :
    clip asked shortest lastOngoing ranges =
      some (Segment.atLeast shortest (Segment.clip asked lastOngoing ranges)) := by
  rw [Range.length, Instant.sub_le_iff] at hasked
  have hclipped : ∀ r, Agrees (clipped asked r) (Segment.clipped asked r) := by
    intro r
    apply agrees_closed
    rw [Instant.sub_le_iff, Instant.nanos_min, Instant.nanos_max]
    omega
  apply report_eq shortest fun r _ => hclipped r
  intro r _
  cases lastOngoing with
  | false => exact hclipped r
  | true =>
      simp only [if_true, clippedOngoing, Segment.clippedOngoing]
      split
      · rename_i hlt
        apply agrees_ongoing (Int.le_of_lt hlt)
        rw [Instant.sub_le_iff, Instant.nanos_max]
        omega
      · exact agrees_none

/-- Ranges start before the asked range is over, and not too long before that. -/
theorem keepStarts_eq {ranges : List Range} (shortest : Span) (lastOngoing : Bool)
    (h : ∀ r ∈ ranges, r.start < asked.stop ∧ asked.stop - r.start ≤ Span.seconds Segment.longest) :
    keepStarts asked shortest lastOngoing ranges =
      some (Segment.atLeast shortest (Segment.keepStarts asked lastOngoing ranges)) := by
  have hcapped : ∀ r ∈ ranges, Agrees (capped asked r) (Segment.capped asked r) := by
    intro r hr
    have hshort := (h r hr).2
    apply agrees_closed
    rw [Instant.sub_le_iff] at hshort ⊢
    rw [Instant.nanos_min]
    omega
  apply report_eq shortest hcapped
  intro r hr
  cases lastOngoing with
  | false => exact hcapped r hr
  | true => exact agrees_ongoing (Int.le_of_lt (h r hr).1) (h r hr).2 _

/-- Stretches of activity from their own starts. -/
theorem keepStarts_ofStretches_eq {active : List Range} (now : Instant) (gap shortest : Span)
    (h : ∀ a ∈ active, a.start < asked.stop ∧
      asked.stop - a.start ≤ Span.seconds Segment.longest) :
    let found := Activity.ofStretches asked now gap shortest active
    keepStarts asked shortest found.lastOngoing found.runs =
      some (found.keepStarts asked shortest) := by
  apply keepStarts_eq
  intro r hr
  -- a merged range starts where its first member does
  exact Range.forall_mem_mergeWith
    (P := fun r => r.start < asked.stop ∧ asked.stop - r.start ≤ Span.seconds Segment.longest)
    (fun _ _ ha _ => ha) h r (Activity.mem_relevant_iff.1 hr).1

end Telematics.Guarded
