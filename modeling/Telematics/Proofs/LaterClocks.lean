import Telematics.Proofs.CoveredTime
import Telematics.Proofs.ValidRequests

/-!
# Answers at a later clock

Some mechanisms look at the clock: what stopped shortly before the end of the asked range is taken
to be still in progress, as long as that end itself is not long past. Here the answers to one
request at two clocks are compared. `Segment.Closes` says what may become of a list of segments
meanwhile: nothing, or its last segment, which was in progress, is closed; where segments are cut to
the asked range it may also be dropped, because what is left of it is too short. Nothing else
changes, nothing is opened again, and once the end of the asked range is past by more than the gap
tolerance nothing is in progress any more (`Mechanism.closes_of_le`).

It does not matter at which clock trips from the ignition, refuels and recharges are looked for.
-/

set_option autoImplicit false

namespace Telematics

namespace Segment

/-! ## What becomes of a list of segments -/

/-- The first segment is in progress, and the second one is the same activity closed. -/
structure ClosedTo (s t : Segment) : Prop where
  ongoing : s.isOngoing = true
  finished : t.isOngoing = false
  stopped : t.stop.isSome = true
  start_eq : t.start = s.start
  startedBefore_eq : t.startedBefore = s.startedBefore

/-- What may become of segments: they stay as they are, or the last one, in progress before, is
closed; or it is dropped, where that may be. -/
inductive Closes (mayDrop : Bool) : List Segment → List Segment → Prop
  | same (found : List Segment) : Closes mayDrop found found
  | closed (init : List Segment) {s t : Segment} : (∀ x ∈ init, x.isOngoing = false) →
      s.ClosedTo t → Closes mayDrop (init ++ [s]) (init ++ [t])
  | dropped (init : List Segment) {s : Segment} : mayDrop = true →
      (∀ x ∈ init, x.isOngoing = false) → s.isOngoing = true → Closes mayDrop (init ++ [s]) init

variable {mayDrop : Bool} {found found' : List Segment}

/-- Nothing is in progress afterwards that has not been before, and then nothing has changed. -/
theorem Closes.eq_of_isOngoing (h : Closes mayDrop found found') {s : Segment} (hs : s ∈ found')
    (hongoing : s.isOngoing = true) : found' = found := by
  cases h with
  | same => rfl
  | closed init hinit hclosed =>
      rcases List.mem_append.1 hs with hs | hs
      · rw [hinit s hs] at hongoing
        exact Bool.noConfusion hongoing
      · rw [List.mem_singleton.1 hs, hclosed.finished] at hongoing
        exact Bool.noConfusion hongoing
  | dropped _ _ hinit _ =>
      rw [hinit s hs] at hongoing
      exact Bool.noConfusion hongoing

/-- Finished segments in front make no difference. -/
theorem Closes.append_left {front : List Segment} (hfront : ∀ x ∈ front, x.isOngoing = false)
    (h : Closes mayDrop found found') : Closes mayDrop (front ++ found) (front ++ found') := by
  have hall : ∀ init : List Segment, (∀ x ∈ init, x.isOngoing = false) →
      ∀ x ∈ front ++ init, x.isOngoing = false := by
    intro init hinit x hx
    rcases List.mem_append.1 hx with hx | hx
    · exact hfront x hx
    · exact hinit x hx
  cases h with
  | same => exact .same _
  | closed init hinit hclosed =>
      rw [← List.append_assoc, ← List.append_assoc]
      exact .closed _ (hall _ hinit) hclosed
  | dropped init hdrop hinit hongoing =>
      rw [← List.append_assoc]
      exact .dropped _ hdrop (hall _ hinit) hongoing

/-! ## The rule for the last range -/

variable {asked r : Range} {runs : List Range} {inner last : Range → Option Segment}
  {shortest : Span}

/-- The segments that a rule builds of one range, without those that are too short. -/
def longEnough (shortest : Span) (built : Option Segment) : List Segment :=
  (built.filter fun s => decide (shortest ≤ s.duration)).toList

theorem longEnough_none (shortest : Span) : longEnough shortest none = [] := rfl

theorem longEnough_some_of_le {s : Segment} (h : shortest ≤ s.duration) :
    longEnough shortest (some s) = [s] := by
  rw [longEnough, Option.filter_some, if_pos (decide_eq_true h)]
  rfl

theorem longEnough_some_of_lt {s : Segment} (h : ¬ shortest ≤ s.duration) :
    longEnough shortest (some s) = [] := by
  rw [longEnough, Option.filter_some, if_neg (by simpa using h)]
  rfl

/-- The segments of ranges that are long enough: those of the inner ranges and that of the last
one. -/
theorem atLeast_ofRanges_eq (shortest : Span) (inner last : Range → Option Segment)
    (runs : List Range) :
    atLeast shortest (ofRanges inner last runs) =
      atLeast shortest (runs.dropLast.filterMap inner) ++
        longEnough shortest (runs.getLast?.bind last) := by
  rw [ofRanges_eq, atLeast, atLeast, List.filter_append, longEnough, Option.toList_filter]

/-- If the rule for the last range gives what the rule for inner ranges closes, then one rule for
all ranges closes what the two rules give. -/
theorem closes_ofRanges (hinner : ∀ r s, inner r = some s → s.isOngoing = false)
    (hlast : ∀ r ∈ runs, Closes mayDrop (longEnough shortest (last r))
      (longEnough shortest (inner r))) :
    Closes mayDrop (atLeast shortest (ofRanges inner last runs))
      (atLeast shortest (ofRanges inner inner runs)) := by
  rw [atLeast_ofRanges_eq, atLeast_ofRanges_eq]
  apply Closes.append_left
  · intro s hs
    obtain ⟨r, -, hrs⟩ := List.mem_filterMap.1 (List.mem_filter.1 hs).1
    exact hinner r s hrs
  · cases h : runs.getLast? with
    | none => exact .same _
    | some r => exact hlast r (List.mem_of_getLast? h)

/-- A run that keeps its start is closed: it is as long as the shortest segment, and then so is the
part of it that lies before the end of the asked range, unless it would be too short in progress as
well. -/
theorem closes_capped {n : Int} (h0 : 0 < n) (hn : n ≤ longest) (hstart : r.start < asked.stop)
    (hlong : Span.seconds n ≤ r.length) :
    Closes false (longEnough (Span.seconds n) (cappedOngoing asked r))
      (longEnough (Span.seconds n) (capped asked r)) := by
  have hpos : (0 : Int) < Span.seconds n := Int.mul_pos h0 (by decide)
  rw [Range.length, Instant.le_sub_iff] at hlong
  rw [Instant.lt_iff] at hstart
  have hlt : r.start < min r.stop asked.stop := by
    rw [Instant.lt_iff, Instant.nanos_min]
    omega
  have hcapped : capped asked r = some ⟨r.start, some (min r.stop asked.stop),
      durationOf (min r.stop asked.stop - r.start), false, decide (r.start < asked.start)⟩ :=
    if_pos hlt
  have hlength : Span.seconds n ≤ min r.stop asked.stop - r.start ↔
      Span.seconds n ≤ asked.stop - r.start := by
    rw [Instant.le_sub_iff, Instant.le_sub_iff, Instant.nanos_min]
    omega
  have hduration : ∀ stop : Instant, r.start ≤ stop →
      (Span.seconds n ≤ Span.seconds (durationOf (stop - r.start)) ↔
        Span.seconds n ≤ stop - r.start) := fun stop hle =>
    seconds_le_seconds_durationOf_iff hn (Int.sub_nonneg_of_le hle)
  by_cases hkeep : Span.seconds n ≤ asked.stop - r.start
  · rw [hcapped, cappedOngoing,
      longEnough_some_of_le ((hduration _ (Int.le_of_lt hstart)).2 hkeep),
      longEnough_some_of_le ((hduration _ (Int.le_of_lt hlt)).2 (hlength.2 hkeep))]
    exact .closed [] (by simp) ⟨rfl, rfl, rfl, rfl, rfl⟩
  · rw [hcapped, cappedOngoing,
      longEnough_some_of_lt fun h => hkeep ((hduration _ (Int.le_of_lt hstart)).1 h),
      longEnough_some_of_lt fun h => hkeep (hlength.1 ((hduration _ (Int.le_of_lt hlt)).1 h))]
    exact .same _

/-- A run that is cut to the asked range is closed, or dropped if what is left of it is too short.
-/
theorem closes_clipped :
    Closes true (longEnough shortest (clippedOngoing asked r))
      (longEnough shortest (clipped asked r)) := by
  have hmin : min r.stop asked.stop ≤ asked.stop := Int.min_le_right _ _
  by_cases hlt : max r.start asked.start < asked.stop
  · have hongoing : clippedOngoing asked r = some (ongoing (max r.start asked.start) asked.stop
        (decide (r.start < asked.start))) := if_pos hlt
    rw [hongoing]
    cases hclipped : clipped asked r with
    | none =>
        by_cases hkeep : shortest ≤ (ongoing (max r.start asked.start) asked.stop
            (decide (r.start < asked.start))).duration
        · rw [longEnough_some_of_le hkeep, longEnough_none]
          exact .dropped [] rfl (by simp) rfl
        · rw [longEnough_some_of_lt hkeep, longEnough_none]
          exact .same _
    | some t =>
        obtain ⟨hforward, rfl⟩ := closed?_eq_some hclipped
        -- the closed part is no longer than the part in progress
        have hshorter : durationOf (min r.stop asked.stop - max r.start asked.start) ≤
            durationOf (asked.stop - max r.start asked.start) :=
          durationOf_le_durationOf (Int.sub_nonneg_of_le (Int.le_of_lt hforward))
            (Int.sub_le_sub_right hmin _)
        by_cases hkeep : shortest ≤ (ongoing (max r.start asked.start) asked.stop
            (decide (r.start < asked.start))).duration
        · rw [longEnough_some_of_le hkeep]
          by_cases hkeep' : shortest ≤
              Span.seconds (durationOf (min r.stop asked.stop - max r.start asked.start))
          · rw [longEnough_some_of_le hkeep']
            exact .closed [] (by simp) ⟨rfl, rfl, rfl, rfl, rfl⟩
          · rw [longEnough_some_of_lt hkeep']
            exact .dropped [] rfl (by simp) rfl
        · rw [longEnough_some_of_lt hkeep, longEnough_some_of_lt fun h => hkeep
            (Int.le_trans h (Span.seconds_le_seconds_iff.2 hshorter))]
          exact .same _
  · -- nothing of the run lies in the asked range
    have hongoing : clippedOngoing asked r = none := if_neg hlt
    have hclipped : clipped asked r = none := by
      refine if_neg fun h => hlt ?_
      exact Int.lt_of_lt_of_le h hmin
    rw [hongoing, hclipped]
    exact .same _

/-! ## Both builders -/

/-- The last run is in progress later only if it was before; then nothing has changed. -/
theorem Closes.of_flags {lastOngoing lastOngoing' : Bool} (build : Bool → List Segment)
    (hflags : lastOngoing' = true → lastOngoing = true)
    (h : Closes mayDrop (build true) (build false)) :
    Closes mayDrop (build lastOngoing) (build lastOngoing') := by
  cases lastOngoing' with
  | true =>
      rw [hflags rfl]
      exact .same _
  | false =>
      cases lastOngoing with
      | true => exact h
      | false => exact .same _

/-- Runs from their own starts. -/
theorem closes_keepStarts {n : Int} (h0 : 0 < n) (hn : n ≤ longest)
    (hruns : ∀ r ∈ runs, r.start < asked.stop ∧ Span.seconds n ≤ r.length) :
    Closes false (atLeast (Span.seconds n) (keepStarts asked true runs))
      (atLeast (Span.seconds n) (keepStarts asked false runs)) := by
  apply closes_ofRanges
  · intro r s hs
    obtain ⟨-, rfl⟩ := closed?_eq_some hs
    rfl
  · intro r hr
    exact closes_capped h0 hn (hruns r hr).1 (hruns r hr).2

/-- Runs that are cut to the asked range. -/
theorem closes_clip (shortest : Span) (asked : Range) (runs : List Range) :
    Closes true (atLeast shortest (clip asked true runs))
      (atLeast shortest (clip asked false runs)) := by
  apply closes_ofRanges
  · intro r s hs
    obtain ⟨-, rfl⟩ := closed?_eq_some hs
    rfl
  · exact fun _ _ => closes_clipped

/-- Without a run in progress the segments from their own starts are finished. -/
theorem isOngoing_keepStarts_false {s : Segment} (hs : s ∈ keepStarts asked false runs) :
    s.isOngoing = false := by
  refine forall_mem_ofRanges (P := fun s => s.isOngoing = false) ?_ ?_ s hs
  · intro r _ s hs
    obtain ⟨-, rfl⟩ := closed?_eq_some hs
    rfl
  · intro r _ s hs
    obtain ⟨-, rfl⟩ := closed?_eq_some hs
    rfl

end Segment

/-! ## Two clocks -/

namespace Mechanism

/-- How long the end of the asked range may be past for something to be still in progress; nothing
for the mechanisms that do not look at the clock. -/
def tolerance (m : Mechanism) (t : Tuning) : Option Span :=
  match m with
  | frequency | changePoint => some (Arrivals.gap t)
  | idling | staticRpm => some (Idling.gap t)
  | ignition | refuel | recharge => none

/-- The segments of the mechanism are cut to the asked range, so that one in progress may be too
short when it is closed. -/
def mayDrop : Mechanism → Bool
  | idling | staticRpm => true
  | _ => false

/-- What the answer of a mechanism at a later clock owes to its answer at an earlier one. -/
structure OnlyCloses (m : Mechanism) (asked : Range) (gap : Span) (later : Instant)
    (found found' : List Segment) : Prop where
  /-- Nothing changes, or the last segment, in progress before, is closed or dropped. -/
  closes : Segment.Closes m.mayDrop found found'
  /-- If a segment is in progress later, nothing has changed. -/
  unchanged : (∃ s ∈ found', s.isOngoing = true) → found' = found
  /-- Once the end of the asked range is past by more than the gap, nothing is in progress. -/
  historical : gap < later - asked.stop → ∀ s ∈ found', s.isOngoing = false

/-- Segments that are built with a flag for the last run, which is not set again once it is not, and
not at all when the end of the asked range is long past. -/
theorem onlyCloses_of_flags {m : Mechanism} {asked : Range} {gap : Span} {later : Instant}
    {lastOngoing lastOngoing' : Bool} (build : Bool → List Segment)
    (hflags : lastOngoing' = true → lastOngoing = true)
    (hpast : gap < later - asked.stop → lastOngoing' = false)
    (hcloses : Segment.Closes m.mayDrop (build true) (build false))
    (hfinished : ∀ s ∈ build false, s.isOngoing = false) :
    m.OnlyCloses asked gap later (build lastOngoing) (build lastOngoing') := by
  have h := Segment.Closes.of_flags build hflags hcloses
  constructor
  · exact h
  · rintro ⟨s, hs, hongoing⟩
    exact h.eq_of_isOngoing hs hongoing
  · intro hlong
    rw [hpast hlong]
    exact hfinished

end Mechanism

variable {now later : Instant} {r : Request}

/-- Trips from arrivals at two clocks. -/
theorem Arrivals.onlyCloses_segmentsOf {m : Mechanism} (hm : m.mayDrop = false)
    (hallowed : r.tuning.firstOutside = none) (hle : now ≤ later) {active : List Range}
    (hactive : ∀ a ∈ active, a.start < r.asked.stop) :
    m.OnlyCloses r.asked (gap r.tuning) later (segmentsOf r now active)
      (segmentsOf r later active) := by
  have hdefault : Tunable.minSegment.allows defaultMinSegment = true := by decide
  obtain ⟨hpos, hlongest⟩ := Tuning.minSegment_reportable hallowed hdefault
  refine Mechanism.onlyCloses_of_flags
    (fun lastOngoing => Segment.atLeast (minDuration r.tuning) (Segment.keepStarts r.asked
      lastOngoing (Activity.relevant r.asked (minDuration r.tuning)
        (Range.merge (gap r.tuning) active))))
    (Activity.lastTrails_of_le hle) (fun hpast => Activity.lastTrails_eq_false hpast _) ?_ ?_
  · rw [hm]
    apply Segment.closes_keepStarts hpos hlongest
    intro run hrun
    obtain ⟨hmerged, hlong, -⟩ := Activity.mem_relevant_iff.1 hrun
    exact ⟨Activity.start_lt_of_mem_merge hactive hmerged, hlong⟩
  · intro s hs
    exact Segment.isOngoing_keepStarts_false (List.mem_filter.1 hs).1

/-- Runs that are cut to the asked range, at two clocks; something besides the clock may settle that
the last one is over. -/
theorem Activity.onlyCloses_clip {m : Mechanism} (hm : m.mayDrop = true) (gap minDuration : Span)
    (hle : now ≤ later) (mayGoOn : Bool) (runs : List Range) :
    m.OnlyCloses r.asked gap later
      (clip r.asked minDuration ⟨runs, mayGoOn && lastTrails r.asked now gap runs⟩)
      (clip r.asked minDuration ⟨runs, mayGoOn && lastTrails r.asked later gap runs⟩) := by
  refine Mechanism.onlyCloses_of_flags
    (fun lastOngoing => clip r.asked minDuration ⟨runs, lastOngoing⟩) ?_ ?_ ?_ ?_
  · rw [Bool.and_eq_true, Bool.and_eq_true]
    exact fun h => ⟨h.1, lastTrails_of_le hle h.2⟩
  · intro hpast
    rw [lastTrails_eq_false hpast, Bool.and_false]
  · rw [hm]
    exact Segment.closes_clip minDuration r.asked runs
  · intro s hs
    exact Segment.isOngoing_clip_false (List.mem_filter.1 hs).1

namespace Mechanism

/-- The clock can only close the last segment. A mechanism without a gap tolerance answers the same
at both clocks; each of the others answers at both, and what was in progress last may be closed, or
dropped if it is cut to the asked range. -/
theorem closes_of_le (log : Log) (hallowed : r.tuning.firstOutside = none) (hle : now ≤ later)
    (m : Mechanism) :
    (m.tolerance r.tuning = none → m.detect log.source later r = m.detect log.source now r) ∧
      ∀ gap, m.tolerance r.tuning = some gap → ∃ found found',
        (m.detect log.source now r).outcome = .answer found ∧
        (m.detect log.source later r).outcome = .answer found' ∧
        m.OnlyCloses r.asked gap later found found' := by
  cases m with
  | ignition => exact ⟨fun _ => rfl, by rintro gap ⟨⟩⟩
  | refuel => exact ⟨fun _ => rfl, by rintro gap ⟨⟩⟩
  | recharge => exact ⟨fun _ => rfl, by rintro gap ⟨⟩⟩
  | frequency =>
      refine ⟨by rintro ⟨⟩, ?_⟩
      rintro gap ⟨⟩
      refine ⟨_, _, log.outcome_frequency now r, log.outcome_frequency later r, ?_⟩
      exact Arrivals.onlyCloses_segmentsOf rfl hallowed hle fun a ha =>
        (Arrivals.bounds_of_mem_activeWindows ha).2
  | changePoint =>
      refine ⟨by rintro ⟨⟩, ?_⟩
      rintro gap ⟨⟩
      refine ⟨_, _, log.outcome_changePoint now r, log.outcome_changePoint later r, ?_⟩
      exact Arrivals.onlyCloses_segmentsOf rfl hallowed hle fun a ha =>
        (Arrivals.bounds_of_mem_activeMinutes ha).2
  | idling =>
      refine ⟨by rintro ⟨⟩, ?_⟩
      rintro gap ⟨⟩
      refine ⟨_, _, log.outcome_idling now r, log.outcome_idling later r, ?_⟩
      exact Activity.onlyCloses_clip rfl _ _ hle _ _
  | staticRpm =>
      refine ⟨by rintro ⟨⟩, ?_⟩
      rintro gap ⟨⟩
      refine ⟨_, _, log.outcome_staticRpm now r, log.outcome_staticRpm later r, ?_⟩
      exact Activity.onlyCloses_clip rfl _ _ hle true _

/-- The trip of the first four minutes, once the end of the ten minutes is long past. -/
def driveOver : Segment := ⟨.ofSeconds 0, some (.ofSeconds 240), 240, false, false⟩

theorem outcome_driveLog_later :
    (frequency.detect Arrivals.driveLog.source (.ofSeconds 1201) Arrivals.firstMinutes).outcome =
      .answer [driveOver] := by
  rw [Log.outcome_frequency, Arrivals.windows_driveLog, Arrivals.segmentsOf,
    Activity.ofStretches, Arrivals.merge_driveMinutes]
  exact congrArg Outcome.answer (by decide +kernel)

theorem closes_drive :
    Arrivals.firstMinutes.tuning.firstOutside = none ∧
      Instant.ofSeconds 600 ≤ Instant.ofSeconds 1201 ∧
      (frequency.detect Arrivals.driveLog.source (.ofSeconds 600) Arrivals.firstMinutes).outcome =
        .answer [Arrivals.drive] ∧
      frequency.OnlyCloses Arrivals.firstMinutes.asked (Span.seconds 600) (.ofSeconds 1201)
        [Arrivals.drive] [driveOver] := by
  have hallowed : Arrivals.firstMinutes.tuning.firstOutside = none := by decide
  have hle : Instant.ofSeconds 600 ≤ Instant.ofSeconds 1201 := by decide
  obtain ⟨found, found', hfound, hfound', honly⟩ :=
    (closes_of_le Arrivals.driveLog hallowed hle frequency).2 (Span.seconds 600) rfl
  rw [Arrivals.outcome_driveLog] at hfound
  rw [outcome_driveLog_later] at hfound'
  obtain rfl := Outcome.answer.inj hfound
  obtain rfl := Outcome.answer.inj hfound'
  exact ⟨hallowed, hle, Arrivals.outcome_driveLog, honly⟩

end Mechanism

end Telematics
