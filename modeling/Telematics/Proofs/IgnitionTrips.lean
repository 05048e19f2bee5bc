import Telematics.Proofs.Outcomes
import Telematics.Proofs.TripPositions
import Telematics.Proofs.ValidRequests

/-!
# Trips that are reported from the ignition

Trips in ascending changes are apart: each starts long enough after the one before it is over
(`pairwise_pair`). `reported` says which of them become segments. `detect_reports_trips` puts this
together with the positions of the trips for the detector over any source that answers ascending
changes.
-/

set_option autoImplicit false

namespace Telematics.Ignition

variable {minIdle : Span} {c : StateChange} {later changes : List StateChange}

/-! ## Order -/

/-- A trip starts where the walk began or at an opening on. -/
theorem start_of_mem_pair {start : Option Instant} {trip : Trip}
    (h : trip ∈ pair start (debounce minIdle changes)) :
    start = some trip.start ∨ ∃ c ∈ changes, opens c = true ∧ c.time = trip.start := by
  induction changes generalizing start with
  | nil =>
      rw [debounce, pair, Option.mem_toList, Option.map_eq_some_iff] at h
      obtain ⟨t, rfl, rfl⟩ := h
      exact Or.inl rfl
  | cons c later ih =>
      -- what is found later is found among all changes
      have hlater : (∃ d ∈ later, opens d = true ∧ d.time = trip.start) →
          ∃ d ∈ c :: later, opens d = true ∧ d.time = trip.start := by
        rintro ⟨d, hd, hopens⟩
        exact ⟨d, List.mem_cons_of_mem c hd, hopens⟩
      cases start with
      | none =>
          rw [pair_none_debounce_cons] at h
          rcases ih h with hstart | hd
          · split at hstart
            · rename_i hopens
              exact Or.inr ⟨c, List.mem_cons_self, hopens, Option.some.inj hstart⟩
            · exact absurd hstart (by simp)
          · exact Or.inr (hlater hd)
      | some t =>
          rw [pair_some_debounce_cons] at h
          split at h
          · rcases List.mem_cons.1 h with rfl | h
            · exact Or.inl rfl
            · rcases ih h with hstart | hd
              · exact absurd hstart (by simp)
              · exact Or.inr (hlater hd)
          · exact (ih h).imp id hlater

/-- A trip is over at a change. -/
theorem exists_stop_of_mem_pair {start : Option Instant} {trip : Trip} {stop : Instant}
    (h : trip ∈ pair start (debounce minIdle changes)) (hstop : trip.stop = some stop) :
    ∃ c ∈ changes, c.time = stop := by
  induction changes generalizing start with
  | nil =>
      rw [debounce, pair, Option.mem_toList, Option.map_eq_some_iff] at h
      obtain ⟨t, rfl, rfl⟩ := h
      exact absurd hstop (by simp)
  | cons c later ih =>
      have hlater : (∃ d ∈ later, d.time = stop) → ∃ d ∈ c :: later, d.time = stop := by
        rintro ⟨d, hd, hdtime⟩
        exact ⟨d, List.mem_cons_of_mem c hd, hdtime⟩
      cases start with
      | none =>
          rw [pair_none_debounce_cons] at h
          exact hlater (ih h)
      | some t =>
          rw [pair_some_debounce_cons] at h
          split at h
          · rcases List.mem_cons.1 h with rfl | h
            · exact ⟨c, List.mem_cons_self, Option.some.inj hstop⟩
            · exact hlater (ih h)
          · exact hlater (ih h)

/-- Every on after a kept off is late enough. -/
theorem le_of_keeps (h : keeps minIdle c later = true)
    (hsorted : later.Pairwise fun a b => a.time ≤ b.time) {d : StateChange} (hd : d ∈ later)
    (hon : d.isOn = true) : minIdle ≤ d.time - c.time := by
  rw [keeps, isBlip, nextOn, Bool.and_eq_true] at h
  cases hfind : later.find? StateChange.isOn with
  | none =>
      rw [List.find?_eq_none] at hfind
      exact absurd hon (hfind d hd)
  | some next =>
      -- the off is no blip, so the next on is late enough, and all others are later still
      rw [hfind, h.1, Bool.true_and, Option.map_some, Option.any_some] at h
      have hlate : ¬ next.time - c.time < minIdle := by
        intro hlt
        rw [decide_eq_true hlt] at h
        exact Bool.noConfusion h.2
      rw [Instant.sub_lt_iff] at hlate
      have hle : next.time ≤ d.time := by
        obtain ⟨-, before, after, rfl, hbefore⟩ := List.find?_eq_some_iff_append.1 hfind
        rcases List.mem_append.1 hd with hd | hd
        · have hnot := hbefore d hd
          rw [hon] at hnot
          exact Bool.noConfusion hnot
        · rcases List.mem_cons.1 hd with rfl | hd
          · exact Int.le_refl _
          · exact (List.pairwise_cons.1 (List.pairwise_append.1 hsorted).2.1).1 d hd
      rw [Instant.le_iff] at hle
      rw [Instant.le_sub_iff]
      omega

/-- The first trip is over, and the second one starts so much later. -/
def Apart (minIdle : Span) (a b : Trip) : Prop :=
  ∃ stop, a.stop = some stop ∧ minIdle ≤ b.start - stop

/-- Trips in ascending changes are apart. -/
theorem pairwise_pair {start : Option Instant}
    (hsorted : changes.Pairwise fun a b => a.time ≤ b.time) :
    (pair start (debounce minIdle changes)).Pairwise (Apart minIdle) := by
  induction changes generalizing start with
  | nil =>
      cases start with
      | none => exact List.Pairwise.nil
      | some t => exact List.pairwise_singleton _ _
  | cons c later ih =>
      have hlater := hsorted.of_cons
      cases start with
      | none =>
          rw [pair_none_debounce_cons]
          exact ih hlater
      | some t =>
          rw [pair_some_debounce_cons]
          split
          · -- later trips start at an on after this off
            rename_i hkeeps
            refine List.pairwise_cons.2 ⟨fun trip htrip => ⟨c.time, rfl, ?_⟩, ih hlater⟩
            rcases start_of_mem_pair htrip with hstart | ⟨d, hd, hopens, hdtime⟩
            · exact absurd hstart (by simp)
            · have hon : d.isOn = true := by
                simp only [opens, Bool.and_eq_true] at hopens
                exact hopens.1.1
              rw [← hdtime]
              exact le_of_keeps hkeeps hlater hd hon
          · exact ih hlater

/-! ## What is reported -/

/-- A finished trip is reported if it ends after the asked range begins, a trip in progress up to
the end of the asked range; both only if they are long enough. -/
def reported (asked : Range) (shortest : Span) (trip : Trip) : Option Segment :=
  match trip.stop with
  | some stop =>
    if asked.start < stop ∧ shortest ≤ stop - trip.start then
      some ⟨trip.start, some stop, Segment.durationOf (stop - trip.start), false,
        decide (trip.start < asked.start)⟩
    else none
  | none =>
    if shortest ≤ asked.stop - trip.start then
      some ⟨trip.start, none, Segment.durationOf (asked.stop - trip.start), true,
        decide (trip.start < asked.start)⟩
    else none

/-- Where the shortest trip is not empty, the segment of a trip is the one that is reported. -/
theorem segment?_eq_reported {asked : Range} {shortest : Span} (hshortest : 0 < shortest)
    (trip : Trip) : segment? asked shortest trip = reported asked shortest trip := by
  cases trip with
  | mk start stop =>
      cases stop with
      | none =>
          simp only [segment?, reported]
          by_cases hlong : asked.stop - start < shortest
          · rw [if_pos hlong, if_neg (Int.not_le.2 hlong)]
          · rw [if_neg hlong, if_pos (Int.not_lt.1 hlong)]
            rfl
      | some stop =>
          simp only [segment?, reported]
          by_cases hout : stop ≤ asked.start ∨ stop - start < shortest
          · rw [if_pos hout, if_neg]
            rintro ⟨hafter, hlong⟩
            rcases hout with hout | hout
            · exact Int.not_lt.2 hout hafter
            · exact Int.not_lt.2 hlong hout
          · rw [not_or] at hout
            have hafter : asked.start < stop := Int.not_le.1 hout.1
            have hlong : shortest ≤ stop - start := Int.not_lt.1 hout.2
            -- a trip that is long enough does not end before it starts
            have hlt : start < stop := Int.lt_of_sub_pos (Int.lt_of_lt_of_le hshortest hlong)
            rw [if_neg (not_or.2 hout), if_pos ⟨hafter, hlong⟩, Segment.closed?, if_pos hlt]

/-- A reported trip keeps its start and its stop. -/
theorem ends_of_reported {asked : Range} {shortest : Span} {trip : Trip} {s : Segment}
    (h : reported asked shortest trip = some s) : s.start = trip.start ∧ s.stop = trip.stop := by
  cases trip with
  | mk start stop =>
      cases stop with
      | none =>
          simp only [reported] at h
          split at h
          · obtain rfl := Option.some.inj h
            exact ⟨rfl, rfl⟩
          · exact absurd h (by simp)
      | some stop =>
          simp only [reported] at h
          split at h
          · obtain rfl := Option.some.inj h
            exact ⟨rfl, rfl⟩
          · exact absurd h (by simp)

/-- Reported trips are apart as the trips are. -/
theorem pairwise_reported {asked : Range} {shortest : Span} {found : List Trip}
    (h : found.Pairwise (Apart minIdle)) :
    (found.filterMap (reported asked shortest)).Pairwise fun a b =>
      ∃ stop : Instant, a.stop = some stop ∧ minIdle ≤ b.start - stop := by
  refine List.pairwise_filterMap.2 (h.imp ?_)
  rintro a b ⟨stop, hstop, hle⟩ s hs t ht
  refine ⟨stop, ?_, ?_⟩
  · rw [(ends_of_reported hs).2, hstop]
  · rw [(ends_of_reported ht).1]
    exact hle

/-- Segments are those reported of the trips in a list of changes: one trip for each position at
which a trip starts, in order. -/
def ReportsTrips (asked : Range) (tuning : Tuning) (changes : List StateChange)
    (segments : List Segment) : Prop :=
  ∃ (starts : List Nat) (found : List Trip),
    starts.Pairwise (· < ·) ∧
    (∀ i, i ∈ starts ↔ StartsTrip (tuning.minIdle defaultMinIdle) changes i) ∧
    List.Forall₂ (IsTrip (tuning.minIdle defaultMinIdle) changes) starts found ∧
    segments = found.filterMap (reported asked (tuning.minSegment defaultMinSegment))

/-- Whatever source answers ascending changes, the segments from the ignition are those reported of
their trips, and each of them starts long enough after the one before it. -/
theorem detect_reports_trips {source : Source} {now : Instant} {r : Request}
    {changes : List StateChange} (hanswer : source.reply (read r) = .answer changes)
    (hsorted : changes.Pairwise fun a b => a.time ≤ b.time)
    (hvalid : r.tuning.firstOutside = none) :
    ∃ segments, (Mechanism.ignition.detect source now r).outcome = .answer segments ∧
      ReportsTrips r.asked r.tuning changes segments ∧
      segments.Pairwise fun a b => ∃ stop : Instant, a.stop = some stop ∧
        r.tuning.minIdle defaultMinIdle ≤ b.start - stop := by
  obtain ⟨starts, found, hfound, hpair⟩ :=
    exists_found_pair (r.tuning.minIdle defaultMinIdle) none changes
  have hdefault : Tunable.minSegment.allows defaultMinSegment = true := by decide
  have hsegments : segments r.asked r.tuning changes =
      found.filterMap (reported r.asked (r.tuning.minSegment defaultMinSegment)) := by
    rw [segments, trips, hpair]
    apply List.filterMap_congr
    intro trip _
    exact segment?_eq_reported (Tuning.minSegment_pos hvalid hdefault) trip
  have hapart : found.Pairwise (Apart (r.tuning.minIdle defaultMinIdle)) := by
    have h : (pair none (debounce (r.tuning.minIdle defaultMinIdle) changes)).Pairwise
        (Apart (r.tuning.minIdle defaultMinIdle)) := pairwise_pair hsorted
    rw [hpair] at h
    exact h
  refine ⟨segments r.asked r.tuning changes, ?_, ⟨starts, found, hfound.ordered, ?_,
    hfound.isTrip, hsegments⟩, ?_⟩
  · show ((plan r).run source).outcome = _
    rw [plan, Plan.run, hanswer]
    rfl
  · intro i
    rw [hfound.mem_iff i]
    exact startsFrom_false_iff
  · rw [hsegments]
    exact pairwise_reported hapart

/-- A ride of twenty minutes with a blip, then one that goes on. -/
def twoRides : List StateChange :=
  [⟨.ofSeconds 0, 1.0, 0.0⟩, ⟨.ofSeconds 600, 0.0, 1.0⟩, ⟨.ofSeconds 700, 1.0, 0.0⟩,
    ⟨.ofSeconds 1200, 0.0, 1.0⟩, ⟨.ofSeconds 3000, 1.0, 0.0⟩]

/-- The request for two hours without tunables. -/
def twoHours : Request := ⟨42, ⟨.ofSeconds 0, .ofSeconds 7200⟩, Tuning.default⟩

theorem detect_reports_twoRides :
    ∃ segments,
      (Mechanism.ignition.detect (Source.steady [] [] twoRides) (.ofSeconds 7200)
          twoHours).outcome = .answer segments ∧
      ReportsTrips twoHours.asked twoHours.tuning twoRides segments ∧
      segments.Pairwise fun a b =>
        ∃ stop : Instant, a.stop = some stop ∧
          twoHours.tuning.minIdle defaultMinIdle ≤ b.start - stop :=
  detect_reports_trips rfl (by decide) rfl

end Telematics.Ignition
