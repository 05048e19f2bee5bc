import Telematics.Proofs.CalendarMinutes
import Telematics.Proofs.FloatOrder
import Telematics.Proofs.WindowCounts

/-!
# Windows partition the rows that count

A log answers a question for windows bucket by bucket. Here the answer is told without buckets:
`Log.windowRows` are the rows of a window that the question asks about, `Log.Due` says when the
window is answered, and `Log.windowOf` what is answered for it. The windows of an answer are exactly
those that are due, in order and without overlap, and a question that is split where a window begins
is answered in two parts (`Log.windows_partition`).

The least and the greatest value of a window stand for all its values that are numbers, as long as
these are finite: the search starts from the largest and the lowest one, and passes over what is no
number (`Log.qualifies_iff_numbers`).
-/

set_option autoImplicit false

namespace Telematics

open FloatOrder (IsNumber)

/-- The window of so many seconds with a number, counted from the epoch. -/
def windowAt (n k : Int) : Range := ⟨.ofSeconds (n * k), .ofSeconds (n * k + n)⟩

theorem windowAt_eq (n k : Int) :
    windowAt n k = ⟨.ofSeconds (n * k), Instant.ofSeconds (n * k) + Span.seconds n⟩ := by
  rw [windowAt, Range.mk.injEq]
  refine ⟨rfl, Instant.eq_of_nanos_eq ?_⟩
  rw [Instant.nanos_add, Instant.nanos_ofSeconds, Instant.nanos_ofSeconds, Span.seconds,
    Int.add_mul]

theorem start_mem_windowAt {n k : Int} (hn : 0 < n) : (windowAt n k).start ∈ windowAt n k := by
  refine ⟨Int.le_refl _, ?_⟩
  rw [windowAt, Instant.lt_iff, Instant.nanos_ofSeconds, Instant.nanos_ofSeconds]
  omega

/-- A window is over when a later one begins. -/
theorem stop_windowAt_le_iff {n j k : Int} (hn : 0 < n) :
    (windowAt n k).stop ≤ (windowAt n j).start ↔ k < j := by
  have hmul : n * (k + 1) ≤ n * j ↔ k + 1 ≤ j := Int.mul_le_mul_left hn
  rw [Int.mul_add, Int.mul_one] at hmul
  rw [windowAt, windowAt, Instant.le_iff, Instant.nanos_ofSeconds, Instant.nanos_ofSeconds]
  omega

/-- The instants of a window are before the start of a window exactly when that is a later one. -/
theorem lt_start_windowAt_iff {n j k : Int} (hn : 0 < n) {t : Instant} (ht : t ∈ windowAt n k) :
    t < (windowAt n j).start ↔ k < j := by
  constructor
  · intro hlt
    have hstart : n * k < n * j := by
      have hle := Int.lt_of_le_of_lt ht.1 hlt
      rw [windowAt, windowAt, Instant.nanos_ofSeconds, Instant.nanos_ofSeconds] at hle
      omega
    exact Int.lt_of_mul_lt_mul_left hstart (Int.le_of_lt hn)
  · intro hlt
    exact Int.lt_of_lt_of_le ht.2 ((stop_windowAt_le_iff hn).2 hlt)

/-- The same question for another range. -/
def WindowQuery.over (query : WindowQuery) (within : Range) : WindowQuery :=
  { query with within := within }

namespace Log

variable {log : Log} {token : TokenId} {query : WindowQuery}

/-! ## Rows that qualify -/

/-- Rows qualify when there are enough of enough signals, and all values that are numbers lie in the
band, which must not lie outside the finite numbers. -/
theorem qualifies_iff_numbers {group : List Record} :
    qualifies query group = true ↔ query.leastCount ≤ group.length ∧
      (∀ n ∈ query.leastDistinct, n ≤ (group.map Record.name).toFinset.card) ∧
      ∀ band ∈ query.band, (band.above < largestFinite ∧ -largestFinite ≤ band.upTo) ∧
        ∀ r ∈ group, IsNumber r.value → band.above < r.value ∧ r.value ≤ band.upTo := by
  rw [qualifies, Bool.and_assoc, Bool.and_eq_true, decide_eq_true_eq, Bool.and_eq_true]
  refine and_congr Iff.rfl (and_congr ?_ ?_)
  · cases query.leastDistinct with
    | none => simp
    | some n => simp [length_eraseDups]
  · cases query.band with
    | none => simp
    | some band =>
        simp only [Bool.and_eq_true, decide_eq_true_eq, FloatOrder.lt_least_iff_numbers,
          FloatOrder.greatest_le_iff_numbers, List.forall_mem_map, Option.mem_some_iff,
          forall_eq']
        constructor
        · rintro ⟨⟨hlow, habove⟩, hhigh, hupTo⟩
          exact ⟨⟨hlow, hhigh⟩, fun r hr hnumber => ⟨habove r hr hnumber, hupTo r hr hnumber⟩⟩
        · rintro ⟨⟨hlow, hhigh⟩, hall⟩
          exact ⟨⟨hlow, fun r hr hnumber => (hall r hr hnumber).1⟩, hhigh,
            fun r hr hnumber => (hall r hr hnumber).2⟩

/-- So all values of rows that qualify lie in the band if all are numbers. -/
theorem qualifies_iff {group : List Record} (hnumbers : ∀ r ∈ group, IsNumber r.value) :
    qualifies query group = true ↔ query.leastCount ≤ group.length ∧
      (∀ n ∈ query.leastDistinct, n ≤ (group.map Record.name).toFinset.card) ∧
      ∀ band ∈ query.band, (band.above < largestFinite ∧ -largestFinite ≤ band.upTo) ∧
        ∀ r ∈ group, band.above < r.value ∧ r.value ≤ band.upTo := by
  rw [qualifies_iff_numbers]
  refine and_congr_right fun _ => and_congr_right fun _ => forall₂_congr fun band _ =>
    and_congr_right fun _ => forall₂_congr fun r hr => ?_
  exact forall_prop_of_true (hnumbers r hr)

/-- Whether rows qualify for a question does not depend on their order, whatever their values. -/
theorem qualifies_of_perm {group others : List Record} (h : group.Perm others) :
    qualifies query group = qualifies query others := by
  rw [qualifies, qualifies, h.length_eq, length_eraseDups_of_perm (h.map Record.name)]
  congr 1
  cases query.band with
  | none => rfl
  | some band =>
      simp only [FloatOrder.lt_least_iff_of_perm (h.map Record.value),
        FloatOrder.greatest_le_iff_of_perm (h.map Record.value)]

/-- The window of some rows does not depend on their order. -/
theorem window?_of_perm {n start : Int} {group others : List Record} (h : group.Perm others) :
    window? n start group = window? n start others := by
  rw [window?, window?, h.length_eq, length_eraseDups_of_perm (h.map Record.name)]

/-! ## Windows that are due -/

/-- The rows of a window that a question asks about: those of the vehicle that were read in the
asked range and in the window, and are of the signal of the band, if there is one. -/
def windowRows (log : Log) (token : TokenId) (query : WindowQuery) (k : Int) : List Record :=
  log.records.filter fun r =>
    r.token == token && decide (r.time ∈ query.within) &&
      decide (r.time ∈ windowAt query.windowSeconds k) &&
      query.band.all fun band => r.name == band.signal

theorem times_of_mem_windowRows {r : Record} {k : Int} (hr : r ∈ log.windowRows token query k) :
    r.time ∈ query.within ∧ r.time ∈ windowAt query.windowSeconds k := by
  have hasked := (List.mem_filter.1 hr).2
  simp only [Bool.and_eq_true] at hasked
  exact ⟨of_decide_eq_true hasked.1.1.2, of_decide_eq_true hasked.1.2⟩

/-- A window is due: its rows are not empty, enough, of enough signals, and all in the band. -/
structure Due (log : Log) (token : TokenId) (query : WindowQuery) (k : Int) : Prop where
  nonempty : log.windowRows token query k ≠ []
  leastCount_le : query.leastCount ≤ (log.windowRows token query k).length
  leastDistinct_le : ∀ n ∈ query.leastDistinct,
    n ≤ ((log.windowRows token query k).map Record.name).toFinset.card
  inBand : ∀ band ∈ query.band, ∀ r ∈ log.windowRows token query k,
    band.above < r.value ∧ r.value ≤ band.upTo

/-- What is answered for a window. -/
def windowOf (log : Log) (token : TokenId) (query : WindowQuery) (k : Int) : Window :=
  ⟨(windowAt query.windowSeconds k).start, (windowAt query.windowSeconds k).stop,
    (log.windowRows token query k).length,
    ((log.windowRows token query k).map Record.name).toFinset.card⟩

/-- A bucket with rows is that of one of them, so it is a whole window. -/
theorem exists_eq_mul_of_bucketRows {b : Int} (hne : log.bucketRows token query b ≠ []) :
    ∃ k, b = query.windowSeconds * k := by
  obtain ⟨r, hr⟩ := List.exists_mem_of_ne_nil _ hne
  have hbucket : bucket query.windowSeconds r.time = b :=
    of_decide_eq_true (List.mem_filter.1 hr).2
  exact ⟨r.time.second / query.windowSeconds, by rw [← hbucket, bucket, Int.mul_comm]⟩

/-- The rows that count in a bucket are those of its window. -/
theorem bucketRows_perm (log : Log) (token : TokenId) (hlength : 0 < query.windowSeconds)
    (k : Int) :
    (log.bucketRows token query (query.windowSeconds * k)).Perm
      (log.windowRows token query k) := by
  have hsame : ((log.records.filter (counts token query)).filter fun r =>
      decide (bucket query.windowSeconds r.time = query.windowSeconds * k)) =
        log.windowRows token query k := by
    rw [List.filter_filter, windowRows]
    apply List.filter_congr
    intro r _
    have hbucket : decide (bucket query.windowSeconds r.time = query.windowSeconds * k) =
        decide (r.time ∈ windowAt query.windowSeconds k) := by
      rw [decide_eq_decide, windowAt_eq]
      exact bucket_eq_iff hlength (Int.mul_emod_right _ _) r.time
    rw [hbucket, counts]
    simp only [Range.mem_iff (r := query.within), Bool.decide_and]
    cases query.band <;> simp [Bool.and_comm, Bool.and_assoc]
  rw [← hsame]
  exact (List.mergeSort_perm _ _).filter _

/-- The rows of a window qualify exactly when it is due, if there are any. -/
theorem qualifies_windowRows_iff (hfinite : ∀ r ∈ log.records, r.value.isFinite = true) {k : Int}
    (hne : log.windowRows token query k ≠ []) :
    qualifies query (log.windowRows token query k) = true ↔ log.Due token query k := by
  have hrows : ∀ r ∈ log.windowRows token query k, r.value.isFinite = true := fun r hr =>
    hfinite r (List.mem_filter.1 hr).1
  rw [qualifies_iff fun r hr => FloatOrder.isNumber_of_isFinite (hrows r hr)]
  constructor
  · rintro ⟨hcount, hdistinct, hband⟩
    exact ⟨hne, hcount, hdistinct, fun band hmem => (hband band hmem).2⟩
  · intro h
    refine ⟨h.leastCount_le, h.leastDistinct_le, fun band hmem => ⟨?_, h.inBand band hmem⟩⟩
    -- the value of any row lies between the lowest and the largest finite number
    obtain ⟨r, hr⟩ := List.exists_mem_of_ne_nil _ hne
    obtain ⟨habove, hupTo⟩ := h.inBand band hmem r hr
    exact ⟨FloatOrder.lt_of_lt_of_le habove (FloatOrder.le_largestFinite (hrows r hr)),
      FloatOrder.le_trans (FloatOrder.neg_largestFinite_le (hrows r hr)) hupTo⟩

/-- What a bucket is answered by is the window of its rows, unless that is outside the calendar. -/
theorem window?_windowRows {k : Int} {w : Window} :
    window? query.windowSeconds (query.windowSeconds * k) (log.windowRows token query k) = some w ↔
      (windowAt query.windowSeconds k).start.InCalendar ∧ w = log.windowOf token query k := by
  rw [window?_eq_some_iff, length_eraseDups, windowOf, windowAt_eq]

/-- The windows of an answer are those that are due. -/
theorem mem_windows_iff_due (hfinite : ∀ r ∈ log.records, r.value.isFinite = true)
    (hlength : 0 < query.windowSeconds)
    (hcalendar : ∀ k, log.windowRows token query k ≠ [] →
      (windowAt query.windowSeconds k).start.InCalendar) {w : Window} :
    w ∈ log.windows token query ↔
      ∃ k, log.Due token query k ∧ w = log.windowOf token query k := by
  have hperm := log.bucketRows_perm token hlength
  rw [mem_windows_iff]
  constructor
  · rintro ⟨b, hne, hqualifies, hwindow⟩
    obtain ⟨k, rfl⟩ := exists_eq_mul_of_bucketRows hne
    have hrows : log.windowRows token query k ≠ [] := by
      intro hnil
      exact hne (List.Perm.eq_nil (hnil ▸ hperm k))
    rw [qualifies_of_perm (hperm k), qualifies_windowRows_iff hfinite hrows] at hqualifies
    rw [window?_of_perm (hperm k), window?_windowRows] at hwindow
    exact ⟨k, hqualifies, hwindow.2⟩
  · rintro ⟨k, hk, rfl⟩
    refine ⟨query.windowSeconds * k, ?_, ?_, ?_⟩
    · intro hnil
      exact hk.nonempty (List.Perm.nil_eq (hnil ▸ hperm k)).symm
    · rw [qualifies_of_perm (hperm k), qualifies_windowRows_iff hfinite hk.nonempty]
      exact hk
    · rw [window?_of_perm (hperm k), window?_windowRows]
      exact ⟨hcalendar k hk.nonempty, rfl⟩

/-! ## Questions in two parts -/

theorem windows?_eq_ok (log : Log) (token : TokenId) (hlength : 0 < query.windowSeconds) :
    log.windows? token query = .ok (log.windows token query) := by
  rw [windows?, if_neg (Int.not_le.2 hlength)]

/-- A window has the same rows for another range if the two ranges agree within it. -/
theorem windowRows_over_of_same {within : Range} {k : Int}
    (hsame : ∀ t ∈ windowAt query.windowSeconds k, t ∈ within ↔ t ∈ query.within) :
    log.windowRows token (query.over within) k = log.windowRows token query k := by
  apply List.filter_congr
  intro r _
  by_cases hr : r.time ∈ windowAt query.windowSeconds k
  · simp only [WindowQuery.over, hr, hsame r.time hr]
  · simp only [WindowQuery.over, hr, decide_false, Bool.and_false, Bool.false_and]

/-- A window has no rows for a range that it lies outside of. -/
theorem windowRows_over_of_none {within : Range} {k : Int}
    (hnone : ∀ t ∈ windowAt query.windowSeconds k, t ∉ within) :
    log.windowRows token (query.over within) k = [] := by
  apply List.eq_nil_iff_forall_not_mem.2
  intro r hr
  obtain ⟨hwithin, hwindow⟩ := times_of_mem_windowRows hr
  exact hnone r.time hwindow hwithin

/-- Whether a window is due depends on its rows. -/
theorem due_over_iff {within : Range} {k : Int}
    (hrows : log.windowRows token (query.over within) k = log.windowRows token query k) :
    log.Due token (query.over within) k ↔ log.Due token query k := by
  constructor
  · rintro ⟨hne, hcount, hdistinct, hband⟩
    rw [hrows] at hne hcount hdistinct hband
    exact ⟨hne, hcount, hdistinct, hband⟩
  · rintro ⟨hne, hcount, hdistinct, hband⟩
    rw [← hrows] at hne hcount hdistinct hband
    exact ⟨hne, hcount, hdistinct, hband⟩

section Split

variable (hfinite : ∀ r ∈ log.records, r.value.isFinite = true)
  (hlength : 0 < query.windowSeconds)
  (hcalendar : ∀ k, log.windowRows token query k ≠ [] →
    (windowAt query.windowSeconds k).start.InCalendar)
include hfinite hlength hcalendar

/-- The windows of a question for another range, if each window is asked about as before or not at
all. -/
theorem mem_windows_over_iff {within : Range} (P : Int → Prop)
    (hsame : ∀ k, P k → ∀ t ∈ windowAt query.windowSeconds k, t ∈ within ↔ t ∈ query.within)
    (hnone : ∀ k, ¬ P k → ∀ t ∈ windowAt query.windowSeconds k, t ∉ within) {w : Window} :
    w ∈ log.windows token (query.over within) ↔
      ∃ k, P k ∧ log.Due token query k ∧ w = log.windowOf token query k := by
  have hrows : ∀ k, P k →
      log.windowRows token (query.over within) k = log.windowRows token query k := fun k hP =>
    windowRows_over_of_same (hsame k hP)
  have hP : ∀ k, log.windowRows token (query.over within) k ≠ [] → P k := by
    intro k hne
    by_contra hP
    exact hne (windowRows_over_of_none (hnone k hP))
  have hwindow : ∀ k, P k →
      log.windowOf token (query.over within) k = log.windowOf token query k := by
    intro k hk
    rw [windowOf, windowOf, hrows k hk]
    rfl
  have hstart : ∀ k, log.windowRows token (query.over within) k ≠ [] →
      (windowAt query.windowSeconds k).start.InCalendar := fun k hne =>
    hcalendar k (hrows k (hP k hne) ▸ hne)
  have hlength' : 0 < (query.over within).windowSeconds := hlength
  rw [mem_windows_iff_due hfinite hlength' hstart]
  constructor
  · rintro ⟨k, hdue, rfl⟩
    have hk := hP k hdue.nonempty
    exact ⟨k, hk, (due_over_iff (hrows k hk)).1 hdue, hwindow k hk⟩
  · rintro ⟨k, hk, hdue, rfl⟩
    exact ⟨k, (due_over_iff (hrows k hk)).2 hdue, (hwindow k hk).symm⟩

/-- The windows before a split of the asked range. -/
theorem mem_windows_before_iff {j : Int}
    (hto : .ofSeconds (query.windowSeconds * j) ≤ query.within.stop) {w : Window} :
    w ∈ log.windows token
        (query.over ⟨query.within.start, .ofSeconds (query.windowSeconds * j)⟩) ↔
      ∃ k, k < j ∧ log.Due token query k ∧ w = log.windowOf token query k := by
  refine mem_windows_over_iff hfinite hlength hcalendar (· < j) ?_ ?_
  · intro k hk t ht
    have hlt := (lt_start_windowAt_iff hlength ht).2 hk
    exact ⟨fun h => ⟨h.1, Int.lt_of_lt_of_le h.2 hto⟩, fun h => ⟨h.1, hlt⟩⟩
  · intro k hk t ht h
    exact hk ((lt_start_windowAt_iff hlength ht).1 h.2)

/-- The windows after a split of the asked range. -/
theorem mem_windows_from_iff {j : Int}
    (hfrom : query.within.start ≤ .ofSeconds (query.windowSeconds * j)) {w : Window} :
    w ∈ log.windows token
        (query.over ⟨.ofSeconds (query.windowSeconds * j), query.within.stop⟩) ↔
      ∃ k, j ≤ k ∧ log.Due token query k ∧ w = log.windowOf token query k := by
  refine mem_windows_over_iff hfinite hlength hcalendar (j ≤ ·) ?_ ?_
  · intro k hk t ht
    have hle : Instant.ofSeconds (query.windowSeconds * j) ≤ t :=
      Instant.not_lt.1 fun hlt => Int.not_le.2 ((lt_start_windowAt_iff hlength ht).1 hlt) hk
    exact ⟨fun h => ⟨Instant.le_trans hfrom h.1, h.2⟩, fun h => ⟨hle, h.2⟩⟩
  · intro k hk t ht h
    exact Instant.not_lt.2 h.1 ((lt_start_windowAt_iff hlength ht).2 (Int.not_le.1 hk))

/-- A question that is split where a window begins is answered in two parts. -/
theorem windows_split {j : Int}
    (hfrom : query.within.start ≤ .ofSeconds (query.windowSeconds * j))
    (hto : .ofSeconds (query.windowSeconds * j) ≤ query.within.stop) :
    log.windows token (query.over ⟨query.within.start, .ofSeconds (query.windowSeconds * j)⟩) ++
        log.windows token (query.over ⟨.ofSeconds (query.windowSeconds * j), query.within.stop⟩) =
      log.windows token query := by
  have hearly := fun w => mem_windows_before_iff (w := w) hfinite hlength hcalendar hto
  have hlate := fun w => mem_windows_from_iff (w := w) hfinite hlength hcalendar hfrom
  apply eq_of_mem_iff _ (log.pairwise_windows token query)
  · intro w
    rw [List.mem_append, hearly, hlate, mem_windows_iff_due hfinite hlength hcalendar]
    constructor
    · rintro (⟨k, -, h⟩ | ⟨k, -, h⟩)
      · exact ⟨k, h⟩
      · exact ⟨k, h⟩
    · rintro ⟨k, h⟩
      rcases Int.lt_or_le k j with hk | hk
      · exact .inl ⟨k, hk, h⟩
      · exact .inr ⟨k, hk, h⟩
  · refine List.pairwise_append.2
      ⟨log.pairwise_windows token _, log.pairwise_windows token _, ?_⟩
    intro v hv w hw
    obtain ⟨i, hi, -, rfl⟩ := (hearly v).1 hv
    obtain ⟨k, hk, -, rfl⟩ := (hlate w).1 hw
    exact (lt_start_windowAt_iff hlength (start_mem_windowAt hlength)).2
      (Int.lt_of_lt_of_le hi hk)

/-- Of two windows of an answer, the one that starts first is over when the other one begins. -/
theorem pairwise_windows_apart :
    (log.windows token query).Pairwise fun v w => v.start < w.start ∧ v.stop ≤ w.start := by
  have hmem := fun w => mem_windows_iff_due (w := w) hfinite hlength hcalendar
  refine (log.pairwise_windows token query).imp_of_mem ?_
  intro v w hv hw hlt
  obtain ⟨i, -, rfl⟩ := (hmem v).1 hv
  obtain ⟨k, -, rfl⟩ := (hmem w).1 hw
  have hik : i < k := (lt_start_windowAt_iff hlength (start_mem_windowAt hlength)).1 hlt
  exact ⟨hlt, (stop_windowAt_le_iff hlength).2 hik⟩

end Split

/-- The answer to a question for windows is exactly those that are due, in order and each over when
the next begins. A question whose range is split where a window begins is answered in two parts. -/
theorem windows_partition (hfinite : ∀ r ∈ log.records, r.value.isFinite = true)
    (hlength : 1 ≤ query.windowSeconds)
    (hcalendar : ∀ k, log.windowRows token query k ≠ [] →
      (windowAt query.windowSeconds k).start.InCalendar ∧
        (windowAt query.windowSeconds k).stop.InCalendar) :
    ∃ answer, log.windows? token query = .ok answer ∧
      (answer.Pairwise fun v w => v.start < w.start ∧ v.stop ≤ w.start) ∧
      (∀ w, w ∈ answer ↔ ∃ k, log.Due token query k ∧ w = log.windowOf token query k) ∧
      ∀ j, query.within.start ≤ .ofSeconds (query.windowSeconds * j) →
        .ofSeconds (query.windowSeconds * j) ≤ query.within.stop →
        ∃ early late,
          log.windows? token
            (query.over ⟨query.within.start, .ofSeconds (query.windowSeconds * j)⟩) = .ok early ∧
          log.windows? token
            (query.over ⟨.ofSeconds (query.windowSeconds * j), query.within.stop⟩) = .ok late ∧
          early ++ late = answer := by
  have hstart : ∀ k, log.windowRows token query k ≠ [] →
      (windowAt query.windowSeconds k).start.InCalendar := fun k hne => (hcalendar k hne).1
  refine ⟨log.windows token query, windows?_eq_ok log token hlength,
    pairwise_windows_apart hfinite hlength hstart,
    fun w => mem_windows_iff_due hfinite hlength hstart, ?_⟩
  intro j hfrom hto
  exact ⟨_, _, windows?_eq_ok log token hlength, windows?_eq_ok log token hlength,
    windows_split hfinite hlength hstart hfrom hto⟩

/-- Rows around the epoch, some between whole seconds, with one value that is too high. -/
def epochLog : Log :=
  ⟨[⟨42, "rpm", ⟨-60500000000⟩, 800.0⟩, ⟨42, "rpm", ⟨-250000000⟩, 900.0⟩,
    ⟨42, "ignition", ⟨0⟩, 1.0⟩, ⟨42, "rpm", ⟨0⟩, 700.0⟩, ⟨7, "rpm", ⟨1000000000⟩, 9000.0⟩,
    ⟨42, "rpm", ⟨59999999999⟩, 750.0⟩, ⟨42, "rpm", ⟨60000000000⟩, 5000.0⟩]⟩

/-- The question for the minutes in which the engine idles. -/
def epochQuery : WindowQuery :=
  ⟨⟨.ofSeconds (-90), .ofSeconds 90⟩, 60, 1, some 1, some ⟨"rpm", 0.0, 1000.0⟩⟩

theorem windows?_epochLog :
    epochLog.windows? 42 epochQuery =
      .ok [⟨.ofSeconds (-120), .ofSeconds (-60), 1, 1⟩, ⟨.ofSeconds (-60), .ofSeconds 0, 1, 1⟩,
        ⟨.ofSeconds 0, .ofSeconds 60, 2, 1⟩] := by
  have hsorted : epochLog.bucketed 42 epochQuery =
      epochLog.records.filter (counts 42 epochQuery) :=
    bucketed_of_pairwise (by decide +kernel) 42 (by decide)
  rw [windows?_eq_ok epochLog 42 (by decide)]
  show Except.ok ((gather _ (epochLog.bucketed 42 epochQuery)).filterMap _) = _
  rw [hsorted]
  exact congrArg Except.ok (by decide +kernel)

theorem windows_partition_epochLog :
    (∀ r ∈ epochLog.records, r.value.isFinite = true) ∧ 1 ≤ epochQuery.windowSeconds ∧
      (∀ k, epochLog.windowRows 42 epochQuery k ≠ [] →
        (windowAt 60 k).start.InCalendar ∧ (windowAt 60 k).stop.InCalendar) ∧
      ∃ early late,
        epochLog.windows? 42 (epochQuery.over ⟨.ofSeconds (-90), .ofSeconds 0⟩) = .ok early ∧
        epochLog.windows? 42 (epochQuery.over ⟨.ofSeconds 0, .ofSeconds 90⟩) = .ok late ∧
        early ++ late =
          [⟨.ofSeconds (-120), .ofSeconds (-60), 1, 1⟩, ⟨.ofSeconds (-60), .ofSeconds 0, 1, 1⟩,
            ⟨.ofSeconds 0, .ofSeconds 60, 2, 1⟩] := by
  have hfinite : ∀ r ∈ epochLog.records, r.value.isFinite = true := by decide +kernel
  have hlength : 1 ≤ epochQuery.windowSeconds := by decide
  have hcalendar : ∀ k, epochLog.windowRows 42 epochQuery k ≠ [] →
      (windowAt 60 k).start.InCalendar ∧ (windowAt 60 k).stop.InCalendar := by
    intro k hne
    -- a row of the window lies less than two minutes from the epoch
    obtain ⟨r, hr⟩ := List.exists_mem_of_ne_nil _ hne
    obtain ⟨hwithin, hwindow⟩ := times_of_mem_windowRows hr
    obtain ⟨hfrom, hto⟩ : -90 * 1000000000 ≤ r.time.nanos ∧ r.time.nanos < 90 * 1000000000 :=
      hwithin
    obtain ⟨hstart, hstop⟩ : 60 * k * 1000000000 ≤ r.time.nanos ∧
        r.time.nanos < (60 * k + 60) * 1000000000 := hwindow
    simp only [windowAt, Instant.InCalendar, Instant.second_ofSeconds, Instant.firstSecond,
      Instant.lastSecond]
    omega
  obtain ⟨answer, hanswer, -, -, hsplit⟩ := windows_partition hfinite hlength hcalendar
  obtain rfl : _ = answer := Except.ok.inj (windows?_epochLog.symm.trans hanswer)
  exact ⟨hfinite, hlength, hcalendar, hsplit 0 (by decide) (by decide)⟩

end Log

end Telematics
