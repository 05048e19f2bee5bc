import Telematics.Proofs.CalendarMinutes
import Telematics.Proofs.Outcomes
import Telematics.Proofs.SlotCounts
import Telematics.Proofs.WindowCounts

/-!
# Active minutes by arrivals

The second mechanism of `Arrivals` reads windows and calls a minute active while a score over the
counts is high. Two alignments have to agree for that: a log cuts time into buckets from the epoch
on, and the detector into minutes from its lookback on. Here the active minutes are found from the
rows alone, without windows and without a score: each minute has the rows that arrived in it
(`getElem?_minuteCounts`), and a stretch of minutes those that arrived during it (`sum_stretch`), so
that none is lost and none counts twice. `active_iff_arrivals` says by arrivals which minutes are
active.
-/

set_option autoImplicit false

namespace Telematics

namespace Log

/-- Nothing arrives in a range that is over when it starts. -/
theorem arrivals_eq_zero (log : Log) (token : TokenId) {within : Range}
    (h : within.stop ≤ within.start) : log.arrivals token within = 0 := by
  apply List.countP_eq_zero.2
  intro r _ hr
  simp only [Bool.and_eq_true, decide_eq_true_eq, Range.mem_iff] at hr
  exact absurd (Instant.le_trans h hr.2.1) (Instant.not_le.2 hr.2.2)

end Log

namespace Arrivals

variable {log : Log} {r : Request}

/-! ## The minutes of a request -/

/-- The dates from the lookback to the end of the asked range exist. -/
structure LooksInCalendar (r : Request) : Prop where
  lookback : (r.asked.start - gap r.tuning).InCalendar
  stop : r.asked.stop.InCalendar

/-- The second, counted from the epoch, with which the first minute starts: that of the instant one
gap tolerance before the asked range, rounded down to a whole minute. -/
def lookbackSecond (r : Request) : Int := (r.asked.start - gap r.tuning).second / 60 * 60

/-- The minutes from there on by their numbers. -/
def minute (r : Request) (k : Nat) : Range :=
  ⟨.ofSeconds (lookbackSecond r + 60 * k), .ofSeconds (lookbackSecond r + 60 * (k + 1))⟩

theorem start_minute_succ (r : Request) (k : Nat) : (minute r (k + 1)).start = (minute r k).stop :=
  rfl

theorem stop_minute (r : Request) (k : Nat) :
    (minute r k).start + windowLength = (minute r k).stop := by
  apply Instant.eq_of_nanos_eq
  simp only [minute, Instant.nanos_add, Instant.nanos_ofSeconds, windowLength, windowSeconds,
    Span.seconds]
  omega

theorem start_le_stop_minute (r : Request) {j k : Nat} (h : j ≤ k) :
    (minute r j).start ≤ (minute r k).start ∧ (minute r k).start ≤ (minute r k).stop := by
  simp only [minute, Instant.le_iff, Instant.nanos_ofSeconds]
  omega

/-- The slots of a request are its minutes that start before the end of the asked range. -/
theorem getElem?_slots (hlooks : LooksInCalendar r) {k : Nat} {t : Instant} :
    (slots r)[k]? = some t ↔ t = (minute r k).start ∧ t < r.asked.stop := by
  have hstart : lookbackStart r + windowLength * (k : Int) = (minute r k).start := by
    rw [lookbackStart, windowSeconds, Instant.alignDown_minute hlooks.lookback]
    apply Instant.eq_of_nanos_eq
    simp only [minute, lookbackSecond, Instant.nanos_add, Instant.nanos_ofSeconds, windowLength,
      windowSeconds, Span.seconds]
    omega
  rw [slots, Instant.getElem?_every (by decide), hstart]

theorem getElem?_slots_of_lt (hlooks : LooksInCalendar r) {k : Nat}
    (h : (minute r k).start < r.asked.stop) : (slots r)[k]? = some (minute r k).start :=
  (getElem?_slots hlooks).2 ⟨rfl, h⟩

/-! ## Counts by arrivals -/

/-- The rows that arrived from the start of one minute to the end of another one, as far as the
asked range goes. -/
def arrivalsFrom (log : Log) (r : Request) (j k : Nat) : Nat :=
  log.arrivals r.token ⟨(minute r j).start, min (minute r k).stop r.asked.stop⟩

/-- The second mechanism asks for every window that is not empty. -/
theorem changePointQuery_eq (r : Request) :
    changePointQuery r = Log.counting ⟨lookbackStart r, r.asked.stop⟩ windowSeconds 1 := rfl

/-- The window of a minute has the rows that arrived in it; a minute without a window has none. -/
theorem countAt_windows (hlooks : LooksInCalendar r) {k : Nat}
    (hk : (minute r k).start < r.asked.stop) :
    countAt (log.windows r.token (changePointQuery r)) (minute r k).start =
      arrivalsFrom log r k k := by
  have hfirst : lookbackStart r = .ofSeconds (lookbackSecond r) :=
    Instant.alignDown_minute hlooks.lookback
  have haligned : (lookbackSecond r + 60 * (k : Int)) % windowSeconds = 0 := by
    simp only [lookbackSecond, windowSeconds]
    omega
  have hstart : lookbackStart r ≤ (minute r k).start := by
    rw [hfirst, Instant.le_iff]
    simp only [minute, Instant.nanos_ofSeconds]
    omega
  have hrows : (log.bucketRows r.token (changePointQuery r) (lookbackSecond r + 60 * k)).length =
      arrivalsFrom log r k k := by
    rw [changePointQuery_eq,
      Log.length_bucketRows_eq_arrivals log r.token (by decide) haligned hstart, arrivalsFrom,
      ← stop_minute]
    rfl
  by_cases hwindow : ∃ w ∈ log.windows r.token (changePointQuery r), w.start = (minute r k).start
  · obtain ⟨w, hw, hwstart⟩ := hwindow
    rw [← hwstart, countAt_eq_of_mem (log.pairwise_windows _ _) hw,
      (Log.eq_of_mem_windows hw hwstart).1, hrows]
  · -- the minute starts in the calendar, so without a window it has no rows
    have hcalendar : (minute r k).start.InCalendar := by
      have hlow := hlooks.lookback.1
      have hhigh := hlooks.stop.2
      rw [Instant.lt_iff] at hk
      simp only [minute, Instant.InCalendar, Instant.nanos_ofSeconds, lookbackSecond,
        Instant.firstSecond, Instant.second] at hlow hhigh hk ⊢
      omega
    rw [countAt_eq_zero fun w hw heq => hwindow ⟨w, hw, heq⟩, ← hrows]
    by_contra hne
    refine hwindow (Log.exists_mem_windows_counting_iff.2 ⟨hcalendar, ?_, ?_⟩)
    · exact Nat.pos_of_ne_zero (Ne.symm hne)
    · exact Nat.pos_of_ne_zero (Ne.symm hne)

/-- The slots of a request go forward. -/
theorem pairwise_slots (r : Request) : (slots r).Pairwise fun a b => a < b :=
  Instant.pairwise_every (by decide)

/-- The counts of the slots that a request is answered from. -/
def minuteCounts (log : Log) (r : Request) : List Nat :=
  dense (slots r) (log.windows r.token (changePointQuery r))

/-- Each slot has the rows that arrived in its minute. -/
theorem getElem?_minuteCounts (log : Log) (hlooks : LooksInCalendar r) {k : Nat}
    (hk : (minute r k).start < r.asked.stop) :
    (minuteCounts log r)[k]? = some (arrivalsFrom log r k k) := by
  rw [minuteCounts, dense_eq_map (pairwise_slots r) (log.pairwise_windows _ _),
    List.getElem?_map, getElem?_slots_of_lt hlooks hk, Option.map_some, countAt_windows hlooks hk]

/-- A stretch of minutes has the rows that arrived during it. -/
theorem sum_stretch (log : Log) (hlooks : LooksInCalendar r) {j k : Nat} (hjk : j ≤ k)
    (hk : (minute r k).start < r.asked.stop) :
    (((minuteCounts log r).take (k + 1)).drop j).sum = arrivalsFrom log r j k := by
  induction k with
  | zero =>
      obtain rfl : j = 0 := by omega
      rw [List.take_add_one, getElem?_minuteCounts log hlooks hk]
      simp
  | succ k ih =>
      rw [List.take_add_one, getElem?_minuteCounts log hlooks hk]
      have hlength : ((minuteCounts log r).take (k + 1)).length = k + 1 := by
        have hlt := (List.getElem?_eq_some_iff.1 (getElem?_minuteCounts log hlooks hk)).1
        rw [List.length_take]
        omega
      rw [List.drop_append_of_le_length (by omega), List.sum_append_nat]
      rcases Nat.lt_or_ge k j with hlt | hle
      · obtain rfl : j = k + 1 := by omega
        simp
      · -- the minutes so far are over when the last one starts
        have hover : (minute r k).stop < r.asked.stop := hk
        have hmin : min (minute r k).stop r.asked.stop = (minute r k).stop :=
          Instant.min_eq_left (Int.le_of_lt hover)
        have hearlier : (minute r k).start < r.asked.stop :=
          Int.lt_of_le_of_lt (start_le_stop_minute r (Nat.le_refl k)).2 hover
        rw [ih hle hearlier, arrivalsFrom, hmin, arrivalsFrom, arrivalsFrom]
        simp only [Option.toList_some, List.sum_singleton]
        rw [start_minute_succ]
        apply log.arrivals_add
        · exact Instant.le_trans (start_le_stop_minute r hle).1 (start_le_stop_minute r hle).2
        · rw [Instant.le_iff, Instant.nanos_min, ← start_minute_succ]
          have hforward := (start_le_stop_minute r (Nat.le_refl (k + 1))).2
          rw [Instant.le_iff] at hforward
          rw [Instant.lt_iff] at hk
          omega

/-- All minutes together have all rows that arrived from the lookback to the end of the asked
range. -/
theorem sum_minuteCounts (log : Log) (hlooks : LooksInCalendar r) :
    (minuteCounts log r).sum =
      log.arrivals r.token ⟨(minute r 0).start, r.asked.stop⟩ := by
  have hlength : (minuteCounts log r).length = (slots r).length := length_dense _ _
  -- the first minute that is not looked at does not start before the end of the asked range
  have hend : r.asked.stop ≤ (minute r (slots r).length).start := by
    rw [← Instant.not_lt]
    intro hlt
    have hsome := getElem?_slots_of_lt hlooks hlt
    rw [List.getElem?_eq_none (Nat.le_refl _)] at hsome
    exact absurd hsome (by simp)
  cases hn : (slots r).length with
  | zero =>
      rw [hn] at hend hlength
      rw [List.length_eq_zero_iff.1 hlength, log.arrivals_eq_zero r.token hend]
      rfl
  | succ n =>
      rw [hn, start_minute_succ] at hend
      have hlast : (minute r n).start < r.asked.stop := by
        obtain ⟨t, ht⟩ : ∃ t, (slots r)[n]? = some t :=
          ⟨_, List.getElem?_eq_getElem (by omega)⟩
        obtain ⟨rfl, hlt⟩ := (getElem?_slots hlooks).1 ht
        exact hlt
      have hmin : min (minute r n).stop r.asked.stop = r.asked.stop := Instant.min_eq_right hend
      have hsum := sum_stretch log hlooks (Nat.zero_le n) hlast
      rw [List.drop_zero, List.take_of_length_le (by omega), arrivalsFrom, hmin] at hsum
      exact hsum

/-! ## Active minutes -/

/-- The minutes that a request calls active. -/
def activeMinutes (log : Log) (r : Request) : List Range :=
  activeSlots (slots r) (log.windows r.token (changePointQuery r))

/-- Some stretch of minutes that ends with this one has more arrivals, doubled, than ten and three
for each of its minutes: more than five and one and a half for each. -/
def Busy (log : Log) (r : Request) (k : Nat) : Prop :=
  ∃ j ≤ k, 10 + 3 * (k - j + 1) < 2 * arrivalsFrom log r j k

theorem fits_minuteCounts (hfew : log.size < Number.twoTo 50) :
    2 * ((minuteCounts log r).sum : Int) < Number.twoTo Cusum.precision := by
  have hpower : Number.twoTo 50 = 1125899906842624 := rfl
  have hpower' : Number.twoTo Cusum.precision = 9007199254740992 := rfl
  have hle := Nat.le_trans (sum_dense_le (slots r) (log.windows r.token (changePointQuery r)))
    (log.sum_signalCount_windows_le r.token (changePointQuery r))
  rw [minuteCounts]
  omega

/-- A minute that starts before the end of the asked range is active exactly when it is busy. -/
theorem mem_activeMinutes_iff (hlooks : LooksInCalendar r) (hfew : log.size < Number.twoTo 50)
    {a : Range} :
    a ∈ activeMinutes log r ↔
      ∃ k, a = minute r k ∧ a.start < r.asked.stop ∧ Busy log r k := by
  have hgain : ∀ j k, j ≤ k → (minute r k).start < r.asked.stop →
      (Cusum.threshold < Cusum.gain (((minuteCounts log r).take (k + 1)).drop j) ↔
        10 + 3 * (k - j + 1) < 2 * arrivalsFrom log r j k) := by
    intro j k hjk hk
    have hlt := (List.getElem?_eq_some_iff.1 (getElem?_minuteCounts log hlooks hk)).1
    rw [Cusum.gain, sum_stretch log hlooks hjk hk, List.length_drop, List.length_take]
    simp only [Cusum.threshold, Cusum.baseline, Cusum.drift]
    omega
  rw [activeMinutes, mem_activeSlots_iff (fits_minuteCounts hfew)]
  constructor
  · rintro ⟨k, slot, hslot, rfl, j, hj, hmore⟩
    obtain ⟨rfl, hk⟩ := (getElem?_slots hlooks).1 hslot
    exact ⟨k, by rw [stop_minute], hk, j, hj, (hgain j k hj hk).1 hmore⟩
  · rintro ⟨k, rfl, hk, j, hj, hmore⟩
    refine ⟨k, _, getElem?_slots_of_lt hlooks hk, by rw [stop_minute], j, hj, ?_⟩
    exact (hgain j k hj hk).2 hmore

/-- What the second mechanism makes of a log, told by arrivals. -/
structure ToldByArrivals (log : Log) (now : Instant) (r : Request) : Prop where
  /-- The answer is what the active minutes grow to. -/
  answered : (Mechanism.changePoint.detect log.source now r).outcome =
    .answer (segmentsOf r now (activeMinutes log r))
  /-- Each minute that starts before the end of the asked range has the rows that arrived in it. -/
  counted : ∀ k, (minute r k).start < r.asked.stop →
    (minuteCounts log r)[k]? = some (arrivalsFrom log r k k)
  /-- Each row from the lookback to the end of the asked range counts once. -/
  complete : (minuteCounts log r).sum = log.arrivals r.token ⟨(minute r 0).start, r.asked.stop⟩
  /-- Active minutes are in order. -/
  ordered : (activeMinutes log r).Pairwise fun a b => a.start < b.start
  /-- They are the busy minutes that start before the end of the asked range. -/
  active : ∀ a, a ∈ activeMinutes log r ↔
    ∃ k, a = minute r k ∧ a.start < r.asked.stop ∧ Busy log r k

/-- The second mechanism answers what grows from the active minutes, and these are found by
arrivals: every row of the queried time is in the count of exactly one minute, and a minute is
active exactly when it is busy. -/
theorem active_iff_arrivals (log : Log) (now : Instant) {r : Request} (hlooks : LooksInCalendar r)
    (hfew : log.size < Number.twoTo 50) : ToldByArrivals log now r where
  answered := log.outcome_changePoint now r
  counted _ hk := getElem?_minuteCounts log hlooks hk
  complete := sum_minuteCounts log hlooks
  ordered := pairwise_activeSlots _ (pairwise_slots r)
  active _ := mem_activeMinutes_iff hlooks hfew

/-- A dozen rows from the last minute before the epoch, none of them at a whole second. -/
def lastMinuteLog : Log :=
  ⟨(List.range 12).map fun (i : Nat) =>
    ⟨42, "speed", ⟨-60000000000 + 5000000000 * (i : Int) + 1⟩, 30.0⟩⟩

/-- The request for the ten minutes after the epoch, without tunables. -/
def firstMinutes : Request := ⟨42, ⟨.ofSeconds 0, .ofSeconds 600⟩, Tuning.default⟩

theorem active_lastMinuteLog :
    LooksInCalendar firstMinutes ∧ lastMinuteLog.size < Number.twoTo 50 ∧
      ToldByArrivals lastMinuteLog (.ofSeconds 600) firstMinutes ∧
      minute firstMinutes 9 ∈ activeMinutes lastMinuteLog firstMinutes := by
  have hlooks : LooksInCalendar firstMinutes := ⟨by decide, by decide⟩
  have hfew : lastMinuteLog.size < Number.twoTo 50 := by decide
  have htold := active_iff_arrivals lastMinuteLog (.ofSeconds 600) hlooks hfew
  refine ⟨hlooks, hfew, htold, ?_⟩
  -- its twelve rows are more than five and one and a half
  rw [htold.active]
  exact ⟨9, rfl, by decide, 9, by decide, by decide⟩

end Arrivals

end Telematics
