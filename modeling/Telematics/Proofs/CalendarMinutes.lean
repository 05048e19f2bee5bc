import Telematics.Time.Instant

/-!
# Minutes of the calendar

The calendar has no holes and begins with a whole minute, so that an instant of the calendar rounded
down to its minute is an instant of the calendar still, also before the epoch. That makes rounding
down move along with whole minutes: an instant that is in the calendar before and after a move
(`Instant.Stays`) rounds down to the minute that has moved as well (`alignDown_add_minutes`).
-/

set_option autoImplicit false

namespace Telematics.Instant

variable {d : Span} {k : Int} {a b t : Instant}

/-- The calendar has no holes. -/
theorem inCalendar_of_le_of_le (ha : a.InCalendar) (hb : b.InCalendar) (hat : a ≤ t)
    (htb : t ≤ b) : t.InCalendar :=
  ⟨Int.le_trans ha.1 (Int.ediv_le_ediv (by decide) hat),
    Int.le_trans (Int.ediv_le_ediv (by decide) htb) hb.2⟩

theorem second_ofSeconds (n : Int) : (ofSeconds n).second = n := by
  simp only [ofSeconds, second, Span.seconds]
  omega

/-- A minute that holds an instant of the calendar starts in the calendar. -/
theorem inCalendar_minute (h : t.InCalendar) : (ofSeconds (t.second / 60 * 60)).InCalendar := by
  simp only [InCalendar, second_ofSeconds, firstSecond, lastSecond] at h ⊢
  omega

/-- An instant of the calendar rounds down to the start of its minute. -/
theorem alignDown_minute (h : t.InCalendar) :
    t.alignDown 60 = .ofSeconds (t.second / 60 * 60) := by
  have hfloor : t.second - t.second % 60 = t.second / 60 * 60 := by omega
  simp only [alignDown, hfloor, if_pos (inCalendar_minute h)]

/-! ## Moves -/

@[simp] theorem add_le_add_iff (a b : Instant) (d : Span) : a + d ≤ b + d ↔ a ≤ b :=
  Int.add_le_add_iff_right d

/-- An instant is in the calendar before and after a move. -/
structure Stays (d : Span) (t : Instant) : Prop where
  before : t.InCalendar
  after : (t + d).InCalendar

/-- What lies between instants that stay stays. -/
theorem Stays.of_le_of_le (ha : a.Stays d) (hb : b.Stays d) (hat : a ≤ t) (htb : t ≤ b) :
    t.Stays d :=
  ⟨inCalendar_of_le_of_le ha.before hb.before hat htb,
    inCalendar_of_le_of_le ha.after hb.after ((add_le_add_iff a t d).2 hat)
      ((add_le_add_iff t b d).2 htb)⟩

theorem second_add_minutes (t : Instant) (k : Int) :
    (t + Span.minutes k).second = t.second + 60 * k := by
  show (t.nanos + 60 * k * 1000000000) / 1000000000 = t.nanos / 1000000000 + 60 * k
  omega

theorem ofSeconds_add_minutes (n k : Int) :
    ofSeconds n + Span.minutes k = ofSeconds (n + 60 * k) :=
  eq_of_nanos_eq (Int.add_mul n (60 * k) 1000000000).symm

/-- The minute that an instant lies in moves along with whole minutes. -/
theorem minute_add_minutes (t : Instant) (k : Int) :
    (t + Span.minutes k).second / 60 * 60 = t.second / 60 * 60 + 60 * k := by
  rw [second_add_minutes]
  omega

/-- The start of the minute of an instant that stays stays. -/
theorem Stays.minute (h : t.Stays (Span.minutes k)) :
    (ofSeconds (t.second / 60 * 60)).Stays (Span.minutes k) := by
  refine ⟨inCalendar_minute h.before, ?_⟩
  have hafter := inCalendar_minute h.after
  rwa [minute_add_minutes, ← ofSeconds_add_minutes] at hafter

theorem Stays.alignDown (h : t.Stays (Span.minutes k)) :
    (t.alignDown 60).Stays (Span.minutes k) := by
  rw [alignDown_minute h.before]
  exact h.minute

/-- Rounding down to a minute moves along with whole minutes. -/
theorem alignDown_add_minutes (h : t.Stays (Span.minutes k)) :
    (t + Span.minutes k).alignDown 60 = t.alignDown 60 + Span.minutes k := by
  rw [alignDown_minute h.after, alignDown_minute h.before, minute_add_minutes,
    ofSeconds_add_minutes]

end Telematics.Instant
