import Telematics.Source.Basic

/-!
# Record logs

A log keeps the rows of all vehicles in the order in which they arrived, and answers every kind of
read from them. Samples are ordered by time, rows of one time by arrival. Windows lie at whole
multiples of their length since the epoch, so that every row of a question is in exactly one of
them. Changes of state compare each value with the one before it in the whole history, not only in
the asked range.
-/

set_option autoImplicit false

namespace Telematics

/-- The rows of all vehicles, in the order of their arrival. -/
structure Log where
  records : List Record

namespace Log

/-- The log without rows. -/
def empty : Log := ⟨[]⟩

/-- Rows arrive after all others. -/
def append (log : Log) (records : List Record) : Log := ⟨log.records ++ records⟩

/-- The number of rows. -/
def size (log : Log) : Nat := log.records.length

/-- The samples of one signal of one vehicle, ordered by time and by arrival. -/
def rows (log : Log) (token : TokenId) (signal : String) : List (Sample Float) :=
  ((log.records.filter fun r => r.token == token && r.name == signal).map fun r =>
    (⟨r.time, r.value⟩ : Sample Float)).mergeSort fun a b => decide (a.time ≤ b.time)

/-- The samples of one signal in a range, both ends included. -/
def levels (log : Log) (token : TokenId) (signal : String) (within : Range) :
    List (Sample Float) :=
  (log.rows token signal).filter fun s =>
    decide (within.start ≤ s.time) && decide (s.time ≤ within.stop)

/-- The changes from a state on, those from `start` on reported. -/
def changesAfter (start : Instant) (state : Float) : List (Sample Float) → List StateChange
  | [] => []
  | s :: rest =>
    let later := changesAfter start s.value rest
    if s.value != state && decide (start ≤ s.time) then ⟨s.time, s.value, state⟩ :: later
    else later

/-- The changes of state of one signal in a range, both ends included. -/
def changes (log : Log) (token : TokenId) (signal : String) (within : Range) :
    List StateChange :=
  changesAfter within.start StateChange.unknownState
    (Series.upTo within.stop (log.rows token signal))

/-- The start, in seconds since the epoch, of the window that an instant lies in. -/
def bucket (windowSeconds : Int) (t : Instant) : Int := t.second / windowSeconds * windowSeconds

/-- A row counts for a question. -/
def counts (token : TokenId) (query : WindowQuery) (r : Record) : Bool :=
  r.token == token && decide (query.within.start ≤ r.time) && decide (r.time < query.within.stop) &&
    match query.band with
    | none => true
    | some band => r.name == band.signal

/-- Neighbouring rows of one window together, with the start of the window. -/
def gather (windowSeconds : Int) : List Record → List (Int × List Record)
  | [] => []
  | r :: rest =>
    match gather windowSeconds rest with
    | [] => [(bucket windowSeconds r.time, [r])]
    | (b, group) :: groups =>
      if b = bucket windowSeconds r.time then (b, r :: group) :: groups
      else (bucket windowSeconds r.time, [r]) :: (b, group) :: groups

/-- The largest finite number. -/
def largestFinite : Float := Float.ofBits 0x7fefffffffffffff

/-- The least of some values, not above the largest finite number; what is no number is passed
over. -/
def least (values : List Float) : Float :=
  values.foldl (fun low v => if v < low then v else low) largestFinite

/-- The greatest of some values, not below the lowest finite number; what is no number is passed
over. -/
def greatest (values : List Float) : Float :=
  values.foldl (fun high v => if high < v then v else high) (-largestFinite)

/-- The rows of a window are enough for a question, and their values lie in its band. -/
def qualifies (query : WindowQuery) (group : List Record) : Bool :=
  decide (query.leastCount ≤ group.length) &&
    (match query.leastDistinct with
      | none => true
      | some n => decide (n ≤ (group.map Record.name).eraseDups.length)) &&
    match query.band with
    | none => true
    | some band =>
      decide (band.above < least (group.map Record.value)) &&
        decide (greatest (group.map Record.value) ≤ band.upTo)

/-- The window that starts so many seconds after the epoch, unless that is outside the calendar. -/
def window? (windowSeconds start : Int) (group : List Record) : Option Window :=
  let first := Instant.ofSeconds start
  if first.InCalendar then
    some ⟨first, first + Span.seconds windowSeconds, group.length,
      (group.map Record.name).eraseDups.length⟩
  else none

/-- The windows that a question asks for, in order. -/
def windows (log : Log) (token : TokenId) (query : WindowQuery) : List Window :=
  let rows := (log.records.filter (counts token query)).mergeSort fun a b =>
    decide (bucket query.windowSeconds a.time ≤ bucket query.windowSeconds b.time)
  (gather query.windowSeconds rows).filterMap fun (start, group) =>
    if qualifies query group then window? query.windowSeconds start group else none

/-- The words for a length of a window that is not positive. -/
def badWindowLength (windowSeconds : Int) : String :=
  "window size must be positive, got " ++ toString windowSeconds

/-- The answer to a question for windows: their length must be positive. -/
def windows? (log : Log) (token : TokenId) (query : WindowQuery) :
    Except SourceFailure (List Window) :=
  if query.windowSeconds ≤ 0 then .error (.invalidQuery (badWindowLength query.windowSeconds))
  else .ok (log.windows token query)

/-- The reply of a log to a read. -/
def reply (log : Log) : (r : Read) → Reply SourceFailure r.Answer
  | .levels token signal within => .answer (log.levels token signal within)
  | .changes token signal within => .answer (log.changes token signal within)
  | .windows token query =>
    match log.windows? token query with
    | .ok found => .answer found
    | .error e => .failure e

/-- A log as a source. -/
def source (log : Log) : Source := ⟨log.reply⟩

end Log

end Telematics
