import Telematics.Number.Word
import Telematics.Text.Blank
import Telematics.Time.Civil

/-!
# Instants as RFC 3339 text

`Instant.render` writes an instant in UTC with as few fraction digits of 0, 3, 6 or 9 as lose
nothing. `Instant.parse` reads the date, a separator, the time of day and the offset from UTC; it is
lenient in the widths of its fields and in white space between them. The reader reports the first
fault from the left; only a text it has read to its end is checked to name an existing moment.

A minute may have a second 60, which is a leap second. Instants know no leap seconds, so it is read
as the second after the 59th.
-/

set_option autoImplicit false

namespace Telematics

/-- Why a text names no instant. -/
inductive TimeFault where
  /-- The text ends too early. -/
  | tooShort
  /-- A character stands where none of its kind may. -/
  | badCharacter
  /-- A field has a value that no clock or calendar shows. -/
  | outOfRange
  /-- Text follows the offset. -/
  | trailing
  /-- The local time is in the calendar, but the same moment in UTC is not. -/
  | noSuchTime
deriving DecidableEq

/-- The words of a fault. -/
def TimeFault.message : TimeFault → String
  | tooShort => "premature end of input"
  | badCharacter => "input contains invalid characters"
  | outOfRange => "input is out of range"
  | trailing => "trailing input"
  | noSuchTime => "no possible date and time matching input"

namespace Rfc3339

/-- A reader of the start of a text: it leaves the rest, or stops at a fault. -/
abbrev Scan (α : Type) := StateT (List Char) (Except TimeFault) α

/-- The number that a list of digits writes, and the text after at most `width` of them. -/
def digitsFrom : Nat → Nat → List Char → Nat × List Char
  | 0, n, cs => (n, cs)
  | _ + 1, n, [] => (n, [])
  | width + 1, n, c :: cs =>
    match Text.digit? c with
    | some d => digitsFrom width (10 * n + d) cs
    | none => (n, c :: cs)

/-- A number of one to `width` digits. -/
def number (width : Nat) : Scan Nat := fun cs =>
  match cs with
  | [] => .error .tooShort
  | c :: _ => if (Text.digit? c).isSome then .ok (digitsFrom width 0 cs) else .error .badCharacter

/-- White space, if there is any. -/
def blanks : Scan Unit := modify Text.skipBlank

/-- A number of one or two digits after optional white space, not outside its bounds. -/
def field (low high : Nat) : Scan Nat := do
  blanks
  let n ← number 2
  if low ≤ n ∧ n ≤ high then pure n else throw .outOfRange

/-- A year: up to four digits, or a sign and any number of digits. A year must fit 32 bits. -/
def year : Scan Int := do
  blanks
  let cs ← get
  let y ←
    match cs with
    | '-' :: rest => do
      set rest
      let n ← number rest.length
      pure (-(n : Int))
    | '+' :: rest => do
      set rest
      let n ← number rest.length
      pure (n : Int)
    | _ => do
      let n ← number 4
      pure (n : Int)
  if -2147483648 ≤ y ∧ y ≤ 2147483647 then pure y else throw .outOfRange

/-- One of the given characters. -/
def oneOf (marks : List Char) : Scan Unit := fun cs =>
  match cs with
  | [] => .error .tooShort
  | c :: rest => if c ∈ marks then .ok ((), rest) else .error .badCharacter

/-- A punctuation mark after optional white space. -/
def mark (c : Char) : Scan Unit := do
  blanks
  oneOf [c]

/-- An optional fraction of a second: nanoseconds, with digits past the ninth ignored. -/
def fraction : Scan Nat := do
  match ← get with
  | '.' :: rest => do
    set rest
    let n ← number 9
    let after ← get
    set (after.dropWhile fun c => (Text.digit? c).isSome)
    pure (n * Number.tenTo (9 - (rest.length - after.length)))
  | _ => pure 0

/-- Two digits, the first of them below `high`. A lone ASCII character is too short, and a first
digit that is too large is out of range. -/
def digitPair (high : Nat) : Scan Nat := fun cs =>
  match cs with
  | [] => .error .tooShort
  | [c] => if c.toNat < 128 then .error .tooShort else .error .badCharacter
  | c :: d :: rest =>
    match Text.digit? c, Text.digit? d with
    | some m, some n => if m < high then .ok (10 * m + n, rest) else .error .outOfRange
    | _, _ => .error .badCharacter

/-- The text starts with `UTC` in any case. -/
def isUtc : List Char → Bool
  | a :: b :: c :: _ => a.toUpper == 'U' && b.toUpper == 'T' && c.toUpper == 'C'
  | _ => false

/-- Hours and minutes of an offset, with colons or white space between them, in seconds. -/
def offsetClock : Scan Int := do
  let h ← digitPair 10
  modify fun cs => cs.dropWhile fun c => c == ':' || Text.isBlank c
  let m ← digitPair 6
  pure (3600 * (h : Int) + 60 * (m : Int))

/-- The offset from UTC in seconds: `Z`, `UTC`, or a sign with hours and minutes. -/
def offset : Scan Int := do
  let cs ← get
  if isUtc cs then
    set (cs.drop 3)
    pure 0
  else
    match cs with
    | [] => throw .tooShort
    | 'Z' :: rest | 'z' :: rest => do
      set rest
      pure 0
    | '+' :: rest => do
      set rest
      offsetClock
    | '-' :: rest | '\u2212' :: rest => do
      set rest
      let s ← offsetClock
      pure (-s)
    | _ => throw .badCharacter

/-- The fields of a text that has been read to its end. -/
structure Fields where
  date : Date
  /-- The second of the day; for a leap second the one before it. -/
  secondOfDay : Nat
  /-- The nanoseconds past the second, with those of a leap second. -/
  subsecond : Nat
  /-- The seconds by which the clock is ahead of UTC. -/
  offset : Int

/-- The fields of a text, in the order in which they are written, with nothing after them. -/
def fields : Scan Fields := do
  let y ← year
  mark '-'
  let mo ← field 1 12
  mark '-'
  let d ← field 1 31
  oneOf ['T', 't', ' ']
  let h ← field 0 23
  mark ':'
  let mi ← field 0 59
  mark ':'
  let s ← field 0 60
  let f ← fraction
  blanks
  let o ← offset
  blanks
  if (← get).isEmpty then
    let leap := if s = 60 then Span.nanosPerSecond else 0
    pure ⟨⟨y, mo, d⟩, 3600 * h + 60 * mi + min s 59, f + leap, o⟩
  else throw .trailing

/-- The instant that the fields name, if the date exists and the offset is below a day. -/
def Fields.instant (f : Fields) : Except TimeFault Instant :=
  let localSecond := Instant.ofSeconds (86400 * f.date.toDays + f.secondOfDay)
  if ¬ f.date.Exists ∨ ¬ localSecond.InCalendar ∨ 86400 ≤ f.offset.natAbs then .error .outOfRange
  else
    let second := localSecond - Span.seconds f.offset
    if second.InCalendar then .ok (second + (f.subsecond : Span)) else .error .noSuchTime

/-- A year of four digits, or with a sign and at least four. -/
def renderYear (y : Int) : String :=
  if 0 ≤ y ∧ y ≤ 9999 then Text.padded 4 y.toNat
  else (if y < 0 then "-" else "+") ++ Text.padded 4 y.natAbs

/-- The fraction of a second with 0, 3, 6 or 9 digits. -/
def renderFraction (nanos : Nat) : String :=
  if nanos = 0 then ""
  else if nanos % 1000000 = 0 then "." ++ Text.padded 3 (nanos / 1000000)
  else if nanos % 1000 = 0 then "." ++ Text.padded 6 (nanos / 1000)
  else "." ++ Text.padded 9 nanos

end Rfc3339

/-- The instant that a text names. -/
def Instant.parse (s : String) : Except TimeFault Instant :=
  (Rfc3339.fields.run' s.toList) >>= Rfc3339.Fields.instant

/-- The text of an instant in UTC, with `zone` for the offset. -/
def Instant.renderWith (zone : String) (t : Instant) : String :=
  let d := t.date
  let s := t.secondOfDay
  Rfc3339.renderYear d.year ++ "-" ++ Text.padded 2 d.month ++ "-" ++ Text.padded 2 d.day ++ "T" ++
    Text.padded 2 (s / 3600) ++ ":" ++ Text.padded 2 (s / 60 % 60) ++ ":" ++
    Text.padded 2 (s % 60) ++ Rfc3339.renderFraction t.subsecond ++ zone

/-- The text of an instant with `Z` for UTC, as records and answers hold it. -/
def Instant.render (t : Instant) : String := t.renderWith "Z"

/-- The text of an instant with a numeric offset, as messages hold it. -/
def Instant.renderOffset (t : Instant) : String := t.renderWith "+00:00"

end Telematics
