import Telematics.Json.Decode
import Telematics.Json.Document
import Telematics.Json.Reader
import Telematics.Mechanism
import Telematics.Segment
import Telematics.Source.Log
import Telematics.Tuning

/-!
# Records as JSON

Every kind of record has a list of field names, a decoder and an encoder; both take the fields in
the order of the list. Instants are RFC 3339 text. A mechanism is its stable name, or an object with
that name for its only member, which is null. A fixture is an array of rows of a record log.
-/

set_option autoImplicit false

namespace Telematics

/-- An object with named fields. -/
def Document.record (names : List String) (values : List Document) : Document :=
  .object (names.zip values)

/-- An instant in a document. -/
def Document.instant (t : Instant) : Document := .text t.render

namespace Tuning

/-- The names of the fields of a tuning. -/
def fieldNames : List String :=
  ["minIdleSeconds", "minSegmentDurationSeconds", "signalCountThreshold", "maxGapSeconds",
    "maxIdleRpm", "minIncreasePercent"]

/-- The tuning that a JSON value stands for. -/
def ofJson? (j : Json) : Option Tuning := do
  match ← j.fields? fieldNames with
  | [minIdle, minSegment, signalCount, maxGap, maxIdleRpm, minIncrease] =>
    some
      { minIdleSeconds := ← Json.optional Json.int64? minIdle
        minSegmentSeconds := ← Json.optional Json.int64? minSegment
        signalCountThreshold := ← Json.optional Json.nat64? signalCount
        maxGapSeconds := ← Json.optional Json.int64? maxGap
        maxIdleRpm := ← Json.optional Json.float? maxIdleRpm
        minIncreasePercent := ← Json.optional Json.float? minIncrease }
  | _ => none

/-- The document of a tuning; what is left out is null. -/
def toDocument (t : Tuning) : Document :=
  .record fieldNames
    [.optional .whole t.minIdleSeconds, .optional .whole t.minSegmentSeconds,
      .optional (fun n => .whole (n : Nat)) t.signalCountThreshold,
      .optional .whole t.maxGapSeconds, .optional .number t.maxIdleRpm,
      .optional .number t.minIncreasePercent]

end Tuning

namespace Record

/-- The names of the fields of a row. -/
def fieldNames : List String := ["tokenId", "name", "timestamp", "value"]

/-- The row that a JSON value stands for. -/
def ofJson? (j : Json) : Option Record := do
  match ← j.fields? fieldNames with
  | [token, name, time, value] =>
    some
      { token := UInt32.ofNat (← Json.required Json.nat32? token)
        name := ← Json.required Json.text? name
        time := ← Json.required Json.instant? time
        value := ← Json.required Json.float? value }
  | _ => none

/-- The document of a row. -/
def toDocument (r : Record) : Document :=
  .record fieldNames [.whole r.token.toNat, .text r.name, .instant r.time, .number r.value]

end Record

namespace Segment

/-- The names of the fields of a segment. -/
def fieldNames : List String :=
  ["start", "end", "durationSeconds", "isOngoing", "startedBeforeRange"]

/-- The segment that a JSON value stands for. -/
def ofJson? (j : Json) : Option Segment := do
  match ← j.fields? fieldNames with
  | [start, stop, duration, isOngoing, startedBefore] =>
    some
      { start := ← Json.required Json.instant? start
        stop := ← Json.optional Json.instant? stop
        durationSeconds := ← Json.required Json.int32? duration
        isOngoing := ← Json.required Json.bool? isOngoing
        startedBefore := ← Json.required Json.bool? startedBefore }
  | _ => none

/-- The document of a segment. -/
def toDocument (s : Segment) : Document :=
  .record fieldNames
    [.instant s.start, .optional .instant s.stop, .whole s.durationSeconds, .bool s.isOngoing,
      .bool s.startedBefore]

end Segment

namespace Sample

/-- The names of the fields of a sample. -/
def fieldNames : List String := ["timestamp", "value"]

/-- The sample that a JSON value stands for. -/
def ofJson? (j : Json) : Option (Sample Float) := do
  match ← j.fields? fieldNames with
  | [time, value] =>
    some
      { time := ← Json.required Json.instant? time
        value := ← Json.required Json.float? value }
  | _ => none

/-- The document of a sample. -/
def toDocument (s : Sample Float) : Document :=
  .record fieldNames [.instant s.time, .number s.value]

end Sample

namespace Window

/-- The names of the fields of a window. -/
def fieldNames : List String :=
  ["windowStart", "windowEnd", "signalCount", "distinctSignalCount"]

/-- The window that a JSON value stands for. -/
def ofJson? (j : Json) : Option Window := do
  match ← j.fields? fieldNames with
  | [start, stop, signals, distinct] =>
    some
      { start := ← Json.required Json.instant? start
        stop := ← Json.required Json.instant? stop
        signalCount := ← Json.required Json.nat64? signals
        distinctCount := ← Json.required Json.nat64? distinct }
  | _ => none

/-- The document of a window. -/
def toDocument (w : Window) : Document :=
  .record fieldNames
    [.instant w.start, .instant w.stop, .whole w.signalCount, .whole w.distinctCount]

end Window

namespace StateChange

/-- The names of the fields of a change of state. -/
def fieldNames : List String := ["timestamp", "newState", "prevState"]

/-- The change that a JSON value stands for. -/
def ofJson? (j : Json) : Option StateChange := do
  match ← j.fields? fieldNames with
  | [time, newState, prevState] =>
    some
      { time := ← Json.required Json.instant? time
        newState := ← Json.required Json.float? newState
        prevState := ← Json.required Json.float? prevState }
  | _ => none

/-- The document of a change. -/
def toDocument (c : StateChange) : Document :=
  .record fieldNames [.instant c.time, .number c.newState, .number c.prevState]

end StateChange

namespace ValueBand

/-- The names of the fields of a band. -/
def fieldNames : List String := ["signal", "minExclusive", "maxInclusive"]

/-- The band that a JSON value stands for. -/
def ofJson? (j : Json) : Option ValueBand := do
  match ← j.fields? fieldNames with
  | [signal, above, upTo] =>
    some
      { signal := ← Json.required Json.text? signal
        above := ← Json.required Json.float? above
        upTo := ← Json.required Json.float? upTo }
  | _ => none

/-- The document of a band. -/
def toDocument (b : ValueBand) : Document :=
  .record fieldNames [.text b.signal, .number b.above, .number b.upTo]

end ValueBand

namespace Mechanism

/-- The mechanism that a JSON value stands for. -/
def ofJson? : Json → Option Mechanism
  | .text (some name) => ofExactName? name
  | .object [(some name, .null)] => ofExactName? name
  | _ => none

/-- The document of a mechanism. -/
def toDocument (m : Mechanism) : Document := .text m.name

end Mechanism

/-- The record log that a fixture holds; none if its text is no array of rows. -/
def Log.ofFixture? (text : String) : Option Log :=
  (Json.parse text).bind fun j => (j.list? Record.ofJson?).map Log.mk

end Telematics
