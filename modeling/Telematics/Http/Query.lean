import Telematics.Http.Form
import Telematics.Number.Reader
import Telematics.Number.Word
import Telematics.Request

/-!
# Queries for segments

The fields of a query are read from the left, and the first bad one is reported: a name that was
given before, or a value that is not of its type. Names that mean nothing are passed over. Only then
are the fields that must be there missed, in a fixed order.
-/

set_option autoImplicit false

namespace Telematics.Http

/-- Why a query cannot be read. -/
inductive QueryFault where
  /-- A field is given twice. -/
  | duplicate (name : String)
  /-- A field that must be there is not. -/
  | missing (name : String)
  /-- A value is no whole number of its range. -/
  | whole (fault : Number.WholeFault)
  /-- A value is no floating-point number. -/
  | float (fault : Number.FloatFault)
  /-- A value is no instant. -/
  | time (fault : TimeFault)
deriving DecidableEq

/-- The words of a fault. -/
def QueryFault.message : QueryFault → String
  | duplicate name => "duplicate field `" ++ name ++ "`"
  | missing name => "missing field `" ++ name ++ "`"
  | whole fault => fault.message
  | float fault => fault.message
  | time fault => fault.message

/-- The fields that were given so far. -/
structure Given where
  token : Option TokenId
  start : Option Instant
  stop : Option Instant
  mechanism : Option String
  tuning : Tuning

namespace Given

/-- Nothing was given. -/
def nothing : Given := ⟨none, none, none, none, Tuning.default⟩

/-- The value of a field that may be given once. -/
def once {α : Type} (field : Field) (before : Option α) (value : Except QueryFault α) :
    Except QueryFault (Option α) :=
  match before with
  | some _ => .error (.duplicate field.name)
  | none => value.map some

/-- A whole number of 64 bits with a sign. -/
def int64 (s : String) : Except QueryFault Int := (Number.readInt64 s).mapError .whole

/-- A whole number of 64 bits without a sign. -/
def nat64 (s : String) : Except QueryFault Nat :=
  (Number.readNat Number.mostNat64 s).mapError .whole

/-- A floating-point number. -/
def number (s : String) : Except QueryFault Float := (Number.readFloat s).mapError .float

/-- An instant. -/
def instant (s : String) : Except QueryFault Instant := (Instant.parse s).mapError .time

/-- The number of a vehicle. -/
def vehicle (s : String) : Except QueryFault TokenId :=
  ((Number.readNat Number.mostNat32 s).mapError .whole).map UInt32.ofNat

/-- One more field. -/
def add (g : Given) (f : Field) : Except QueryFault Given :=
  match f.name with
  | "tokenId" => do pure { g with token := ← once f g.token (vehicle f.value) }
  | "from" => do pure { g with start := ← once f g.start (instant f.value) }
  | "to" => do pure { g with stop := ← once f g.stop (instant f.value) }
  | "mechanism" => do pure { g with mechanism := ← once f g.mechanism (pure f.value) }
  | "minIdleSeconds" => do
    let v ← once f g.tuning.minIdleSeconds (int64 f.value)
    pure { g with tuning := { g.tuning with minIdleSeconds := v } }
  | "minSegmentDurationSeconds" => do
    let v ← once f g.tuning.minSegmentSeconds (int64 f.value)
    pure { g with tuning := { g.tuning with minSegmentSeconds := v } }
  | "signalCountThreshold" => do
    let v ← once f g.tuning.signalCountThreshold (nat64 f.value)
    pure { g with tuning := { g.tuning with signalCountThreshold := v } }
  | "maxGapSeconds" => do
    let v ← once f g.tuning.maxGapSeconds (int64 f.value)
    pure { g with tuning := { g.tuning with maxGapSeconds := v } }
  | "maxIdleRpm" => do
    let v ← once f g.tuning.maxIdleRpm (number f.value)
    pure { g with tuning := { g.tuning with maxIdleRpm := v } }
  | "minIncreasePercent" => do
    let v ← once f g.tuning.minIncreasePercent (number f.value)
    pure { g with tuning := { g.tuning with minIncreasePercent := v } }
  | _ => pure g

/-- All fields, from the left. -/
def addAll (g : Given) : List Field → Except QueryFault Given
  | [] => .ok g
  | f :: fields => do
    let g ← g.add f
    g.addAll fields

end Given

/-- A query that could be read. -/
structure SegmentQuery where
  mechanism : String
  request : Request
deriving DecidableEq

/-- A field that must be there. -/
def required {α : Type} (name : String) (value : Option α) : Except QueryFault α :=
  match value with
  | some a => .ok a
  | none => .error (.missing name)

/-- The query that a text writes. -/
def SegmentQuery.parse (query : String) : Except QueryFault SegmentQuery := do
  let given ← Given.nothing.addAll (fieldsOf query)
  let token ← required "tokenId" given.token
  let start ← required "from" given.start
  let stop ← required "to" given.stop
  let mechanism ← required "mechanism" given.mechanism
  pure ⟨mechanism, ⟨token, ⟨start, stop⟩, given.tuning⟩⟩

end Telematics.Http
