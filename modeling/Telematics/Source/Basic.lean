import Telematics.Range
import Telematics.Series

/-!
# Sources of vehicle readings

Detection sees a vehicle through three kinds of reads: the samples of one signal, the counts of
arrivals per window, and the changes of state of one signal. `Read` names a read, `Read.Answer` is
the type of its answer, and a `Source` replies to each read with an answer, a failure, or never.
-/

set_option autoImplicit false

namespace Telematics

/-- The number that stands for a vehicle. -/
abbrev TokenId := UInt32

/-- One row of a vehicle's record log: a value of a named signal. -/
structure Record where
  token : TokenId
  name : String
  /-- When the value was read. -/
  time : Instant
  value : Float

/-- How many rows arrived in one window of time. -/
structure Window where
  /-- The first instant of the window. -/
  start : Instant
  /-- The instant at which it is over. -/
  stop : Instant
  /-- The number of rows. -/
  signalCount : Nat
  /-- The number of different signals among them. -/
  distinctCount : Nat
deriving DecidableEq

/-- The range that a window covers. -/
def Window.range (w : Window) : Range := ⟨w.start, w.stop⟩

/-- One change of the state of a signal. -/
structure StateChange where
  /-- When the new state was first read. -/
  time : Instant
  /-- The state from then on. -/
  newState : Float
  /-- The state before, or `unknownState`. -/
  prevState : Float

namespace StateChange

/-- The prior state where there is no earlier reading. -/
def unknownState : Float := -1.0

/-- The signal went on. -/
def isOn (c : StateChange) : Bool := c.newState == 1.0

/-- The signal went off. -/
def isOff (c : StateChange) : Bool := c.newState == 0.0

/-- Nothing is known about the state before. -/
def prevUnknown (c : StateChange) : Bool := c.prevState == unknownState

end StateChange

/-- Keeps the windows in which all values of one signal are above one bound and not above another;
only rows of that signal count. -/
structure ValueBand where
  signal : String
  /-- All values are above it. -/
  above : Float
  /-- No value is above it. -/
  upTo : Float

/-- A question for counts per window. -/
structure WindowQuery where
  /-- Rows outside this range do not count. -/
  within : Range
  /-- The length of a window in seconds. -/
  windowSeconds : Int
  /-- Windows with fewer rows are left out. -/
  leastCount : Nat
  /-- Windows with fewer different signals are left out. -/
  leastDistinct : Option Nat
  /-- Windows with values outside the band are left out. -/
  band : Option ValueBand

/-- The question for every window that is not empty. -/
def WindowQuery.all (within : Range) (windowSeconds : Int) : WindowQuery :=
  ⟨within, windowSeconds, 1, none, none⟩

/-- Why a source could not answer. -/
inductive SourceFailure where
  /-- The store failed. -/
  | queryFailed (text : String)
  /-- The question makes no sense. -/
  | invalidQuery (text : String)
  /-- The stored records cannot be read. -/
  | fixture (text : String)
deriving DecidableEq

/-- The words of a failure. -/
def SourceFailure.message : SourceFailure → String
  | queryFailed text => "Query failed: " ++ text
  | invalidQuery text => "Invalid query: " ++ text
  | fixture text => "Fixture error: " ++ text

/-- One read of a source. -/
inductive Read where
  /-- The samples of a signal in a range, both ends included. -/
  | levels (token : TokenId) (signal : String) (within : Range)
  /-- The counts per window. -/
  | windows (token : TokenId) (query : WindowQuery)
  /-- The changes of state of a signal in a range, both ends included. -/
  | changes (token : TokenId) (signal : String) (within : Range)

namespace Read

/-- What answers a read. -/
def Answer : Read → Type
  | levels _ _ _ => List (Sample Float)
  | windows _ _ => List Window
  | changes _ _ _ => List StateChange

/-- The vehicle that a read asks about. -/
def token : Read → TokenId
  | levels t _ _ => t
  | windows t _ => t
  | changes t _ _ => t

/-- The range that a read asks about. -/
def span : Read → Range
  | levels _ _ r => r
  | windows _ q => q.within
  | changes _ _ r => r

/-- What a read asks for, in one word of a message. -/
def subject : Read → String
  | levels _ _ _ => "samples"
  | windows _ _ => "windows"
  | changes _ _ _ => "state changes"

end Read

/-- What comes back: an answer, a failure, or nothing ever. -/
inductive Reply (ε α : Type) where
  | answer (a : α)
  | failure (e : ε)
  /-- No reply at all. -/
  | never

/-- A source replies to every read. -/
structure Source where
  reply : (r : Read) → Reply SourceFailure r.Answer

end Telematics
