import Telematics.Detection

/-!
# The detection service

A call asks for the segments of a request by one mechanism, given itself or by name. A call that is
rejected reads nothing and reports nothing; every other call that ends reports once, that it was
completed and how many segments it found, or that it failed. A call without an end reports nothing.
-/

set_option autoImplicit false

namespace Telematics

/-- Why a call has no segments. -/
inductive DetectionError where
  | rejected (why : Rejection)
  | unreadable (failure : ReadFailure)

namespace DetectionError

/-- The words of an error. -/
def message : DetectionError → String
  | rejected why => why.message
  | unreadable failure => failure.message

/-- The caller is at fault, not the source. -/
def isValidation : DetectionError → Bool
  | rejected _ => true
  | unreadable _ => false

end DetectionError

/-- What an observer hears of a call. -/
inductive Report where
  /-- The mechanism found so many segments. -/
  | completed (mechanism : Mechanism) (segments : Nat)
  /-- The mechanism could not read what it needs. -/
  | failed (mechanism : Mechanism)
deriving DecidableEq

/-- What a call did and how it ended. -/
structure Call where
  /-- The reads that were made, in order. -/
  reads : List Read
  reports : List Report
  /-- The segments, an error, or no end. -/
  outcome : Outcome DetectionError (List Segment)

/-- A call that is not served. -/
def Call.rejected (why : Rejection) : Call := ⟨[], [], .failure (.rejected why)⟩

/-- The call that a run of a mechanism makes. -/
def Call.ofRun (m : Mechanism) (run : Run (List Segment)) : Call :=
  match run.outcome with
  | .answer segments => ⟨run.reads, [.completed m segments.length], .answer segments⟩
  | .failure f => ⟨run.reads, [.failed m], .failure (.unreadable f)⟩
  | .never => ⟨run.reads, [], .never⟩
  | .stuck => ⟨run.reads, [], .stuck⟩

namespace Call

variable {m : Mechanism} {run : Run (List Segment)}

/-- A call reads what its run reads. -/
theorem reads_ofRun : (ofRun m run).reads = run.reads := by
  rw [ofRun]
  split <;> rfl

/-- A call has the segments of its run. -/
theorem outcome_ofRun_eq_answer_iff {segments : List Segment} :
    (ofRun m run).outcome = .answer segments ↔ run.outcome = .answer segments := by
  rw [ofRun]
  split <;> simp [*]

/-- A call fails with the read with which its run fails. -/
theorem outcome_ofRun_eq_failure_iff {e : DetectionError} :
    (ofRun m run).outcome = .failure e ↔ ∃ f, run.outcome = .failure f ∧ e = .unreadable f := by
  rw [ofRun]
  split <;> simp [*, eq_comm]

/-- A call waits for ever with its run. -/
theorem outcome_ofRun_eq_never_iff : (ofRun m run).outcome = .never ↔ run.outcome = .never := by
  rw [ofRun]
  split <;> simp [*]

/-- A call computes for ever with its run. -/
theorem outcome_ofRun_eq_stuck_iff : (ofRun m run).outcome = .stuck ↔ run.outcome = .stuck := by
  rw [ofRun]
  split <;> simp [*]

end Call

/-- A detection service over a source; the present stands still during a call. -/
structure Service where
  /-- Where readings come from. -/
  source : Source
  /-- The present. -/
  now : Instant

namespace Service

/-- The segments of a request by a mechanism. -/
def getSegments (s : Service) (m : Mechanism) (r : Request) : Call :=
  match r.rejection s.now with
  | some why => Call.rejected why
  | none => Call.ofRun m (m.detect s.source s.now r)

/-- The segments of a request by the mechanism of a name. The name is looked at first. -/
def getSegmentsByName (s : Service) (name : String) (r : Request) : Call :=
  match Mechanism.ofName? name with
  | some m => s.getSegments m r
  | none => Call.rejected (.unknownMechanism name)

/-- A call to be made. -/
inductive Order where
  | direct (mechanism : Mechanism) (request : Request)
  | byName (name : String) (request : Request)

/-- Makes a call. -/
def answer (s : Service) : Order → Call
  | .direct m r => s.getSegments m r
  | .byName name r => s.getSegmentsByName name r

/-- All that an observer hears of a sequence of calls. -/
def ledger (s : Service) (orders : List Order) : List Report :=
  (orders.map s.answer).flatMap Call.reports

end Service

end Telematics
