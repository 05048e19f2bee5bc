import Telematics.Source.Log

/-!
# Rehearsed sources

A rehearsed source plays a part written in advance over a record log: reads that fail, reads with
scripted answers, or silence. It serves to try detection against everything a source may do.
-/

set_option autoImplicit false

namespace Telematics

/-- The kinds of reads. -/
inductive ReadKind where
  | levels
  | windows
  | changes
deriving DecidableEq

/-- The kind of a read. -/
def Read.kind : Read → ReadKind
  | levels _ _ _ => .levels
  | windows _ _ => .windows
  | changes _ _ _ => .changes

/-- The signal that a read asks about, if it asks about one. -/
def Read.signal : Read → Option String
  | levels _ signal _ => some signal
  | windows _ _ => none
  | changes _ signal _ => some signal

/-- Reads that fail, and how. -/
structure FailureRule where
  /-- Only reads of this kind fail. -/
  kind : Option ReadKind
  /-- Only reads of this signal fail. -/
  signal : Option String
  failure : SourceFailure

/-- The rule applies to a read. -/
def FailureRule.applies (rule : FailureRule) (r : Read) : Bool :=
  (rule.kind.all fun k => k == r.kind) && (rule.signal.all fun s => r.signal == some s)

/-- A part written in advance. -/
structure Rehearsal where
  /-- The log behind the script. -/
  log : Log
  /-- Answers to reads of samples, by signal. -/
  levels : List (String × List (Sample Float))
  /-- The answer to every read of windows. -/
  windows : Option (List Window)
  /-- The answer to every read of changes. -/
  changes : Option (List StateChange)
  /-- Failures, which come before answers; the first rule that applies counts. -/
  failures : List FailureRule
  /-- No read is ever answered. -/
  silent : Bool

namespace Rehearsal

/-- The scripted answer to a read, if there is one. -/
def scripted (part : Rehearsal) : (r : Read) → Option r.Answer
  | .levels _ signal _ => part.levels.lookup signal
  | .windows _ _ => part.windows
  | .changes _ _ _ => part.changes

/-- The reply to a read. -/
def reply (part : Rehearsal) (r : Read) : Reply SourceFailure r.Answer :=
  if part.silent then .never
  else
    match part.failures.find? fun rule => rule.applies r with
    | some rule => .failure rule.failure
    | none =>
      match part.scripted r with
      | some a => .answer a
      | none => part.log.reply r

/-- A rehearsal as a source. -/
def source (part : Rehearsal) : Source := ⟨part.reply⟩

end Rehearsal

end Telematics
