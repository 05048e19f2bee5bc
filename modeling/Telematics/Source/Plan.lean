import Telematics.Source.Basic

/-!
# Plans of reads

A plan is what a detector means to do: it is done with a result, it asks for a read and goes on with
the answer, or it is stuck in a computation that has no end. Running a plan against a source gives
the reads that were made, in order, and how it ended; the first failing read ends it. A run that
waits for a reply can be given up by whoever waits for the run; one that is stuck cannot, since it
never hands back control.
-/

set_option autoImplicit false

namespace Telematics

/-- Reads to make, each chosen from the answers so far, and a result. -/
inductive Plan (β : Type) where
  | done (result : β)
  /-- A read, and how to go on with its answer. -/
  | ask (read : Read) (next : read.Answer → Plan β)
  /-- The computation never ends. -/
  | stuck

/-- A read that failed. -/
structure ReadFailure where
  read : Read
  failure : SourceFailure

/-- The words of a failed read. -/
def ReadFailure.message (f : ReadFailure) : String :=
  "failed to query " ++ f.read.subject ++ ": " ++ f.failure.message

/-- How a computation with reads ends, if it does. -/
inductive Outcome (ε α : Type) where
  | answer (a : α)
  | failure (e : ε)
  /-- It waits for a reply that never comes. -/
  | never
  /-- It computes for ever. -/
  | stuck

/-- What a run of a plan did and how it ended. -/
structure Run (β : Type) where
  /-- The reads that were made, in order. -/
  reads : List Read
  /-- The result, the failed read, or no end. -/
  outcome : Outcome ReadFailure β

/-- Runs a plan against a source. -/
def Plan.run {β : Type} (source : Source) : Plan β → Run β
  | done result => ⟨[], .answer result⟩
  | stuck => ⟨[], .stuck⟩
  | ask read next =>
    match source.reply read with
    | .answer a =>
      let rest := (next a).run source
      ⟨read :: rest.reads, rest.outcome⟩
    | .failure e => ⟨[read], .failure ⟨read, e⟩⟩
    | .never => ⟨[read], .never⟩

end Telematics
