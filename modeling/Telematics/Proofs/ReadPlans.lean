import Telematics.Detection

/-!
# Reads of a plan

What can be said of the reads that a run makes without knowing what the plan computes. `Plan.Asks`
is a property of every read that a plan can come to make, so that a run makes no other read
(`Plan.Asks.of_mem_reads`) and sees no more of a source than its replies to them
(`Plan.Asks.run_eq`). A run goes on only with answers: every read but its last one was answered
(`Plan.answered_of_mem_dropLast`), it fails exactly with a read that fails
(`Plan.outcome_eq_failure_iff`), and it waits for ever exactly for a read without a reply
(`Plan.outcome_eq_never_iff`).

Every mechanism starts with one read, and all but one of them are done with its answer
(`Mechanism.exists_plan_eq`); only recharges may need a second read, which is that of the odometer.
-/

set_option autoImplicit false

namespace Telematics

namespace Plan

variable {β : Type} {plan : Plan β} {source other : Source} {p : Read → Prop}

/-! ## One read of a run -/

/-- After an answer the run goes on as the plan for it does. -/
theorem run_of_answer {read : Read} {next : read.Answer → Plan β} {a : read.Answer}
    (h : source.reply read = .answer a) :
    (ask read next).run source =
      ⟨read :: ((next a).run source).reads, ((next a).run source).outcome⟩ := by
  rw [run, h]

/-- After a failure it is over. -/
theorem run_of_failure {read : Read} {next : read.Answer → Plan β} {e : SourceFailure}
    (h : source.reply read = .failure e) :
    (ask read next).run source = ⟨[read], .failure ⟨read, e⟩⟩ := by
  rw [run, h]

/-- Without a reply it never ends. -/
theorem run_of_never {read : Read} {next : read.Answer → Plan β}
    (h : source.reply read = .never) : (ask read next).run source = ⟨[read], .never⟩ := by
  rw [run, h]

/-! ## Reads that a plan asks for -/

/-- Whatever is answered, the plan makes only reads with a property. -/
def Asks (p : Read → Prop) : Plan β → Prop
  | done _ => True
  | ask read next => p read ∧ ∀ a, (next a).Asks p
  | stuck => True

/-- A run makes only reads that its plan asks for. -/
theorem Asks.of_mem_reads (h : plan.Asks p) :
    ∀ read ∈ (plan.run source).reads, p read := by
  induction plan with
  | done result => exact fun read hread => absurd hread List.not_mem_nil
  | stuck => exact fun read hread => absurd hread List.not_mem_nil
  | ask first next ih =>
      obtain ⟨hfirst, hnext⟩ := h
      intro read hread
      rw [run] at hread
      split at hread
      · rename_i a _
        rcases List.mem_cons.1 hread with rfl | hread
        · exact hfirst
        · exact ih a (hnext a) read hread
      · exact List.mem_singleton.1 hread ▸ hfirst
      · exact List.mem_singleton.1 hread ▸ hfirst

/-- Two sources that reply alike to the reads of a plan let it run alike. -/
theorem Asks.run_eq (h : plan.Asks p)
    (hreply : ∀ read, p read → source.reply read = other.reply read) :
    plan.run source = plan.run other := by
  induction plan with
  | done result => rfl
  | stuck => rfl
  | ask first next ih =>
      obtain ⟨hfirst, hnext⟩ := h
      rw [run, run, hreply first hfirst]
      cases other.reply first with
      | answer a => simp only [ih a (hnext a)]
      | failure e => rfl
      | never => rfl

/-! ## Answered and failing reads -/

/-- A run goes on only after an answer, so that every read but the last was answered. -/
theorem answered_of_mem_dropLast :
    ∀ read ∈ (plan.run source).reads.dropLast, ∃ a, source.reply read = .answer a := by
  induction plan with
  | done result => exact fun read hread => absurd hread List.not_mem_nil
  | stuck => exact fun read hread => absurd hread List.not_mem_nil
  | ask first next ih =>
      intro read hread
      rw [run] at hread
      split at hread
      · rename_i a hanswer
        cases hlater : ((next a).run source).reads with
        | nil => simp [hlater] at hread
        | cons second later =>
            simp only [hlater, List.dropLast_cons_cons, List.mem_cons] at hread
            rcases hread with rfl | hread
            · exact ⟨a, hanswer⟩
            · apply ih a
              rwa [hlater]
      · exact absurd hread List.not_mem_nil
      · exact absurd hread List.not_mem_nil

/-- A run fails exactly with a read that it made and that fails. -/
theorem outcome_eq_failure_iff {f : ReadFailure} :
    (plan.run source).outcome = .failure f ↔
      f.read ∈ (plan.run source).reads ∧ source.reply f.read = .failure f.failure := by
  obtain ⟨read, failure⟩ := f
  induction plan with
  | done result => simp [run]
  | stuck => simp [run]
  | ask first next ih =>
      rw [run]
      split
      · rename_i a hanswer
        rw [ih a, List.mem_cons, or_and_right]
        -- the first read was answered, so the failing one is a later one
        refine ⟨Or.inr, fun h => h.resolve_left ?_⟩
        rintro ⟨rfl, hfailure⟩
        rw [hanswer] at hfailure
        exact absurd hfailure (by simp)
      · rename_i e hfailure
        rw [Outcome.failure.injEq, ReadFailure.mk.injEq, List.mem_singleton]
        constructor
        · rintro ⟨rfl, rfl⟩
          exact ⟨rfl, hfailure⟩
        · rintro ⟨rfl, h⟩
          rw [hfailure, Reply.failure.injEq] at h
          exact ⟨rfl, h⟩
      · rename_i hnever
        simp only [List.mem_singleton]
        refine ⟨fun h => absurd h (by simp), ?_⟩
        rintro ⟨rfl, h⟩
        rw [hnever] at h
        exact absurd h (by simp)

/-- A run that ends with a result has an answer to every read. -/
theorem answered_of_outcome_eq_answer {result : β}
    (h : (plan.run source).outcome = .answer result) :
    ∀ read ∈ (plan.run source).reads, ∃ a, source.reply read = .answer a := by
  induction plan with
  | done result => exact fun read hread => absurd hread List.not_mem_nil
  | stuck => exact fun read hread => absurd hread List.not_mem_nil
  | ask first next ih =>
      rw [run] at h ⊢
      split at h
      · rename_i a hanswer
        exact List.forall_mem_cons.2 ⟨⟨a, hanswer⟩, ih a h⟩
      · exact absurd h (by simp)
      · exact absurd h (by simp)

/-- A run waits for ever exactly for a reply to a read that it made. -/
theorem outcome_eq_never_iff :
    (plan.run source).outcome = .never ↔
      ∃ read ∈ (plan.run source).reads, source.reply read = .never := by
  induction plan with
  | done result => simp [run]
  | stuck => simp [run]
  | ask first next ih =>
      cases hreply : source.reply first with
      | answer a => simp [run_of_answer hreply, ih a, hreply]
      | failure e => simp [run_of_failure hreply, hreply]
      | never => simp [run_of_never hreply, hreply]

/-- A run that computes for ever has an answer to every read. -/
theorem answered_of_outcome_eq_stuck (h : (plan.run source).outcome = .stuck) :
    ∀ read ∈ (plan.run source).reads, ∃ a, source.reply read = .answer a := by
  induction plan with
  | done result => exact absurd h (by simp [run])
  | stuck => exact fun read hread => absurd hread List.not_mem_nil
  | ask first next ih =>
      cases hreply : source.reply first with
      | answer a =>
          rw [run_of_answer hreply] at h ⊢
          exact List.forall_mem_cons.2 ⟨⟨a, hreply⟩, ih a h⟩
      | failure e =>
          rw [run_of_failure hreply] at h
          exact absurd h (by simp)
      | never =>
          rw [run_of_never hreply] at h
          exact absurd h (by simp)

end Plan

/-! ## Reads of the mechanisms -/

/-- The read of the state of charge. -/
def Recharge.chargeRead (r : Request) : Read := .levels r.token Signal.stateOfCharge (readSpan r)

/-- The read of the odometer. -/
def Recharge.odometerRead (r : Request) : Read := .levels r.token Signal.odometer (readSpan r)

/-- With too few samples of the state of charge nothing more is read. -/
theorem Recharge.planWith_of_lt (r : Request) {charge : List (Sample Float)}
    (h : charge.length < leastSamples) : planWith r charge = .done [] := if_pos h

/-- With enough samples the odometer is read, and that is all. -/
theorem Recharge.planWith_of_le (r : Request) {charge : List (Sample Float)}
    (h : leastSamples ≤ charge.length) :
    planWith r charge = .ask (odometerRead r) fun odometer =>
      (candidates charge odometer (r.tuning.minIncrease defaultIncrease)
        (r.tuning.minSegment defaultMinSegment)).elim .stuck fun found =>
          .done (segmentsOf r.asked odometer (r.tuning.minSegment defaultMinSegment) found) := by
  rw [planWith, if_neg (Nat.not_lt.2 h)]
  congr 1
  funext odometer
  cases hfound : candidates charge odometer (r.tuning.minIncrease defaultIncrease)
      (r.tuning.minSegment defaultMinSegment) with
  | none => simp only [hfound, Option.elim_none]
  | some found => simp only [hfound, Option.elim_some]

/-- The read that a mechanism starts with. -/
def Mechanism.firstRead (m : Mechanism) (r : Request) : Read :=
  match m with
  | .ignition => Ignition.read r
  | .frequency => .windows r.token (Arrivals.frequencyQuery r)
  | .changePoint => .windows r.token (Arrivals.changePointQuery r)
  | .idling => Idling.read r
  | .staticRpm => .windows r.token (Idling.windowQuery r)
  | .refuel => Refuel.read r
  | .recharge => Recharge.chargeRead r

/-- A read that a mechanism can make. -/
def Mechanism.Makes (m : Mechanism) (r : Request) (read : Read) : Prop :=
  read = m.firstRead r ∨ m = .recharge ∧ read = Recharge.odometerRead r

/-- A mechanism other than that of recharges makes one read and is done with its answer. -/
theorem Mechanism.exists_plan_eq {m : Mechanism} (h : m ≠ .recharge) (now : Instant) (r : Request) :
    ∃ found : (m.firstRead r).Answer → List Segment,
      m.plan now r = .ask (m.firstRead r) fun a => .done (found a) := by
  cases m with
  | ignition => exact ⟨_, rfl⟩
  | frequency => exact ⟨_, rfl⟩
  | changePoint => exact ⟨_, rfl⟩
  | idling => exact ⟨_, rfl⟩
  | staticRpm => exact ⟨_, rfl⟩
  | refuel => exact ⟨_, rfl⟩
  | recharge => exact absurd rfl h

/-- A mechanism makes no other reads than those. -/
theorem Mechanism.asks_makes (m : Mechanism) (now : Instant) (r : Request) :
    (m.plan now r).Asks (m.Makes r) := by
  by_cases h : m = .recharge
  · subst h
    refine ⟨Or.inl rfl, fun charge => ?_⟩
    show (Recharge.planWith r charge).Asks _
    rcases Nat.lt_or_ge (List.length charge) Recharge.leastSamples with hfew | henough
    · rw [Recharge.planWith_of_lt r hfew]
      exact trivial
    · rw [Recharge.planWith_of_le r henough]
      refine ⟨Or.inr ⟨rfl, rfl⟩, fun odometer => ?_⟩
      dsimp only
      cases Recharge.candidates charge odometer (r.tuning.minIncrease Recharge.defaultIncrease)
          (r.tuning.minSegment Recharge.defaultMinSegment) with
      | none => exact trivial
      | some found => exact trivial
  · obtain ⟨found, hplan⟩ := exists_plan_eq h now r
    rw [hplan]
    exact ⟨Or.inl rfl, fun a => trivial⟩

/-- All reads of a mechanism ask for the vehicle of the request. -/
theorem Mechanism.Makes.token {m : Mechanism} {r : Request} {read : Read} (h : m.Makes r read) :
    read.token = r.token := by
  rcases h with rfl | ⟨-, rfl⟩
  · cases m <;> rfl
  · rfl

end Telematics
