import Mathlib.Data.List.Nodup
import Telematics.Proofs.DetectedSegments
import Telematics.Proofs.ReadPlans
import Telematics.Proofs.WindowPartition
import Telematics.Service

/-!
# Vehicles are isolated

A read looks at the rows of one vehicle, and often at those of one signal only; `Read.looksAt` says
at which. What a log replies to it depends on these rows alone, and not on the order in which they
arrived (`Log.reply_eq`): samples are sorted by time, windows have the counts and bounds of their
rows, whatever the values are, and changes of state follow the sorted samples.

Two logs are `Alike` for a vehicle and some signals when they have the same rows of these, no two of
them of one signal and one time. Then a mechanism that looks at no other rows finds the same in both
(`Service.isolated`).
-/

set_option autoImplicit false

namespace Telematics

/-- A read looks at the rows with a name. -/
def Read.looksAt (name : String) : Read → Bool
  | .levels _ signal _ => name == signal
  | .windows _ query => query.band.all fun band => name == band.signal
  | .changes _ signal _ => name == signal

/-- A mechanism looks at the rows with a name. -/
def Mechanism.looksAt (m : Mechanism) (name : String) : Bool :=
  match m with
  | .ignition => name == Signal.ignition
  | .frequency | .changePoint => true
  | .idling | .staticRpm => name == Signal.engineSpeed
  | .refuel => name == Signal.fuelLevel
  | .recharge => name == Signal.stateOfCharge || name == Signal.odometer

/-- The reads of a mechanism look at no other rows than it does. -/
theorem Mechanism.Makes.looksAt {m : Mechanism} {r : Request} {read : Read} (h : m.Makes r read)
    {name : String} (hname : read.looksAt name = true) : m.looksAt name = true := by
  rcases h with rfl | ⟨rfl, rfl⟩
  · cases m with
    | ignition => exact hname
    | frequency => rfl
    | changePoint => rfl
    | idling => exact hname
    | staticRpm => exact hname
    | refuel => exact hname
    | recharge => exact Bool.or_eq_true_iff.2 (Or.inl hname)
  · exact Bool.or_eq_true_iff.2 (Or.inr hname)

namespace Log

variable {log other : Log} {token : TokenId} {query : WindowQuery}

/-- The rows of a vehicle with names of some kind, in the order of their arrival. -/
def rowsOf (log : Log) (token : TokenId) (named : String → Bool) : List Record :=
  log.records.filter fun x => x.token == token && named x.name

/-- Two logs have the same rows of a vehicle with names of some kind, in any order, and no two of
these rows are of one signal and one time. -/
structure Alike (log other : Log) (token : TokenId) (named : String → Bool) : Prop where
  perm : (log.rowsOf token named).Perm (other.rowsOf token named)
  distinct : (log.rowsOf token named).Pairwise fun x y => ¬ (x.name = y.name ∧ x.time = y.time)

/-- Fewer names have fewer rows. -/
theorem rowsOf_eq_filter {named fewer : String → Bool}
    (h : ∀ name, fewer name = true → named name = true) :
    log.rowsOf token fewer = (log.rowsOf token named).filter fun x => fewer x.name := by
  rw [rowsOf, rowsOf, List.filter_filter]
  apply List.filter_congr
  intro x _
  cases hfewer : fewer x.name with
  | false => simp
  | true => simp [h x.name hfewer]

/-- Logs that are alike for some names are so for fewer. -/
theorem Alike.of_fewer {named fewer : String → Bool} (h : log.Alike other token named)
    (hfewer : ∀ name, fewer name = true → named name = true) : log.Alike other token fewer := by
  constructor
  · rw [rowsOf_eq_filter hfewer, rowsOf_eq_filter hfewer]
    exact h.perm.filter _
  · rw [rowsOf_eq_filter hfewer]
    exact h.distinct.filter _

/-! ## Samples and changes -/

/-- Sorted by time, the samples of a signal do not show in which order they arrived. -/
theorem rows_eq {signal : String} (h : log.Alike other token fun name => name == signal) :
    log.rows token signal = other.rows token signal := by
  have hperm : (log.rows token signal).Perm (other.rows token signal) :=
    (List.mergeSort_perm _ _).trans
      ((h.perm.map fun x => (⟨x.time, x.value⟩ : Sample Float)).trans
        (List.mergeSort_perm _ _).symm)
  -- rows of one signal have different times
  have htimes : ((log.rows token signal).map Sample.time).Nodup := by
    have hnodup : ((log.rowsOf token fun name => name == signal).map Record.time).Nodup := by
      rw [List.nodup_iff_pairwise_ne, List.pairwise_map]
      apply h.distinct.imp_of_mem
      intro x y hx hy hdistinct htime
      simp only [rowsOf, List.mem_filter, Bool.and_eq_true, beq_iff_eq] at hx hy
      exact hdistinct ⟨hx.2.2.trans hy.2.2.symm, htime⟩
    refine ((List.mergeSort_perm _ _).map Sample.time).nodup_iff.2 ?_
    rw [List.map_map]
    exact hnodup
  apply List.Perm.eq_of_pairwise _ (log.ascending_rows token signal)
    (other.ascending_rows token signal) hperm
  intro a b ha hb hab hba
  exact List.inj_on_of_nodup_map htimes ha (hperm.mem_iff.2 hb) (Instant.le_antisymm hab hba)

/-! ## Windows -/

/-- The rows that count for a question are among those that the read looks at. -/
theorem filter_counts_eq :
    log.records.filter (counts token query) =
      (log.rowsOf token fun name => (Read.windows token query).looksAt name).filter fun x =>
        decide (query.within.start ≤ x.time) && decide (x.time < query.within.stop) := by
  rw [rowsOf, List.filter_filter]
  apply List.filter_congr
  intro x _
  rw [counts, Read.looksAt]
  cases query.band with
  | none => simp [Bool.and_comm, Bool.and_assoc]
  | some band => simp [Bool.and_comm, Bool.and_assoc]

/-- Windows do not show in which order the rows arrived. -/
theorem windows_eq
    (h : (log.rowsOf token fun name => (Read.windows token query).looksAt name).Perm
      (other.rowsOf token fun name => (Read.windows token query).looksAt name)) :
    log.windows token query = other.windows token query := by
  have hbucket : ∀ b, (log.bucketRows token query b).Perm (other.bucketRows token query b) := by
    intro b
    rw [bucketRows, bucketRows, bucketed, bucketed, filter_counts_eq, filter_counts_eq]
    exact ((List.mergeSort_perm _ _).trans
      ((h.filter _).trans (List.mergeSort_perm _ _).symm)).filter _
  have hmem : ∀ w, w ∈ log.windows token query ↔ w ∈ other.windows token query := by
    intro w
    rw [mem_windows_iff, mem_windows_iff]
    apply exists_congr
    intro b
    rw [qualifies_of_perm (hbucket b), window?_of_perm (hbucket b), ← List.length_pos_iff,
      ← List.length_pos_iff, (hbucket b).length_eq]
  exact eq_of_mem_iff (log.pairwise_windows token query) (other.pairwise_windows token query) hmem

/-! ## Replies -/

/-- The reply to a read depends only on the rows that it looks at, and not on their order. -/
theorem reply_eq {read : Read}
    (h : log.Alike other read.token fun name => read.looksAt name) :
    log.reply read = other.reply read := by
  cases read with
  | levels token signal within =>
      have hrows : log.rows token signal = other.rows token signal := rows_eq h
      have hlevels : log.levels token signal within = other.levels token signal within := by
        rw [levels, levels, hrows]
      exact congrArg Reply.answer hlevels
  | changes token signal within =>
      have hrows : log.rows token signal = other.rows token signal := rows_eq h
      have hchanges : log.changes token signal within = other.changes token signal within := by
        rw [changes, changes, hrows]
      exact congrArg Reply.answer hchanges
  | windows token query =>
      have hfound : log.windows token query = other.windows token query := windows_eq h.perm
      have hwindows : log.windows? token query = other.windows? token query := by
        rw [windows?, windows?, hfound]
      rw [reply, reply, hwindows]

end Log

/-- A mechanism finds the same in two logs that are alike for the rows that it looks at. -/
theorem Mechanism.detect_eq {log other : Log} {m : Mechanism} {r : Request}
    (h : log.Alike other r.token m.looksAt) (now : Instant) :
    m.detect log.source now r = m.detect other.source now r := by
  apply (m.asks_makes now r).run_eq
  intro read hread
  apply Log.reply_eq
  rw [hread.token]
  exact h.of_fewer fun name hname => hread.looksAt hname

namespace Service

/-- What is found for a vehicle depends on its own rows only, and not on the order in which they
arrived; where a mechanism reads single signals, it depends on the rows of these signals only. -/
theorem isolated (log other : Log) (token : TokenId) :
    (log.Alike other token (fun _ => true) →
      ∀ (m : Mechanism) (now : Instant) (r : Request), r.token = token →
        m.detect log.source now r = m.detect other.source now r ∧
        getSegments ⟨log.source, now⟩ m r = getSegments ⟨other.source, now⟩ m r) ∧
    ∀ m : Mechanism, m ≠ .frequency → m ≠ .changePoint → log.Alike other token m.looksAt →
      ∀ (now : Instant) (r : Request), r.token = token →
        m.detect log.source now r = m.detect other.source now r ∧
        getSegments ⟨log.source, now⟩ m r = getSegments ⟨other.source, now⟩ m r := by
  have hsame : ∀ m : Mechanism, log.Alike other token m.looksAt →
      ∀ (now : Instant) (r : Request), r.token = token →
        m.detect log.source now r = m.detect other.source now r ∧
        getSegments ⟨log.source, now⟩ m r = getSegments ⟨other.source, now⟩ m r := by
    rintro m halike now r rfl
    have hdetect := Mechanism.detect_eq halike now
    refine ⟨hdetect, ?_⟩
    rw [getSegments, getSegments]
    simp only [hdetect]
  exact ⟨fun halike m => hsame m (halike.of_fewer fun _ _ => rfl), fun m _ _ => hsame m⟩

/-- The rows of two rides, the last ones first, after one of another vehicle. -/
def lateRideLog : Log :=
  ⟨[⟨7, Signal.ignition, .ofSeconds 60, 0.0⟩, ⟨42, Signal.ignition, .ofSeconds 660, 0.0⟩,
    ⟨42, Signal.ignition, .ofSeconds 1800, 1.0⟩, ⟨42, Signal.ignition, .ofSeconds 0, 0.0⟩,
    ⟨42, Signal.ignition, .ofSeconds 60, 1.0⟩]⟩

/-- The rows of the rides with speeds that came meanwhile. -/
def fastRideLog : Log :=
  ⟨lateRideLog.records ++ [⟨42, "speed", .ofSeconds 60, 30.0⟩, ⟨42, "speed", .ofSeconds 60, 50.0⟩]⟩

theorem isolated_rideLogs :
    Mechanism.rideLog.Alike lateRideLog 42 (fun _ => true) ∧
      Mechanism.rideLog.Alike fastRideLog 42 Mechanism.ignition.looksAt ∧
      getSegments ⟨lateRideLog.source, .ofSeconds 7200⟩ .frequency Ignition.twoHours =
        getSegments ⟨Mechanism.rideLog.source, .ofSeconds 7200⟩ .frequency Ignition.twoHours ∧
      (getSegments ⟨fastRideLog.source, .ofSeconds 7200⟩ .ignition Ignition.twoHours).outcome =
        .answer Mechanism.rides := by
  have hperm : (lateRideLog.records.drop 3 ++ (lateRideLog.records.take 3).drop 1).Perm
      ((lateRideLog.records.take 3).drop 1 ++ lateRideLog.records.drop 3) :=
    List.perm_append_comm
  have hlate : Mechanism.rideLog.Alike lateRideLog 42 fun _ => true := ⟨hperm, by decide⟩
  have hfast : Mechanism.rideLog.Alike fastRideLog 42 Mechanism.ignition.looksAt :=
    ⟨hperm, by decide⟩
  refine ⟨hlate, hfast, ?_, ?_⟩
  · exact ((isolated Mechanism.rideLog lateRideLog 42).1 hlate .frequency (.ofSeconds 7200)
      Ignition.twoHours rfl).2.symm
  · rw [← ((isolated Mechanism.rideLog fastRideLog 42).2 .ignition (by decide) (by decide) hfast
      (.ofSeconds 7200) Ignition.twoHours rfl).2]
    exact Mechanism.outcome_rideLog

end Service

end Telematics
