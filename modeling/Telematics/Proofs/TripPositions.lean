import Mathlib.Data.List.Forall2
import Telematics.Detection.Ignition

/-!
# Trips of the ignition by position

`Ignition.debounce` drops blips from the back of a list of changes, and `Ignition.pair` walks over
what is left with the open trip in hand. Here trips are found by position, with neither pass: an off
is kept when the next on is late enough (`KeptOff`), a trip starts at an opening on (`StartsTrip`)
and is over at the first kept off after it (`EndsFrom`). `exists_found_pair` says that the two
passes find exactly these trips, in order.

The walk may begin while a trip is open. What starts a trip then depends on that, so `StartsFrom`
carries it along; one change moves it on (`startsFrom_succ_iff`).
-/

set_option autoImplicit false

namespace Telematics

namespace StateChange

/-- The state that means off, as its sign and its size. -/
theorem unpack_off : (0.0 : Float).toModel.unpack = .zero .positive := rfl

/-- Zero of either sign is not the state that means on. -/
theorem zero_beq_on (sign : Float.Model.UnpackedFloat.Sign) :
    (Float.Model.UnpackedFloat.zero sign).beq (1.0 : Float).toModel.unpack = false := by
  cases sign with
  | positive => decide +kernel
  | negative => decide +kernel

/-- A state is not on and off at once. -/
theorem isOff_eq_false_of_isOn {c : StateChange} (h : c.isOn = true) : c.isOff = false := by
  have hon : c.newState.toModel.unpack.beq (1.0 : Float).toModel.unpack = true := h
  show c.newState.toModel.unpack.beq (0.0 : Float).toModel.unpack = false
  rw [unpack_off]
  -- only zeros equal zero, and no zero equals one
  cases hstate : c.newState.toModel.unpack with
  | infinity sign => cases sign <;> rfl
  | notANumber => rfl
  | zero sign =>
      rw [hstate, zero_beq_on] at hon
      exact Bool.noConfusion hon
  | finite sign mantissa exponent => cases sign <;> rfl

end StateChange

namespace Ignition

variable {minIdle : Span} {c : StateChange} {later changes : List StateChange} {i : Nat}

/-- The change at a position goes on. -/
def OnAt (changes : List StateChange) (i : Nat) (c : StateChange) : Prop :=
  changes[i]? = some c ∧ c.isOn = true

/-- The change at a position is the next on after an earlier position. -/
def NextOnAt (changes : List StateChange) (i j : Nat) (next : StateChange) : Prop :=
  i < j ∧ OnAt changes j next ∧ ∀ k, i < k → k < j → ∀ d, ¬ OnAt changes k d

/-- The change at a position goes off, and the next on after it, if any, is not before `minIdle` is
over. -/
def KeptOff (minIdle : Span) (changes : List StateChange) (i : Nat) : Prop :=
  ∃ c, changes[i]? = some c ∧ c.isOff = true ∧
    ∀ j next, NextOnAt changes i j next → minIdle ≤ next.time - c.time

/-- The change at a position goes on from a state that is known and is not on. -/
def OpensAt (changes : List StateChange) (i : Nat) : Prop :=
  ∃ c, OnAt changes i c ∧ c.prevUnknown = false ∧ (c.prevState == 1.0) = false

/-- An opening on starts a trip when a kept off lies between every earlier opening on and it. -/
def StartsTrip (minIdle : Span) (changes : List StateChange) (i : Nat) : Prop :=
  OpensAt changes i ∧
    ∀ k, k < i → OpensAt changes k → ∃ j, k < j ∧ j < i ∧ KeptOff minIdle changes j

/-- The first kept off from a position on is at `stop`, or there is none. -/
def EndsFrom (minIdle : Span) (changes : List StateChange) (i : Nat) : Option Instant → Prop
  | some stop => ∃ j c, i ≤ j ∧ KeptOff minIdle changes j ∧
      (∀ k, i ≤ k → k < j → ¬ KeptOff minIdle changes k) ∧ changes[j]? = some c ∧ c.time = stop
  | none => ∀ j, i ≤ j → ¬ KeptOff minIdle changes j

/-- A trip starts with the change at a position and is over at the first kept off after it. -/
def IsTrip (minIdle : Span) (changes : List StateChange) (i : Nat) (trip : Trip) : Prop :=
  (∃ c, changes[i]? = some c ∧ trip.start = c.time) ∧ EndsFrom minIdle changes (i + 1) trip.stop

/-! ## One change further -/

/-- The next on after a later position does not depend on the first change. -/
theorem nextOnAt_succ_iff {j : Nat} {next : StateChange} :
    NextOnAt (c :: later) (i + 1) (j + 1) next ↔ NextOnAt later i j next := by
  constructor
  · rintro ⟨hij, hnext, hbetween⟩
    refine ⟨by omega, hnext, fun k hik hkj d hd => ?_⟩
    exact hbetween (k + 1) (by omega) (by omega) d hd
  · rintro ⟨hij, hnext, hbetween⟩
    refine ⟨by omega, hnext, fun k hik hkj d hd => ?_⟩
    obtain ⟨k, rfl⟩ := Nat.exists_eq_add_one_of_ne_zero (show k ≠ 0 by omega)
    exact hbetween k (by omega) (by omega) d hd

/-- Whether an off is kept does not depend on the changes before it. -/
@[simp] theorem keptOff_succ_iff :
    KeptOff minIdle (c :: later) (i + 1) ↔ KeptOff minIdle later i := by
  -- the next on after position `i + 1` is that after position `i` of the later changes
  have hnext : ∀ d : StateChange,
      (∀ j next, NextOnAt (c :: later) (i + 1) j next → minIdle ≤ next.time - d.time) ↔
        ∀ j next, NextOnAt later i j next → minIdle ≤ next.time - d.time := by
    intro d
    constructor
    · intro h j next hj
      exact h (j + 1) next (nextOnAt_succ_iff.2 hj)
    · intro h j next hj
      obtain ⟨j, rfl⟩ := Nat.exists_eq_add_one_of_ne_zero (Nat.ne_zero_of_lt hj.1)
      exact h j next (nextOnAt_succ_iff.1 hj)
  simp only [KeptOff, List.getElem?_cons_succ, hnext]

theorem opensAt_zero_iff : OpensAt (c :: later) 0 ↔ opens c = true := by
  simp [OpensAt, OnAt, opens, and_assoc]

/-- What ends a trip from a later position on does not depend on the first change. -/
theorem endsFrom_succ_iff {stop : Option Instant} :
    EndsFrom minIdle (c :: later) (i + 1) stop ↔ EndsFrom minIdle later i stop := by
  cases stop with
  | none =>
      constructor
      · intro h j hij
        exact mt keptOff_succ_iff.2 (h (j + 1) (by omega))
      · intro h j hij
        obtain ⟨j, rfl⟩ := Nat.exists_eq_add_one_of_ne_zero (show j ≠ 0 by omega)
        exact mt keptOff_succ_iff.1 (h j (by omega))
  | some stop =>
      constructor
      · rintro ⟨j, d, hij, hkept, hfirst, hd⟩
        obtain ⟨j, rfl⟩ := Nat.exists_eq_add_one_of_ne_zero (show j ≠ 0 by omega)
        refine ⟨j, d, by omega, keptOff_succ_iff.1 hkept, fun k hik hkj => ?_, hd⟩
        exact mt keptOff_succ_iff.2 (hfirst (k + 1) (by omega) (by omega))
      · rintro ⟨j, d, hij, hkept, hfirst, hd⟩
        refine ⟨j + 1, d, by omega, keptOff_succ_iff.2 hkept, fun k hik hkj => ?_, hd⟩
        obtain ⟨k, rfl⟩ := Nat.exists_eq_add_one_of_ne_zero (show k ≠ 0 by omega)
        exact mt keptOff_succ_iff.1 (hfirst k (by omega) (by omega))

theorem isTrip_succ_iff {trip : Trip} :
    IsTrip minIdle (c :: later) (i + 1) trip ↔ IsTrip minIdle later i trip :=
  and_congr Iff.rfl endsFrom_succ_iff

/-! ## The first change -/

/-- An off that is no blip. -/
def keeps (minIdle : Span) (c : StateChange) (later : List StateChange) : Bool :=
  c.isOff && !isBlip minIdle c later

/-- The search for the next on finds it. -/
theorem nextOn_eq_some_iff {t : Instant} :
    nextOn later = some t ↔ ∃ j next, NextOnAt (c :: later) 0 (j + 1) next ∧ next.time = t := by
  rw [nextOn, Option.map_eq_some_iff]
  constructor
  · rintro ⟨next, hfind, rfl⟩
    obtain ⟨hon, j, hj, rfl, hbefore⟩ := List.find?_eq_some_iff_getElem.1 hfind
    -- what the search passed over is no on
    refine ⟨j, later[j], ⟨by omega, ⟨List.getElem?_eq_getElem hj, hon⟩, ?_⟩, rfl⟩
    rintro k hk hkj d ⟨hd, hdon⟩
    obtain ⟨k, rfl⟩ := Nat.exists_eq_add_one_of_ne_zero (show k ≠ 0 by omega)
    obtain ⟨hlen, rfl⟩ := List.getElem?_eq_some_iff.1 hd
    have hnot := hbefore k (by omega)
    rw [List.getElem_cons_succ] at hdon
    rw [hdon] at hnot
    exact Bool.noConfusion hnot
  · rintro ⟨j, next, ⟨-, ⟨hj, hon⟩, hbefore⟩, rfl⟩
    refine ⟨next, ?_, rfl⟩
    obtain ⟨hlen, rfl⟩ := List.getElem?_eq_some_iff.1 hj
    refine List.find?_eq_some_iff_getElem.2 ⟨hon, j, by simpa using hlen, rfl, fun k hk => ?_⟩
    rw [Bool.not_eq_true']
    refine Bool.eq_false_iff.2 fun hkon => hbefore (k + 1) (by omega) (by omega) _ ⟨?_, hkon⟩
    exact (List.getElem?_cons_succ).trans (List.getElem?_eq_getElem _)

/-- The first change is a kept off exactly when it is an off and no blip. -/
theorem keptOff_zero_iff : KeptOff minIdle (c :: later) 0 ↔ keeps minIdle c later = true := by
  rw [keeps, isBlip, Bool.and_eq_true]
  constructor
  · rintro ⟨d, hd, hoff, hlate⟩
    obtain rfl := Option.some.inj hd
    refine ⟨hoff, ?_⟩
    cases hnext : nextOn later with
    | none => simp
    | some t =>
        obtain ⟨j, next, hj, rfl⟩ := (nextOn_eq_some_iff (c := c)).1 hnext
        have hle : minIdle ≤ next.time - c.time := hlate (j + 1) next hj
        have hlt : ¬ next.time - c.time < minIdle := Int.not_lt.2 hle
        simp only [Option.any_some, decide_eq_false hlt, Bool.and_false, Bool.not_false]
  · rintro ⟨hoff, hblip⟩
    refine ⟨c, rfl, hoff, fun j next hj => ?_⟩
    obtain ⟨j, rfl⟩ := Nat.exists_eq_add_one_of_ne_zero (Nat.ne_zero_of_lt hj.1)
    rw [nextOn_eq_some_iff.2 ⟨j, next, hj, rfl⟩, hoff] at hblip
    apply Int.not_lt.1
    intro hlt
    have hlt' : next.time - c.time < minIdle := hlt
    simp only [Option.any_some, decide_eq_true hlt', Bool.and_true, Bool.not_true] at hblip
    exact Bool.noConfusion hblip

/-! ## Starts of trips -/

/-- An on starts a trip while another one may be open: then a kept off must end that one first. -/
def StartsFrom (minIdle : Span) (busy : Bool) (changes : List StateChange) (i : Nat) : Prop :=
  OpensAt changes i ∧ (busy = true → ∃ j, j < i ∧ KeptOff minIdle changes j) ∧
    ∀ k, k < i → OpensAt changes k → ∃ j, k < j ∧ j < i ∧ KeptOff minIdle changes j

/-- The walk begins without an open trip. -/
theorem startsFrom_false_iff :
    StartsFrom minIdle false changes i ↔ StartsTrip minIdle changes i := by
  simp [StartsFrom, StartsTrip]

theorem startsFrom_zero_iff {busy : Bool} :
    StartsFrom minIdle busy (c :: later) 0 ↔ opens c = true ∧ busy = false := by
  simp [StartsFrom, opensAt_zero_iff]

/-- A trip is open after a change. -/
def openAfter (minIdle : Span) (busy : Bool) (c : StateChange) (later : List StateChange) : Bool :=
  opens c || busy && !keeps minIdle c later

/-- What starts a trip after the first change depends on whether one is open then. -/
theorem startsFrom_succ_iff {busy : Bool} :
    StartsFrom minIdle busy (c :: later) (i + 1) ↔
      StartsFrom minIdle (openAfter minIdle busy c later) later i := by
  rw [openAfter]
  constructor
  · rintro ⟨hopen, hbusy, hearlier⟩
    refine ⟨hopen, fun hafter => ?_, fun k hki hk => ?_⟩
    · -- the open trip began with the first change, or before it and went on
      rcases Bool.or_eq_true_iff.1 hafter with hc | hc
      · obtain ⟨j, hj, hji, hkept⟩ := hearlier 0 (by omega) (opensAt_zero_iff.2 hc)
        obtain ⟨j, rfl⟩ := Nat.exists_eq_add_one_of_ne_zero (show j ≠ 0 by omega)
        exact ⟨j, by omega, keptOff_succ_iff.1 hkept⟩
      · rw [Bool.and_eq_true, Bool.not_eq_true'] at hc
        obtain ⟨j, hji, hkept⟩ := hbusy hc.1
        cases j with
        | zero =>
            rw [keptOff_zero_iff, hc.2] at hkept
            exact Bool.noConfusion hkept
        | succ j => exact ⟨j, by omega, keptOff_succ_iff.1 hkept⟩
    · obtain ⟨j, hkj, hji, hkept⟩ := hearlier (k + 1) (by omega) hk
      obtain ⟨j, rfl⟩ := Nat.exists_eq_add_one_of_ne_zero (show j ≠ 0 by omega)
      exact ⟨j, by omega, by omega, keptOff_succ_iff.1 hkept⟩
  · rintro ⟨hopen, hafter, hearlier⟩
    refine ⟨hopen, fun hbusy => ?_, fun k hki hk => ?_⟩
    · -- either the first change ends the open trip, or it is still open after it
      cases hc : keeps minIdle c later with
      | true => exact ⟨0, by omega, keptOff_zero_iff.2 hc⟩
      | false =>
          obtain ⟨j, hji, hkept⟩ := hafter (by rw [hbusy, hc]; simp)
          exact ⟨j + 1, by omega, keptOff_succ_iff.2 hkept⟩
    · cases k with
      | zero =>
          obtain ⟨j, hji, hkept⟩ := hafter (by rw [opensAt_zero_iff.1 hk, Bool.true_or])
          exact ⟨j + 1, by omega, by omega, keptOff_succ_iff.2 hkept⟩
      | succ k =>
          obtain ⟨j, hkj, hji, hkept⟩ := hearlier k (by omega) hk
          exact ⟨j + 1, by omega, by omega, keptOff_succ_iff.2 hkept⟩

/-! ## The two passes -/

/-- An on that opens a trip is not an off. -/
theorem isOff_eq_false_of_opens (h : opens c = true) : c.isOff = false := by
  simp only [opens, Bool.and_eq_true] at h
  exact StateChange.isOff_eq_false_of_isOn h.1.1

/-- Without an open trip, the passes open one at an opening on. -/
theorem pair_none_debounce_cons :
    pair none (debounce minIdle (c :: later)) =
      pair (if opens c then some c.time else none) (debounce minIdle later) := by
  rw [debounce]
  split
  · -- a blip is off, so it opens nothing
    rename_i hblip
    have hoff : c.isOff = true := by
      rw [isBlip, Bool.and_eq_true] at hblip
      exact hblip.1
    have hopens : ¬ opens c = true := by
      intro h
      rw [isOff_eq_false_of_opens h] at hoff
      exact Bool.noConfusion hoff
    rw [if_neg hopens]
  · rw [pair]

/-- An open trip is over at a kept off. -/
theorem pair_some_debounce_cons {t : Instant} :
    pair (some t) (debounce minIdle (c :: later)) =
      if keeps minIdle c later then ⟨t, some c.time⟩ :: pair none (debounce minIdle later)
      else pair (some t) (debounce minIdle later) := by
  rw [debounce, keeps]
  split
  · rename_i hblip
    simp only [hblip, Bool.not_true, Bool.and_false, Bool.false_eq_true, if_false]
  · rename_i hblip
    simp only [hblip, Bool.not_false, Bool.and_true, pair]

/-- Positions in order are those of the starts, and trips are found for each of them. -/
structure Found (minIdle : Span) (busy : Bool) (changes : List StateChange) (starts : List Nat)
    (trips : List Trip) : Prop where
  /-- The positions are in order. -/
  ordered : starts.Pairwise (· < ·)
  /-- They are those of the starts. -/
  mem_iff : ∀ i, i ∈ starts ↔ StartsFrom minIdle busy changes i
  /-- Each trip is that of its start. -/
  isTrip : List.Forall₂ (IsTrip minIdle changes) starts trips

theorem pairwise_map_succ {starts : List Nat} (h : starts.Pairwise (· < ·)) :
    (starts.map (· + 1)).Pairwise (· < ·) :=
  List.pairwise_map.2 (h.imp Nat.succ_lt_succ)

theorem forall₂_isTrip_map_succ {starts : List Nat} {trips : List Trip}
    (h : List.Forall₂ (IsTrip minIdle later) starts trips) :
    List.Forall₂ (IsTrip minIdle (c :: later)) (starts.map (· + 1)) trips :=
  List.forall₂_map_left_iff.2 (h.imp fun _ _ => isTrip_succ_iff.2)

/-- A change at which no trip starts moves all positions on. -/
theorem Found.skip {busy : Bool} {starts : List Nat} {trips : List Trip}
    (h : Found minIdle (openAfter minIdle busy c later) later starts trips)
    (hc : ¬ (opens c = true ∧ busy = false)) :
    Found minIdle busy (c :: later) (starts.map (· + 1)) trips where
  ordered := pairwise_map_succ h.ordered
  mem_iff := by
    intro i
    cases i with
    | zero => simp [startsFrom_zero_iff, hc]
    | succ i => simp [startsFrom_succ_iff, h.mem_iff]
  isTrip := forall₂_isTrip_map_succ h.isTrip

/-- A change at which a trip starts comes first. -/
theorem Found.opening {starts : List Nat} {trips : List Trip} {stop : Option Instant}
    (h : Found minIdle true later starts trips) (hc : opens c = true)
    (hstop : EndsFrom minIdle later 0 stop) :
    Found minIdle false (c :: later) (0 :: starts.map (· + 1)) (⟨c.time, stop⟩ :: trips) where
  ordered := List.pairwise_cons.2 ⟨by simp, pairwise_map_succ h.ordered⟩
  mem_iff := by
    intro i
    cases i with
    | zero => simp [startsFrom_zero_iff, hc]
    | succ i => simp [startsFrom_succ_iff, openAfter, hc, h.mem_iff]
  isTrip := .cons ⟨⟨c, rfl, rfl⟩, endsFrom_succ_iff.2 hstop⟩ (forall₂_isTrip_map_succ h.isTrip)

/-- When the first kept off is. -/
def firstStop (minIdle : Span) : List StateChange → Option Instant
  | [] => none
  | c :: later => if keeps minIdle c later then some c.time else firstStop minIdle later

theorem endsFrom_firstStop (minIdle : Span) (changes : List StateChange) :
    EndsFrom minIdle changes 0 (firstStop minIdle changes) := by
  induction changes with
  | nil => simp [firstStop, EndsFrom, KeptOff]
  | cons c later ih =>
      rw [firstStop]
      split
      · rename_i hkeeps
        exact ⟨0, c, Nat.le_refl 0, keptOff_zero_iff.2 hkeeps, fun _ _ hk => absurd hk (by omega),
          rfl, rfl⟩
      · rename_i hkeeps
        have hzero : ¬ KeptOff minIdle (c :: later) 0 := mt keptOff_zero_iff.1 hkeeps
        cases hstop : firstStop minIdle later with
        | none =>
            rw [hstop] at ih
            intro j _
            cases j with
            | zero => exact hzero
            | succ j => exact mt keptOff_succ_iff.1 (ih j (by omega))
        | some stop =>
            rw [hstop] at ih
            obtain ⟨j, d, -, hkept, hfirst, hd⟩ := ih
            refine ⟨j + 1, d, by omega, keptOff_succ_iff.2 hkept, fun k _ hkj => ?_, hd⟩
            cases k with
            | zero => exact hzero
            | succ k => exact mt keptOff_succ_iff.1 (hfirst k (by omega) (by omega))

/-- The passes find the trips of all starts; a trip that is open before the first change is over at
the first kept off. -/
theorem exists_found_pair (minIdle : Span) (start : Option Instant) (changes : List StateChange) :
    ∃ starts trips, Found minIdle start.isSome changes starts trips ∧
      pair start (debounce minIdle changes) =
        (start.map fun t => ⟨t, firstStop minIdle changes⟩).toList ++ trips := by
  -- the walk may begin inside a trip, so its state is part of the induction
  induction changes generalizing start with
  | nil =>
      refine ⟨[], [], ⟨.nil, ?_, .nil⟩, ?_⟩
      · simp [StartsFrom, OpensAt, OnAt]
      · rw [debounce, pair, List.append_nil, firstStop]
  | cons c later ih =>
      cases start with
      | none =>
          rw [pair_none_debounce_cons]
          cases hc : opens c with
          | true =>
              obtain ⟨starts, trips, hfound, hpair⟩ := ih (some c.time)
              exact ⟨_, _, hfound.opening hc (endsFrom_firstStop minIdle later), hpair⟩
          | false =>
              obtain ⟨starts, trips, hfound, hpair⟩ := ih none
              have hlater : Found minIdle (openAfter minIdle false c later) later starts trips := by
                simpa [openAfter, hc] using hfound
              exact ⟨_, trips, hlater.skip (by simp [hc]), hpair⟩
      | some t =>
          rw [pair_some_debounce_cons, firstStop]
          cases hc : keeps minIdle c later with
          | true =>
              -- the kept off ends the open trip, and it opens none
              have hopens : opens c = false := by
                rw [keeps, Bool.and_eq_true] at hc
                apply Bool.eq_false_iff.2
                intro h
                rw [isOff_eq_false_of_opens h] at hc
                exact Bool.noConfusion hc.1
              obtain ⟨starts, trips, hfound, hpair⟩ := ih none
              have hlater : Found minIdle (openAfter minIdle true c later) later starts trips := by
                simpa [openAfter, hc, hopens] using hfound
              exact ⟨_, trips, hlater.skip (by simp), by simpa using hpair⟩
          | false =>
              obtain ⟨starts, trips, hfound, hpair⟩ := ih (some t)
              have hlater : Found minIdle (openAfter minIdle true c later) later starts trips := by
                simpa [openAfter, hc] using hfound
              exact ⟨_, trips, hlater.skip (by simp), by simpa using hpair⟩

end Ignition

end Telematics
