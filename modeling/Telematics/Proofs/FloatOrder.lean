import Mathlib.Data.Prod.Lex
import Telematics.Source.Log

/-!
# The order of floating-point numbers

What is no number is not below, above or equal to anything. The others lie on a line: `place` gives
the place of a number by its class, its exponent and its digits, which are compared one after the
other. `lt_iff_place`, `le_iff_place` and `beq_iff_place` say that comparisons are those of places,
so that numbers are ordered as one expects (`lt_of_lt_of_le`, `le_of_not_lt`, `beq_trans`).

The least and the greatest of some values, as a log finds them, are above or not above a bound
exactly when all values are (`lt_least_iff`, `greatest_le_iff`). Values that are no numbers change
neither of them (`least_numbers`, `greatest_numbers`), so in general it is all numbers among the
values that count (`lt_least_iff_numbers`, `greatest_le_iff_numbers`), in whatever order
(`lt_least_iff_of_perm`, `greatest_le_iff_of_perm`).
-/

set_option autoImplicit false

namespace Telematics.FloatOrder

open Float.Model Float.Model.UnpackedFloat

/-! ## The line of numbers -/

/-- The line of numbers: classes, in a class exponents, and with an exponent digits. -/
abbrev Line := Int ×ₗ Int ×ₗ Int

/-- A place on the line. -/
def at3 (kind exponent digits : Int) : Line := toLex (kind, toLex (exponent, digits))

/-- The place of a number in parts. Exponents and digits of negative numbers count backward. -/
def placeOf : UnpackedFloat → Line
  | .infinity .negative => at3 (-2) 0 0
  | .finite .negative digits exponent _ => at3 (-1) (-exponent) (-digits)
  | .zero _ => at3 0 0 0
  | .finite .positive digits exponent _ => at3 1 exponent digits
  | .infinity .positive => at3 2 0 0
  | .notANumber => at3 0 0 0

theorem compare_at3 (a b c a' b' c' : Int) :
    compare (at3 a b c) (at3 a' b' c') =
      (compare a a').then ((compare b b').then (compare c c')) := by
  simp [at3, Prod.Lex.compare_def, compareLex, compareOn]

theorem compare_neg (m n : Int) : compare (-m) (-n) = (compare m n).swap := by
  rw [Int.compare_swap, Int.compare_eq_ite_lt, Int.compare_eq_ite_lt]
  simp only [Int.neg_lt_neg_iff]

theorem compare_natCast (m n : Nat) : compare (m : Int) n = compare m n := by
  rw [Int.compare_eq_ite_lt, Nat.compare_eq_ite_lt]
  simp only [Int.ofNat_lt]

/-- Numbers in parts are compared as their places are. -/
theorem compare_eq_some {x y : UnpackedFloat} (hx : x.isNaN = false) (hy : y.isNaN = false) :
    x.compare y = some (compare (placeOf x) (placeOf y)) := by
  rcases x with (_ | _) | _ | _ | ⟨_ | _, m, e, hm⟩ <;>
    rcases y with (_ | _) | _ | _ | ⟨_ | _, m', e', hm'⟩
  -- numbers of different classes are told apart by these
  all_goals try first | exact Bool.noConfusion hx | exact Bool.noConfusion hy | rfl
  case finite.negative.finite.negative =>
    show some ((compare e e').then (compare m m')).swap =
      some (compare (at3 (-1) (-e) (-m)) (at3 (-1) (-e') (-m')))
    simp only [compare_at3, compare_neg, compare_natCast, Ordering.swap_then]
    rfl
  case finite.positive.finite.positive =>
    show some ((compare e e').then (compare m m')) = some (compare (at3 1 e m) (at3 1 e' m'))
    rw [compare_at3, compare_natCast]
    rfl

/-! ## Comparisons -/

variable {a b c : Float}

/-- It is a number, be it infinite. -/
def IsNumber (a : Float) : Prop := a.isNaN = false

instance (a : Float) : Decidable (IsNumber a) := inferInstanceAs (Decidable (_ = _))

/-- The place of a number on the line. -/
def place (a : Float) : Line := placeOf a.toModel.unpack

theorem lt_iff_lt_unpack : a < b ↔ a.toModel.unpack.lt b.toModel.unpack = true := by
  show decide (a.toModel < b.toModel) = true ↔ _
  rw [decide_eq_true_iff]
  exact Iff.rfl

theorem le_iff_le_unpack : a ≤ b ↔ a.toModel.unpack.le b.toModel.unpack = true := by
  show decide (a.toModel ≤ b.toModel) = true ↔ _
  rw [decide_eq_true_iff]
  exact Iff.rfl

theorem lt_iff_place (ha : IsNumber a) (hb : IsNumber b) : a < b ↔ place a < place b := by
  rw [lt_iff_lt_unpack, UnpackedFloat.lt, compare_eq_some ha hb, beq_iff_eq, Option.some.injEq]
  exact compare_lt_iff_lt

theorem le_iff_place (ha : IsNumber a) (hb : IsNumber b) : a ≤ b ↔ place a ≤ place b := by
  rw [le_iff_le_unpack, UnpackedFloat.le, compare_eq_some ha hb, Option.any_some]
  exact Ordering.isLE_iff_ne_gt.trans compare_le_iff_le

/-- Nothing is compared with what is no number. -/
theorem compare_eq_none {x y : UnpackedFloat} (h : x.isNaN = true ∨ y.isNaN = true) :
    x.compare y = none := by
  rcases h with h | h
  · cases x with
    | notANumber => rfl
    | infinity _ => exact Bool.noConfusion h
    | zero _ => exact Bool.noConfusion h
    | finite _ _ _ _ => exact Bool.noConfusion h
  · cases y with
    | notANumber => cases x <;> rfl
    | infinity _ => exact Bool.noConfusion h
    | zero _ => exact Bool.noConfusion h
    | finite _ _ _ _ => exact Bool.noConfusion h

/-- What is compared are numbers. -/
theorem isNumber_of_compare (h : a.toModel.unpack.compare b.toModel.unpack ≠ none) :
    IsNumber a ∧ IsNumber b := by
  by_contra hnot
  refine h (compare_eq_none ?_)
  rwa [← Bool.not_eq_false, ← Bool.not_eq_false, ← not_and_or]

/-- What is below something is a number, and so is what it is below. -/
theorem isNumber_of_lt (h : a < b) : IsNumber a ∧ IsNumber b := by
  rw [lt_iff_lt_unpack, UnpackedFloat.lt, beq_iff_eq] at h
  exact isNumber_of_compare (h ▸ Option.some_ne_none _)

/-- So it is for what is at most something. -/
theorem isNumber_of_le (h : a ≤ b) : IsNumber a ∧ IsNumber b := by
  rw [le_iff_le_unpack, UnpackedFloat.le] at h
  apply isNumber_of_compare
  intro hnone
  rw [hnone] at h
  exact Bool.noConfusion h

theorem lt_of_lt_of_le (hab : a < b) (hbc : b ≤ c) : a < c := by
  obtain ⟨ha, hb⟩ := isNumber_of_lt hab
  obtain ⟨-, hc⟩ := isNumber_of_le hbc
  rw [lt_iff_place ha hb] at hab
  rw [le_iff_place hb hc] at hbc
  exact (lt_iff_place ha hc).2 (hab.trans_le hbc)

theorem lt_of_le_of_lt (hab : a ≤ b) (hbc : b < c) : a < c := by
  obtain ⟨ha, hb⟩ := isNumber_of_le hab
  obtain ⟨-, hc⟩ := isNumber_of_lt hbc
  rw [le_iff_place ha hb] at hab
  rw [lt_iff_place hb hc] at hbc
  exact (lt_iff_place ha hc).2 (hab.trans_lt hbc)

theorem le_of_lt (h : a < b) : a ≤ b := by
  obtain ⟨ha, hb⟩ := isNumber_of_lt h
  exact (le_iff_place ha hb).2 ((lt_iff_place ha hb).1 h).le

theorem le_trans (hab : a ≤ b) (hbc : b ≤ c) : a ≤ c := by
  obtain ⟨ha, hb⟩ := isNumber_of_le hab
  obtain ⟨-, hc⟩ := isNumber_of_le hbc
  rw [le_iff_place ha hb] at hab
  rw [le_iff_place hb hc] at hbc
  exact (le_iff_place ha hc).2 (hab.trans hbc)

theorem lt_trans (hab : a < b) (hbc : b < c) : a < c := lt_of_lt_of_le hab (le_of_lt hbc)

theorem le_refl (ha : IsNumber a) : a ≤ a := (le_iff_place ha ha).2 le_rfl

/-- Numbers can be compared. -/
theorem le_of_not_lt (ha : IsNumber a) (hb : IsNumber b) (h : ¬ a < b) : b ≤ a := by
  rw [lt_iff_place ha hb] at h
  exact (le_iff_place hb ha).2 (not_lt.1 h)

/-- Of two numbers one is not above the other. -/
theorem le_or_lt (ha : IsNumber a) (hb : IsNumber b) : a ≤ b ∨ b < a := by
  rw [le_iff_place ha hb, lt_iff_place hb ha]
  exact le_or_gt _ _

/-- What is not above something is not below it at once. -/
theorem not_lt_of_le (h : a ≤ b) : ¬ b < a := by
  obtain ⟨ha, hb⟩ := isNumber_of_le h
  rw [lt_iff_place hb ha]
  exact not_lt.2 ((le_iff_place ha hb).1 h)

/-! ## Equal numbers -/

theorem beq_iff_compare_unpack :
    (a == b) = true ↔ a.toModel.unpack.compare b.toModel.unpack = some .eq := by
  show (a.toModel.unpack.compare b.toModel.unpack == some .eq) = true ↔ _
  exact beq_iff_eq

theorem beq_iff_place (ha : IsNumber a) (hb : IsNumber b) :
    (a == b) = true ↔ place a = place b := by
  rw [beq_iff_compare_unpack, compare_eq_some ha hb, Option.some.injEq]
  exact compare_eq_iff_eq

/-- What equals something is a number, and so is what it equals. -/
theorem isNumber_of_beq (h : (a == b) = true) : IsNumber a ∧ IsNumber b := by
  rw [beq_iff_compare_unpack] at h
  exact isNumber_of_compare (h ▸ Option.some_ne_none _)

/-- A number equals itself. -/
theorem beq_refl (ha : IsNumber a) : (a == a) = true := (beq_iff_place ha ha).2 rfl

theorem beq_symm (h : (a == b) = true) : (b == a) = true := by
  obtain ⟨ha, hb⟩ := isNumber_of_beq h
  exact (beq_iff_place hb ha).2 ((beq_iff_place ha hb).1 h).symm

theorem beq_trans (hab : (a == b) = true) (hbc : (b == c) = true) : (a == c) = true := by
  obtain ⟨ha, hb⟩ := isNumber_of_beq hab
  obtain ⟨-, hc⟩ := isNumber_of_beq hbc
  exact (beq_iff_place ha hc).2 (((beq_iff_place ha hb).1 hab).trans ((beq_iff_place hb hc).1 hbc))

/-! ## Finite numbers -/

theorem at3_le_at3_iff {a b c a' b' c' : Int} :
    at3 a b c ≤ at3 a' b' c' ↔ a < a' ∨ a = a' ∧ (b < b' ∨ b = b' ∧ c ≤ c') := by
  simp only [at3, Prod.Lex.toLex_le_toLex]

theorem place_largestFinite : place Log.largestFinite = at3 1 971 9007199254740991 := by decide

theorem place_neg_largestFinite :
    place (-Log.largestFinite) = at3 (-1) (-971) (-9007199254740991) := by decide

/-- The parts of finite numbers: there are at most 53 digits, and no exponent is above 971. -/
theorem bounds_of_unpack_eq_finite {bits : BitVec Format.binary64.numBits} {sign : Sign}
    {digits : Nat} {exponent : Int} {hpos : 0 < digits}
    (h : UnpackedFloat.unpack Format.binary64 bits = .finite sign digits exponent hpos) :
    exponent ≤ 971 ∧ digits ≤ 9007199254740991 := by
  -- the largest exponent is that of what is not finite
  have hbits : ∀ e : BitVec 11, e ≠ -1#11 → e.toNat ≤ 2046 := by
    intro e hne
    have hlt : e.toNat < 2048 := e.isLt
    have hnat : e.toNat ≠ 2047 := fun heq => hne (BitVec.eq_of_toNat_eq heq)
    omega
  delta UnpackedFloat.unpack at h
  dsimp only at h
  by_cases hmax : unpackExponent bits = -1#11
  · rw [if_pos hmax] at h
    by_cases hinfinite : unpackMantissa bits = 0#52
    · rw [if_pos hinfinite] at h
      cases h
    · rw [if_neg hinfinite] at h
      cases h
  · have hexponent := hbits _ hmax
    rw [if_neg hmax] at h
    by_cases hsmall : unpackExponent bits = 0#11
    · rw [if_pos hsmall] at h
      by_cases hzero : unpackMantissa bits = 0#52
      · rw [dif_pos hzero] at h
        cases h
      · rw [dif_neg hzero] at h
        obtain ⟨-, rfl, rfl⟩ := UnpackedFloat.finite.inj h
        rw [hsmall]
        exact ⟨by decide, Nat.le_trans (Nat.le_of_lt_succ (unpackMantissa bits).isLt) (by decide)⟩
    · rw [if_neg hsmall] at h
      obtain ⟨-, rfl, rfl⟩ := UnpackedFloat.finite.inj h
      have hbias : (Format.binary64.exponentBias : Int) +
          (Format.binary64.mantissaBitsWithoutImplicit : Int) = 1075 := by decide
      rw [hbias]
      exact ⟨by omega, Nat.le_of_lt_succ (1#1 ++ unpackMantissa bits).isLt⟩

/-- The places of finite numbers lie between those of the lowest and the largest one. -/
theorem place_bounds_of_isFinite (h : a.isFinite = true) :
    place (-Log.largestFinite) ≤ place a ∧ place a ≤ place Log.largestFinite := by
  have hfinite : a.toModel.unpack.isFinite = true := h
  rw [place_largestFinite, place_neg_largestFinite, place]
  cases hunpack : a.toModel.unpack with
  | infinity sign =>
      rw [hunpack] at hfinite
      exact Bool.noConfusion hfinite
  | notANumber =>
      rw [hunpack] at hfinite
      exact Bool.noConfusion hfinite
  | zero sign => exact ⟨at3_le_at3_iff.2 (by omega), at3_le_at3_iff.2 (by omega)⟩
  | finite sign digits exponent hpos =>
      obtain ⟨hexponent, hdigits⟩ := bounds_of_unpack_eq_finite hunpack
      cases sign with
      | negative => exact ⟨at3_le_at3_iff.2 (by omega), at3_le_at3_iff.2 (by omega)⟩
      | positive => exact ⟨at3_le_at3_iff.2 (by omega), at3_le_at3_iff.2 (by omega)⟩

theorem isNumber_of_isFinite (h : a.isFinite = true) : IsNumber a := by
  have hfinite : a.toModel.unpack.isFinite = true := h
  show a.toModel.unpack.isNaN = false
  cases hunpack : a.toModel.unpack with
  | notANumber =>
      rw [hunpack] at hfinite
      exact Bool.noConfusion hfinite
  | infinity _ => rfl
  | zero _ => rfl
  | finite _ _ _ _ => rfl

theorem le_largestFinite (h : a.isFinite = true) : a ≤ Log.largestFinite :=
  (le_iff_place (isNumber_of_isFinite h) (by decide)).2 (place_bounds_of_isFinite h).2

theorem neg_largestFinite_le (h : a.isFinite = true) : -Log.largestFinite ≤ a :=
  (le_iff_place (by decide) (isNumber_of_isFinite h)).2 (place_bounds_of_isFinite h).1

/-! ## The least and the greatest of some values -/

/-- A bound is below the least of some numbers exactly when it is below all of them. -/
theorem lt_least_iff {values : List Float} (hvalues : ∀ v ∈ values, IsNumber v) :
    a < Log.least values ↔ a < Log.largestFinite ∧ ∀ v ∈ values, a < v := by
  -- the least so far is part of the induction
  have hfold : ∀ low : Float, a < values.foldl (fun low v => if v < low then v else low) low ↔
      a < low ∧ ∀ v ∈ values, a < v := by
    induction values with
    | nil => simp
    | cons v values ih =>
        intro low
        have hv := hvalues v List.mem_cons_self
        rw [List.foldl_cons, ih fun x hx => hvalues x (List.mem_cons_of_mem v hx),
          List.forall_mem_cons, ← and_assoc]
        refine and_congr_left fun _ => ?_
        split
        · rename_i hlt
          exact ⟨fun h => ⟨lt_trans h hlt, h⟩, And.right⟩
        · rename_i hlt
          exact ⟨fun h => ⟨h, lt_of_lt_of_le h (le_of_not_lt hv (isNumber_of_lt h).2 hlt)⟩,
            And.left⟩
  exact hfold _

/-- The greatest of some numbers is not above a bound exactly when none of them is. -/
theorem greatest_le_iff {values : List Float} (hvalues : ∀ v ∈ values, IsNumber v) :
    Log.greatest values ≤ a ↔ -Log.largestFinite ≤ a ∧ ∀ v ∈ values, v ≤ a := by
  -- the greatest so far is part of the induction
  have hfold : ∀ high : Float, values.foldl (fun high v => if high < v then v else high) high ≤ a ↔
      high ≤ a ∧ ∀ v ∈ values, v ≤ a := by
    induction values with
    | nil => simp
    | cons v values ih =>
        intro high
        have hv := hvalues v List.mem_cons_self
        rw [List.foldl_cons, ih fun x hx => hvalues x (List.mem_cons_of_mem v hx),
          List.forall_mem_cons, ← and_assoc]
        refine and_congr_left fun _ => ?_
        split
        · rename_i hlt
          exact ⟨fun h => ⟨le_trans (le_of_lt hlt) h, h⟩, And.right⟩
        · rename_i hlt
          exact ⟨fun h => ⟨h, le_trans (le_of_not_lt (isNumber_of_le h).1 hv hlt) h⟩, And.left⟩
  exact hfold _

/-! ## Values that are no numbers -/

/-- The numbers among some values. -/
def numbers (values : List Float) : List Float := values.filter fun v => decide (IsNumber v)

theorem mem_numbers {values : List Float} {v : Float} :
    v ∈ numbers values ↔ v ∈ values ∧ IsNumber v := by
  rw [numbers, List.mem_filter, decide_eq_true_eq]

/-- What is no number is passed over on the way to the least. -/
theorem least_numbers (values : List Float) : Log.least (numbers values) = Log.least values := by
  have hstep : (fun (low v : Float) =>
      if decide (IsNumber v) = true then if v < low then v else low else low) =
        fun low v => if v < low then v else low := by
    funext low v
    by_cases hlt : v < low
    · rw [if_pos (decide_eq_true (isNumber_of_lt hlt).1)]
    · simp only [if_neg hlt, ite_self]
  rw [Log.least, Log.least, numbers, List.foldl_filter, hstep]

/-- What is no number is passed over on the way to the greatest. -/
theorem greatest_numbers (values : List Float) :
    Log.greatest (numbers values) = Log.greatest values := by
  have hstep : (fun (high v : Float) =>
      if decide (IsNumber v) = true then if high < v then v else high else high) =
        fun high v => if high < v then v else high := by
    funext high v
    by_cases hlt : high < v
    · rw [if_pos (decide_eq_true (isNumber_of_lt hlt).2)]
    · simp only [if_neg hlt, ite_self]
  rw [Log.greatest, Log.greatest, numbers, List.foldl_filter, hstep]

/-- A bound is below the least of some values exactly when it is below all that are numbers. -/
theorem lt_least_iff_numbers {values : List Float} :
    a < Log.least values ↔ a < Log.largestFinite ∧ ∀ v ∈ values, IsNumber v → a < v := by
  rw [← least_numbers values, lt_least_iff fun v hv => (mem_numbers.1 hv).2]
  simp only [mem_numbers, and_imp]

/-- The greatest of some values is not above a bound exactly when none that is a number is. -/
theorem greatest_le_iff_numbers {values : List Float} :
    Log.greatest values ≤ a ↔ -Log.largestFinite ≤ a ∧ ∀ v ∈ values, IsNumber v → v ≤ a := by
  rw [← greatest_numbers values, greatest_le_iff fun v hv => (mem_numbers.1 hv).2]
  simp only [mem_numbers, and_imp]

/-- Whether the least of some values is above a bound does not depend on their order. -/
theorem lt_least_iff_of_perm {values others : List Float} (h : values.Perm others) :
    a < Log.least values ↔ a < Log.least others := by
  simp only [lt_least_iff_numbers, h.mem_iff]

/-- Whether the greatest of some values is not above a bound does not depend on their order. -/
theorem greatest_le_iff_of_perm {values others : List Float} (h : values.Perm others) :
    Log.greatest values ≤ a ↔ Log.greatest others ≤ a := by
  simp only [greatest_le_iff_numbers, h.mem_iff]

end Telematics.FloatOrder
