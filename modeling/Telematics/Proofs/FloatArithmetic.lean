import Telematics.Proofs.FloatOrder

/-!
# Results that are numbers

Arithmetic on floating-point numbers goes over their parts, and the result is packed again, which
turns what is too large into an infinite number but never a number into what is none
(`isNaN_repack`). So a difference is a number where the second number is finite
(`isNumber_sub`), and a quotient and a product are where the second number is finite and above zero
(`isNumber_div`, `isNumber_mul`); what is no number stays none in every operation. Of an infinite
number the difference to itself is no number, of a finite one it is zero (`unpack_sub_self`).
-/

set_option autoImplicit false

namespace Telematics.FloatOrder

open Float.Model Float.Model.UnpackedFloat

/-! ## Parts packed and unpacked -/

/-- Parts of a number after they were packed. -/
def repack (x : UnpackedFloat) : UnpackedFloat :=
  UnpackedFloat.unpack Format.binary64 (UnpackedFloat.pack Format.binary64 x)

/-- A number whichever way a test goes is a number. -/
theorem isNaN_dite {p : Prop} [Decidable p] {yes : p → UnpackedFloat} {no : ¬ p → UnpackedFloat}
    (hyes : ∀ h, (yes h).isNaN = false) (hno : ∀ h, (no h).isNaN = false) :
    (dite p yes no).isNaN = false := by
  by_cases h : p
  · rw [dif_pos h]
    exact hyes h
  · rw [dif_neg h]
    exact hno h

/-- The largest exponent alone stands for what is no number. -/
theorem isNaN_unpack_packComponents {sign : Sign} {exponent : BitVec 11} (mantissa : BitVec 52)
    (h : exponent ≠ -1#11) :
    (UnpackedFloat.unpack Format.binary64
      (packComponents Format.binary64 sign exponent mantissa)).isNaN = false := by
  delta UnpackedFloat.unpack
  dsimp only
  rw [unpackExponent_packComponents, if_neg h]
  by_cases hsmall : exponent = 0#11
  · rw [if_pos hsmall]
    exact isNaN_dite (fun _ => rfl) fun _ => rfl
  · rw [if_neg hsmall]
    rfl

/-- Packing makes a number of a number, and of nothing else. -/
theorem isNaN_repack (x : UnpackedFloat) : (repack x).isNaN = x.isNaN := by
  cases x with
  | notANumber => rfl
  | infinity sign => cases sign <;> rfl
  | zero sign => cases sign <;> rfl
  | finite sign digits exponent hpos =>
      rw [repack]
      delta UnpackedFloat.pack
      dsimp only
      show _ = false
      split
      · cases sign <;> rfl
      · rename_i hsmall
        split
        · refine isNaN_unpack_packComponents _ fun heq => hsmall ?_
          -- a normal number does not have the largest exponent
          have hnat : _ % 2 ^ 11 = 2047 := congrArg BitVec.toNat heq
          show 2 ^ 11 ≤ _
          omega
        · exact isNaN_unpack_packComponents _ (by decide)

theorem repack_infinity (sign : Sign) : repack (.infinity sign) = .infinity sign := by
  cases sign <;> rfl

theorem repack_zero (sign : Sign) : repack (.zero sign) = .zero sign := by
  cases sign <;> rfl

/-- Rounding gives a number. -/
theorem isNaN_roundWithAccuracy (format : Format) (sign : Sign) (digits : Nat) (exponent : Int)
    (accuracy : Accuracy) :
    (roundWithAccuracy format sign digits exponent accuracy).isNaN = false := by
  rw [roundWithAccuracy]
  exact isNaN_dite (fun _ => rfl) fun _ => rfl

theorem isNaN_normalize (format : Format) (digits exponent : Int) (sign : Sign) :
    (UnpackedFloat.normalize format digits exponent sign).isNaN = false := by
  rw [UnpackedFloat.normalize]
  split
  · exact isNaN_roundWithAccuracy _ _ _ _ _
  · rfl
  · exact isNaN_roundWithAccuracy _ _ _ _ _

/-! ## Arithmetic on parts -/

variable {x y : UnpackedFloat}

/-- A number less a finite one is a number. -/
theorem isNaN_sub (hx : x.isNaN = false) (hy : y.isFinite = true) :
    (UnpackedFloat.sub Format.binary64 x y).isNaN = false := by
  cases x with
  | notANumber => exact Bool.noConfusion hx
  | infinity _ => cases y <;> first | rfl | exact Bool.noConfusion hy
  | zero s =>
      cases y with
      | zero t => cases s <;> cases t <;> rfl
      | finite _ _ _ _ => rfl
      | infinity _ => exact Bool.noConfusion hy
      | notANumber => exact Bool.noConfusion hy
  | finite _ _ _ _ =>
      cases y with
      | zero _ => rfl
      | finite _ _ _ _ => exact isNaN_normalize _ _ _ _
      | infinity _ => exact Bool.noConfusion hy
      | notANumber => exact Bool.noConfusion hy

/-- A number divided by one that is finite and not zero is a number. -/
theorem isNaN_div (hx : x.isNaN = false) (sign : Sign) (digits : Nat) (exponent : Int)
    (hpos : 0 < digits) :
    (UnpackedFloat.div Format.binary64 x (.finite sign digits exponent hpos)).isNaN = false := by
  cases x with
  | notANumber => exact Bool.noConfusion hx
  | infinity _ => rfl
  | zero _ => rfl
  | finite _ _ _ _ => exact isNaN_roundWithAccuracy _ _ _ _ _

/-- A number times one that is finite and not zero is a number. -/
theorem isNaN_mul (hx : x.isNaN = false) (sign : Sign) (digits : Nat) (exponent : Int)
    (hpos : 0 < digits) :
    (UnpackedFloat.mul Format.binary64 x (.finite sign digits exponent hpos)).isNaN = false := by
  cases x with
  | notANumber => exact Bool.noConfusion hx
  | infinity _ => rfl
  | zero _ => rfl
  | finite _ _ _ _ => exact isNaN_roundWithAccuracy _ _ _ _ _

/-- What is no number stays none on either side. -/
theorem isNaN_of_isNaN_sub (h : (UnpackedFloat.sub Format.binary64 x y).isNaN = false) :
    x.isNaN = false ∧ y.isNaN = false := by
  cases x <;> cases y <;> first | exact ⟨rfl, rfl⟩ | exact Bool.noConfusion h

theorem isNaN_of_isNaN_div (h : (UnpackedFloat.div Format.binary64 x y).isNaN = false) :
    x.isNaN = false ∧ y.isNaN = false := by
  cases x <;> cases y <;> first | exact ⟨rfl, rfl⟩ | exact Bool.noConfusion h

theorem isNaN_of_isNaN_mul (h : (UnpackedFloat.mul Format.binary64 x y).isNaN = false) :
    x.isNaN = false ∧ y.isNaN = false := by
  cases x <;> cases y <;> first | exact ⟨rfl, rfl⟩ | exact Bool.noConfusion h

/-- What an infinite number is taken from becomes infinite, or no number. -/
theorem sub_infinity_cases (format : Format) (x : UnpackedFloat) (sign : Sign) :
    UnpackedFloat.sub format x (.infinity sign) = .notANumber ∨
      ∃ sign', UnpackedFloat.sub format x (.infinity sign) = .infinity sign' := by
  cases x with
  | notANumber => exact Or.inl rfl
  | infinity sign' =>
      cases sign with
      | positive => cases sign' <;> first | exact Or.inl rfl | exact Or.inr ⟨_, rfl⟩
      | negative => cases sign' <;> first | exact Or.inl rfl | exact Or.inr ⟨_, rfl⟩
  | zero _ => exact Or.inr ⟨_, rfl⟩
  | finite _ _ _ _ => exact Or.inr ⟨_, rfl⟩

/-! ## Arithmetic on numbers -/

variable {a b : Float}

theorem unpack_sub (a b : Float) : (a - b).toModel.unpack =
    repack (UnpackedFloat.sub Format.binary64 a.toModel.unpack b.toModel.unpack) := rfl

theorem unpack_div (a b : Float) : (a / b).toModel.unpack =
    repack (UnpackedFloat.div Format.binary64 a.toModel.unpack b.toModel.unpack) := rfl

theorem unpack_mul (a b : Float) : (a * b).toModel.unpack =
    repack (UnpackedFloat.mul Format.binary64 a.toModel.unpack b.toModel.unpack) := rfl

/-- A finite number above zero has digits. -/
theorem exists_unpack_eq_finite (hpos : 0.0 < a) (hfinite : a.isFinite = true) :
    ∃ digits exponent hdigits, a.toModel.unpack = .finite .positive digits exponent hdigits := by
  have hplace := (lt_iff_place (by decide) (isNumber_of_lt hpos).2).1 hpos
  have hzero : place 0.0 = at3 0 0 0 := by decide
  rw [hzero, place] at hplace
  have hunpack : a.toModel.unpack.isFinite = true := hfinite
  cases h : a.toModel.unpack with
  | notANumber =>
      rw [h] at hunpack
      exact Bool.noConfusion hunpack
  | infinity _ =>
      rw [h] at hunpack
      exact Bool.noConfusion hunpack
  | zero sign =>
      rw [h] at hplace
      exact absurd hplace (lt_irrefl _)
  | finite sign digits exponent hdigits =>
      cases sign with
      | positive => exact ⟨digits, exponent, hdigits, rfl⟩
      | negative =>
          rw [h] at hplace
          refine absurd hplace (not_lt.2 (at3_le_at3_iff.2 (Or.inl ?_)))
          decide

/-- A number less a finite one is a number. -/
theorem isNumber_sub (ha : IsNumber a) (hb : b.isFinite = true) : IsNumber (a - b) :=
  (isNaN_repack _).trans (isNaN_sub ha hb)

/-- A number divided by a finite one above zero is a number. -/
theorem isNumber_div (ha : IsNumber a) (hpos : 0.0 < b) (hb : b.isFinite = true) :
    IsNumber (a / b) := by
  obtain ⟨digits, exponent, hdigits, hunpack⟩ := exists_unpack_eq_finite hpos hb
  show (a / b).toModel.unpack.isNaN = false
  rw [unpack_div, hunpack, isNaN_repack]
  exact isNaN_div ha _ _ _ _

/-- A number times a finite one above zero is a number. -/
theorem isNumber_mul (ha : IsNumber a) (hpos : 0.0 < b) (hb : b.isFinite = true) :
    IsNumber (a * b) := by
  obtain ⟨digits, exponent, hdigits, hunpack⟩ := exists_unpack_eq_finite hpos hb
  show (a * b).toModel.unpack.isNaN = false
  rw [unpack_mul, hunpack, isNaN_repack]
  exact isNaN_mul ha _ _ _ _

/-- Only numbers have a difference that is a number. -/
theorem isNumber_of_sub (h : IsNumber (a - b)) : IsNumber a ∧ IsNumber b :=
  isNaN_of_isNaN_sub ((isNaN_repack _).symm.trans h)

theorem isNumber_of_div (h : IsNumber (a / b)) : IsNumber a ∧ IsNumber b :=
  isNaN_of_isNaN_div ((isNaN_repack _).symm.trans h)

theorem isNumber_of_mul (h : IsNumber (a * b)) : IsNumber a ∧ IsNumber b :=
  isNaN_of_isNaN_mul ((isNaN_repack _).symm.trans h)

/-- A difference in parts of its second number is one only where that is finite: an infinite one
leaves an infinite difference, and two infinite numbers have no quotient. -/
theorem isFinite_of_isNumber_sub_div (h : IsNumber ((a - b) / b)) : b.isFinite = true := by
  have hnan : (repack (UnpackedFloat.div Format.binary64
      (repack (UnpackedFloat.sub Format.binary64 a.toModel.unpack b.toModel.unpack))
      b.toModel.unpack)).isNaN = false := h
  rw [isNaN_repack] at hnan
  show b.toModel.unpack.isFinite = true
  cases hb : b.toModel.unpack with
  | notANumber =>
      rw [hb] at hnan
      exact absurd (isNaN_of_isNaN_div hnan).2 (by decide)
  | infinity sign =>
      rw [hb] at hnan
      rcases sub_infinity_cases Format.binary64 a.toModel.unpack sign with hsub | ⟨sign', hsub⟩
      · rw [hsub] at hnan
        exact absurd (isNaN_of_isNaN_div hnan).1 (by decide)
      · rw [hsub, repack_infinity] at hnan
        exact Bool.noConfusion hnan
  | zero _ => rfl
  | finite _ _ _ _ => rfl

/-- A finite number less itself is zero. -/
theorem unpack_sub_self (ha : a.isFinite = true) : (a - a).toModel.unpack = .zero .positive := by
  have hfinite : a.toModel.unpack.isFinite = true := ha
  rw [unpack_sub]
  cases h : a.toModel.unpack with
  | notANumber =>
      rw [h] at hfinite
      exact Bool.noConfusion hfinite
  | infinity _ =>
      rw [h] at hfinite
      exact Bool.noConfusion hfinite
  | zero sign => cases sign <;> rfl
  | finite sign digits exponent hpos =>
      delta UnpackedFloat.sub
      dsimp only
      rw [Int.sub_self]
      exact repack_zero .positive

end Telematics.FloatOrder
