import ComputeWebApp.Library.NdArray
import Mathlib.Algebra.Order.Field.Basic
import Mathlib.Data.Int.ConditionallyCompleteOrder
import Mathlib.Data.Rat.Cast.Order
import Mathlib.Tactic.NormNum

/-!
# The scaling of an image

The head of `array_to_image`, in exact arithmetic: an array of integers is moved to the full scale
of `uint8` before it is converted.  An array is its shape and its elements in C order.

The guard looks at the maximum of the array and the division is by the maximum after the minimum
has been subtracted.  The scaling is well defined and full scale if and only if the minimum and the
maximum are the same exactly when the maximum is zero (`scale_iff`): a constant array divides by
zero, and an array with maximum zero keeps its negative elements.
-/

namespace ComputeWebApp.Api

/-! ## Moving an interval to a scale -/

section Rescaled

variable {K : Type*} [Field K] {top least greatest : K}

/-- The affine map that takes the interval from `least` to `greatest` to the one from 0 to `top`. -/
def rescaled (top least greatest value : K) : K := (value - least) * (top / (greatest - least))

@[simp] theorem rescaled_least : rescaled top least greatest least = 0 := by
  rw [rescaled, sub_self, zero_mul]

theorem rescaled_greatest (h : greatest ≠ least) : rescaled top least greatest greatest = top := by
  rw [rescaled, mul_div_cancel₀ top (sub_ne_zero.mpr h)]

variable [LinearOrder K] [IsStrictOrderedRing K]

theorem rescaled_strictMono (htop : 0 < top) (h : least < greatest) :
    StrictMono (rescaled top least greatest) := by
  intro first second hlt
  have hfactor : 0 < top / (greatest - least) := div_pos htop (sub_pos.mpr h)
  exact mul_lt_mul_of_pos_right (sub_lt_sub_right hlt least) hfactor

end Rescaled

/-! ## The code -/

/-- A division that has no result for the divisor zero. -/
def divide (dividend divisor : ℚ) : Except NdArray.Error ℚ :=
  if divisor = 0 then .error .divisionByZero else .ok (dividend / divisor)

/-- The head of `array_to_image`, up to `astype('u1')`. -/
def scale (array : NdArray ℤ) : Except NdArray.Error (NdArray ℚ) := do
  if (← array.amax) ≠ 0 then
    let array := array.map (Int.cast : ℤ → ℚ)
    let minimum ← array.amin
    let array := array.map (· - minimum)
    let factor ← divide 255 (← array.amax)
    return array.map (· * factor)
  else
    -- the integers stay as they are
    return array.map (Int.cast : ℤ → ℚ)

/-- The elements of `scaled` stand for those of `array` on the full scale of `uint8`. -/
structure FullScale (array : NdArray ℤ) (scaled : NdArray ℚ) : Prop where
  shape : scaled.shape = array.shape
  range : ∀ after ∈ scaled.values, 0 ≤ after ∧ after ≤ 255
  order : ∀ first ∈ array.values.zip scaled.values, ∀ second ∈ array.values.zip scaled.values,
    (first.2 ≤ second.2 ↔ first.1 ≤ second.1)
  least : ∀ least greatest, array.amin = .ok least → array.amax = .ok greatest → least ≠ greatest →
    ∀ pair ∈ array.values.zip scaled.values, pair.1 = least → pair.2 = 0
  greatest : ∀ least greatest, array.amin = .ok least → array.amax = .ok greatest →
    least ≠ greatest → ∀ pair ∈ array.values.zip scaled.values, pair.1 = greatest → pair.2 = 255

variable {array : NdArray ℤ} {least greatest : ℤ}

/-! ## The routes of an array -/

theorem least_le_greatest (hleast : array.amin = .ok least)
    (hgreatest : array.amax = .ok greatest) : least ≤ greatest :=
  (NdArray.amin_eq_ok_iff.mp hleast).2 (NdArray.amax_eq_ok_iff.mp hgreatest).1

theorem scale_of_zero (h : array.amax = .ok 0) :
    scale array = .ok (array.map (Int.cast : ℤ → ℚ)) := by
  simp only [scale, h]
  rfl

/-- The maximum that the code divides by is the distance of the extremes. -/
theorem scale_of_ne_zero (hleast : array.amin = .ok least) (hgreatest : array.amax = .ok greatest)
    (hne : greatest ≠ 0) :
    scale array = (divide 255 ((greatest : ℚ) - least)).map fun factor =>
      array.map fun value : ℤ => ((value : ℚ) - least) * factor := by
  have hcast : Monotone (Int.cast : ℤ → ℚ) := Int.cast_strictMono.monotone
  have hmin : (array.map (Int.cast : ℤ → ℚ)).amin = .ok (least : ℚ) :=
    NdArray.amin_map hcast hleast
  have hshift : Monotone (· - (least : ℚ)) := fun _ _ hle => sub_le_sub_right hle _
  have hmax : ((array.map (Int.cast : ℤ → ℚ)).map (· - (least : ℚ))).amax =
      .ok ((greatest : ℚ) - least) :=
    NdArray.amax_map hshift (NdArray.amax_map hcast hgreatest)
  simp only [scale, hgreatest, hmin, hmax, bind, Except.bind, hne, ne_eq, not_false_eq_true,
    if_true]
  cases divide 255 ((greatest : ℚ) - least) with
  | error error => rfl
  | ok factor =>
      simp only [Except.map, NdArray.map, List.map_map]
      rfl

/-- A constant array divides by zero. -/
theorem scale_of_constant (hleast : array.amin = .ok greatest)
    (hgreatest : array.amax = .ok greatest) (hne : greatest ≠ 0) :
    scale array = .error .divisionByZero := by
  rw [scale_of_ne_zero hleast hgreatest hne, sub_self]
  rfl

theorem scale_of_lt (hleast : array.amin = .ok least) (hgreatest : array.amax = .ok greatest)
    (hne : greatest ≠ 0) (hlt : least < greatest) :
    scale array = .ok (array.map fun value : ℤ => rescaled 255 (least : ℚ) greatest value) := by
  have hdistance : (greatest : ℚ) - least ≠ 0 := sub_ne_zero.mpr (Int.cast_injective.ne hlt.ne')
  rw [scale_of_ne_zero hleast hgreatest hne, divide, if_neg hdistance]
  rfl

theorem shape_of_scale {scaled : NdArray ℚ} (h : scale array = .ok scaled) :
    scaled.shape = array.shape := by
  by_cases hempty : array.values = []
  · have hmax : array.amax = .error .zeroSize := by rw [NdArray.amax, hempty, List.max?_nil]
    rw [scale, hmax] at h
    cases h
  · by_cases hzero : array.values.max hempty = 0
    · rw [scale_of_zero (hzero ▸ NdArray.amax_eq_max hempty)] at h
      cases h
      rfl
    · rw [scale_of_ne_zero (NdArray.amin_eq_min hempty) (NdArray.amax_eq_max hempty) hzero] at h
      cases hfactor : divide 255 ((array.values.max hempty : ℚ) - array.values.min hempty) with
      | error error =>
          rw [hfactor] at h
          cases h
      | ok factor =>
          rw [hfactor] at h
          cases h
          rfl

/-! ## The full scale -/

theorem mem_zip_map {α β : Type*} {f : α → β} {values : List α} {pair : α × β}
    (h : pair ∈ values.zip (values.map f)) : pair.1 ∈ values ∧ pair.2 = f pair.1 := by
  induction values with
  | nil => cases h
  | cons value values ih =>
      rcases List.mem_cons.mp h with rfl | htail
      · exact ⟨List.mem_cons_self, rfl⟩
      · exact ⟨List.mem_cons_of_mem _ (ih htail).1, (ih htail).2⟩

/-- A strictly monotone map that takes the extremes to those of the scale. -/
theorem FullScale.of_map {f : ℤ → ℚ} (hleast : array.amin = .ok least)
    (hgreatest : array.amax = .ok greatest) (hf : StrictMono f) (hbottom : f least = 0)
    (htop : f greatest ≤ 255) (hfull : least ≠ greatest → f greatest = 255) :
    FullScale array (array.map f) where
  shape := rfl
  range := by
    intro after hafter
    obtain ⟨value, hvalue, rfl⟩ := List.mem_map.mp hafter
    have hlow : least ≤ value := (NdArray.amin_eq_ok_iff.mp hleast).2 hvalue
    have hhigh : value ≤ greatest := (NdArray.amax_eq_ok_iff.mp hgreatest).2 hvalue
    constructor
    · calc
        0 = f least := hbottom.symm
        _ ≤ f value := hf.monotone hlow
    · calc
        f value ≤ f greatest := hf.monotone hhigh
        _ ≤ 255 := htop
  order := by
    intro first hfirst second hsecond
    rw [(mem_zip_map hfirst).2, (mem_zip_map hsecond).2]
    exact hf.le_iff_le
  least := by
    rintro other _ hother - - pair hpair rfl
    obtain rfl : least = pair.1 := Except.ok.inj (hleast.symm.trans hother)
    exact (mem_zip_map hpair).2.trans hbottom
  greatest := by
    rintro low other hlow hother hne pair hpair rfl
    obtain rfl : greatest = pair.1 := Except.ok.inj (hgreatest.symm.trans hother)
    obtain rfl : least = low := Except.ok.inj (hleast.symm.trans hlow)
    exact (mem_zip_map hpair).2.trans (hfull hne)

theorem fullScale_rescaled (hleast : array.amin = .ok least)
    (hgreatest : array.amax = .ok greatest) (hlt : least < greatest) :
    FullScale array (array.map fun value : ℤ => rescaled 255 (least : ℚ) greatest value) := by
  have hlt' : (least : ℚ) < greatest := Int.cast_strictMono hlt
  have hmono : StrictMono (rescaled 255 (least : ℚ) greatest) :=
    rescaled_strictMono (by norm_num) hlt'
  have htop : rescaled 255 (least : ℚ) greatest greatest = 255 := rescaled_greatest hlt'.ne'
  exact .of_map hleast hgreatest (hmono.comp Int.cast_strictMono) rescaled_least htop.le
    fun _ => htop

/-- An array that is not scaled is full scale only if it is zero. -/
theorem fullScale_cast_iff (hleast : array.amin = .ok least) (hgreatest : array.amax = .ok 0) :
    FullScale array (array.map (Int.cast : ℤ → ℚ)) ↔ least = 0 := by
  constructor
  · intro hfull
    have hmem : least ∈ array.values := (NdArray.amin_eq_ok_iff.mp hleast).1
    have hnonneg : (0 : ℚ) ≤ least := (hfull.range _ (List.mem_map_of_mem hmem)).1
    exact le_antisymm (least_le_greatest hleast hgreatest) (Int.cast_nonneg_iff.mp hnonneg)
  · rintro rfl
    refine .of_map hleast hgreatest Int.cast_strictMono Int.cast_zero ?_ fun hne => absurd rfl hne
    norm_num

theorem fullScale_iff (hleast : array.amin = .ok least) (hgreatest : array.amax = .ok greatest) :
    (∃ scaled, scale array = .ok scaled ∧ FullScale array scaled) ↔
      (least = greatest ↔ greatest = 0) := by
  by_cases hzero : greatest = 0
  · subst hzero
    rw [scale_of_zero hgreatest, iff_true_right rfl, ← fullScale_cast_iff hleast hgreatest]
    simp
  · rw [iff_false_right hzero]
    rcases (least_le_greatest hleast hgreatest).eq_or_lt with rfl | hlt
    · rw [scale_of_constant hleast hgreatest hzero]
      simp
    · rw [scale_of_lt hleast hgreatest hzero hlt]
      exact iff_of_true ⟨_, rfl, fullScale_rescaled hleast hgreatest hlt⟩ hlt.ne

/-- **The scaling of an image.** -/
theorem scale_iff (array : NdArray ℤ) (h : array.values ≠ []) :
    (∃ scaled, scale array = .ok scaled ∧ FullScale array scaled) ↔
      (array.values.min h = array.values.max h ↔ array.values.max h = 0) :=
  fullScale_iff (NdArray.amin_eq_min h) (NdArray.amax_eq_max h)

theorem scale_iff_signed :
    ([-1, 3] : List ℤ) ≠ [] ∧
      ∃ scaled, scale ⟨[2], [-1, 3], rfl⟩ = .ok scaled ∧ FullScale ⟨[2], [-1, 3], rfl⟩ scaled :=
  ⟨by decide, (scale_iff ⟨[2], [-1, 3], rfl⟩ (by decide)).mpr (by decide)⟩

/-- An image of one color divides by zero, and one with maximum zero keeps its negative element. -/
theorem scale_constant_and_negative :
    scale ⟨[1], [5], rfl⟩ = .error .divisionByZero ∧
      ∃ scaled, scale ⟨[2], [-5, 0], rfl⟩ = .ok scaled ∧ scaled.values = [-5, 0] ∧
        ¬FullScale ⟨[2], [-5, 0], rfl⟩ scaled := by
  have hfive : (5 : ℤ) ≠ 0 := by decide
  have hconstant : scale ⟨[1], [5], rfl⟩ = .error .divisionByZero := scale_of_constant rfl rfl hfive
  refine ⟨hconstant, _, scale_of_zero rfl, by simp, ?_⟩
  intro hfull
  have hrange : (0 : ℚ) ≤ -5 := (hfull.range (-5) (by simp)).1
  norm_num at hrange

end ComputeWebApp.Api
