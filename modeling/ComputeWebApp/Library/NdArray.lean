import Mathlib.Algebra.BigOperators.Group.List.Basic
import Mathlib.Algebra.Order.Ring.Nat
import Mathlib.Order.Bounds.Image

/-!
# Arrays of several dimensions

An array is its shape and its elements in C order, in which the last index is the fastest.  In
Fortran order the first index is the fastest, and `reshape` keeps the elements in that order.
-/

structure NdArray (α : Type*) where
  shape : List ℕ
  values : List α
  size : values.length = shape.prod
  deriving DecidableEq

namespace NdArray

inductive Error
  | zeroSize
  | divisionByZero
  | shapeMismatch
  deriving DecidableEq

variable {α β : Type*}

theorem ext_of_getElem? {first second : NdArray α} (hshape : first.shape = second.shape)
    (hvalues : ∀ p < first.shape.prod, first.values[p]? = second.values[p]?) : first = second := by
  obtain ⟨shape, values, hsize⟩ := first
  obtain ⟨shape', values', hsize'⟩ := second
  obtain rfl : shape = shape' := hshape
  obtain rfl : values = values' := by
    refine List.ext_getElem? fun p => ?_
    rcases lt_or_ge p shape.prod with hlt | hge
    · exact hvalues p hlt
    · rw [List.getElem?_eq_none (hsize.trans_le hge), List.getElem?_eq_none (hsize'.trans_le hge)]
  rfl

def map (f : α → β) (array : NdArray α) : NdArray β where
  shape := array.shape
  values := array.values.map f
  size := by rw [List.length_map, array.size]

@[simp] theorem map_shape (f : α → β) (array : NdArray α) : (array.map f).shape = array.shape := rfl

@[simp] theorem map_values (f : α → β) (array : NdArray α) :
    (array.map f).values = array.values.map f := rfl

theorem setOf_mem_map (f : α → β) (array : NdArray α) :
    {v | v ∈ (array.map f).values} = f '' {v | v ∈ array.values} := by
  ext v
  simp

/-! ## The extremes -/

/-- The maximum of the elements, which refuses an array without elements. -/
def amax [Max α] (array : NdArray α) : Except Error α :=
  match array.values.max? with
  | none => .error .zeroSize
  | some value => .ok value

def amin [Min α] (array : NdArray α) : Except Error α :=
  match array.values.min? with
  | none => .error .zeroSize
  | some value => .ok value

section Extremes

variable [LinearOrder α] [LinearOrder β] {array : NdArray α} {value : α} {f : α → β}

theorem amax_eq_ok_iff : array.amax = .ok value ↔ IsGreatest {v | v ∈ array.values} value := by
  have hmax : array.values.max? = some value ↔ IsGreatest {v | v ∈ array.values} value :=
    List.max?_eq_some_iff
  rw [← hmax, amax]
  cases array.values.max? <;> simp

theorem amin_eq_ok_iff : array.amin = .ok value ↔ IsLeast {v | v ∈ array.values} value := by
  have hmin : array.values.min? = some value ↔ IsLeast {v | v ∈ array.values} value :=
    List.min?_eq_some_iff
  rw [← hmin, amin]
  cases array.values.min? <;> simp

/-- A monotone function moves the maximum to the maximum. -/
theorem amax_map (hf : Monotone f) (h : array.amax = .ok value) :
    (array.map f).amax = .ok (f value) := by
  rw [amax_eq_ok_iff, setOf_mem_map]
  exact hf.map_isGreatest (amax_eq_ok_iff.mp h)

theorem amin_map (hf : Monotone f) (h : array.amin = .ok value) :
    (array.map f).amin = .ok (f value) := by
  rw [amin_eq_ok_iff, setOf_mem_map]
  exact hf.map_isLeast (amin_eq_ok_iff.mp h)

theorem amax_eq_max (h : array.values ≠ []) : array.amax = .ok (array.values.max h) := by
  rw [amax, List.max?_eq_some_max h]

theorem amin_eq_min (h : array.values ≠ []) : array.amin = .ok (array.values.min h) := by
  rw [amin, List.min?_eq_some_min h]

end Extremes

/-! ## Orders of the elements -/

/-- The place in Fortran order of the element at `place` in C order. -/
def toFortran : List ℕ → ℕ → ℕ
  | [], _ => 0
  | n :: shape, place => place / shape.prod + n * toFortran shape (place % shape.prod)

/-- The place in C order of the element at `place` in Fortran order. -/
def ofFortran : List ℕ → ℕ → ℕ
  | [], _ => 0
  | n :: shape, place => place % n * shape.prod + ofFortran shape (place / n)

section Orders

variable {n place : ℕ} {shape : List ℕ}

theorem prod_pos_of_lt (h : place < (n :: shape).prod) : 0 < n ∧ 0 < shape.prod := by
  rw [List.prod_cons] at h
  have hpos := Nat.zero_lt_of_lt h
  exact ⟨Nat.pos_of_mul_pos_right hpos, Nat.pos_of_mul_pos_left hpos⟩

theorem toFortran_lt (h : place < shape.prod) : toFortran shape place < shape.prod := by
  induction shape generalizing place with
  | nil => exact Nat.one_pos
  | cons n shape ih =>
      have hquotient : place / shape.prod < n := by
        rw [List.prod_cons, mul_comm] at h
        exact Nat.div_lt_of_lt_mul h
      have hrest : toFortran shape (place % shape.prod) < shape.prod :=
        ih (Nat.mod_lt _ (prod_pos_of_lt h).2)
      rw [toFortran, List.prod_cons]
      calc
        _ < n + n * toFortran shape (place % shape.prod) := Nat.add_lt_add_right hquotient _
        _ = n * (toFortran shape (place % shape.prod) + 1) := by rw [Nat.mul_succ, Nat.add_comm]
        _ ≤ n * shape.prod := Nat.mul_le_mul_left n hrest

theorem ofFortran_lt (h : place < shape.prod) : ofFortran shape place < shape.prod := by
  induction shape generalizing place with
  | nil => exact Nat.one_pos
  | cons n shape ih =>
      have hremainder : place % n < n := Nat.mod_lt _ (prod_pos_of_lt h).1
      have hrest : ofFortran shape (place / n) < shape.prod := by
        rw [List.prod_cons] at h
        exact ih (Nat.div_lt_of_lt_mul h)
      rw [ofFortran, List.prod_cons]
      calc
        _ < place % n * shape.prod + shape.prod := Nat.add_lt_add_left hrest _
        _ = (place % n + 1) * shape.prod := (Nat.succ_mul _ _).symm
        _ ≤ n * shape.prod := Nat.mul_le_mul_right _ hremainder

theorem ofFortran_toFortran (h : place < shape.prod) :
    ofFortran shape (toFortran shape place) = place := by
  induction shape generalizing place with
  | nil => exact (Nat.lt_one_iff.mp h).symm
  | cons n shape ih =>
      obtain ⟨hn, hprod⟩ := prod_pos_of_lt h
      have hquotient : place / shape.prod < n := by
        rw [List.prod_cons, mul_comm] at h
        exact Nat.div_lt_of_lt_mul h
      rw [toFortran, ofFortran, Nat.add_mul_mod_self_left, Nat.mod_eq_of_lt hquotient,
        Nat.add_mul_div_left _ _ hn, Nat.div_eq_of_lt hquotient, zero_add,
        ih (Nat.mod_lt _ hprod), Nat.div_add_mod']

/-- A last index that is always zero changes neither order. -/
theorem toFortran_append_one (h : place < shape.prod) :
    toFortran (shape ++ [1]) place = toFortran shape place := by
  induction shape generalizing place with
  | nil =>
      obtain rfl := Nat.lt_one_iff.mp h
      rfl
  | cons n shape ih =>
      rw [List.cons_append, toFortran, toFortran, List.prod_append, List.prod_singleton, mul_one,
        ih (Nat.mod_lt _ (prod_pos_of_lt h).2)]

end Orders

/-! ## Another shape -/

/-- The elements in another shape, in the same Fortran order. -/
def reshape (array : NdArray α) (shape : List ℕ) : Except Error (NdArray α) :=
  if h : shape.prod = array.shape.prod then
    .ok {
      shape
      values := List.ofFn fun place : Fin shape.prod =>
        array.values.get ⟨ofFortran array.shape (toFortran shape place), by
          rw [array.size]
          exact ofFortran_lt (h ▸ toFortran_lt place.isLt)⟩
      size := List.length_ofFn }
  else .error .shapeMismatch

theorem exists_reshape (array : NdArray α) {shape : List ℕ}
    (h : shape.prod = array.shape.prod) :
    ∃ reshaped, array.reshape shape = .ok reshaped ∧ reshaped.shape = shape ∧
      ∀ place < shape.prod, reshaped.values[place]? =
        array.values[ofFortran array.shape (toFortran shape place)]? := by
  refine ⟨_, dif_pos h, rfl, fun place hplace => ?_⟩
  have hbound : ofFortran array.shape (toFortran shape place) < array.values.length := by
    rw [array.size]
    exact ofFortran_lt (h ▸ toFortran_lt hplace)
  rw [List.getElem?_ofFn, dif_pos hplace, List.getElem?_eq_getElem hbound]
  rfl

/-- A new last index leaves the elements where they are. -/
theorem reshape_append_one (array : NdArray α) :
    ∃ reshaped, array.reshape (array.shape ++ [1]) = .ok reshaped ∧
      reshaped.shape = array.shape ++ [1] ∧ reshaped.values = array.values := by
  have hprod : (array.shape ++ [1]).prod = array.shape.prod := by
    rw [List.prod_append, List.prod_singleton, mul_one]
  obtain ⟨reshaped, hreshape, hshape, hvalues⟩ := array.exists_reshape hprod
  refine ⟨reshaped, hreshape, hshape, List.ext_getElem? fun place => ?_⟩
  rcases lt_or_ge place array.shape.prod with hlt | hge
  · rw [hvalues place (hprod ▸ hlt), toFortran_append_one hlt, ofFortran_toFortran hlt]
  · rw [List.getElem?_eq_none, List.getElem?_eq_none (array.size.trans_le hge)]
    rw [reshaped.size, hshape, hprod]
    exact hge

end NdArray
