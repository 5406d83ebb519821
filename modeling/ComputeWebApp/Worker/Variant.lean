import ComputeWebApp.Library.GeneralFormat
import ComputeWebApp.Library.Words
import Mathlib.Logic.Function.Iterate

/-!
# Variants

The parameter values of `src/process`: integers, decimals, strings and lists of variants, and a
variant without a value.  A `std::string` is a list of symbols, and a decimal is taken as an exact
value.

`operator==` calls two variants equal if and only if they are the same and have no variant without
a value in them (`equal_iff`).  It is symmetric and transitive, and equal variants are printed alike
(`equality_laws`).
-/

namespace ComputeWebApp.Worker

open GeneralFormat

inductive Variant
  | none
  | integer (value : ℤ)
  | decimal (value : Decimal)
  | string (value : Text)
  | variants (values : List Variant)

abbrev Variants := List Variant

namespace Variant

/-! ## The operators -/

mutual

/-- `operator==`; variants of different types are not equal, and one without a value is equal to
none. -/
def equal : Variant → Variant → Bool
  | integer value, integer value' => value = value'
  | decimal value, decimal value' => value = value'
  | string value, string value' => value = value'
  | variants values, variants values' =>
      if values.length ≠ values'.length then false else equalFrom true values values'
  | _, _ => false

/-- The loop over two lists of the same length, which does not stop at a difference. -/
def equalFrom (ok : Bool) : Variants → Variants → Bool
  | value :: values, value' :: values' => equalFrom (ok && value.equal value') values values'
  | _, _ => ok

end

/-- `operator==` of two lists. -/
def equalVariants (values values' : Variants) : Bool :=
  if values.length ≠ values'.length then false else equalFrom true values values'

mutual

/-- What `operator<<` writes. -/
def print : Variant → Text
  | none => ['!', '!', '!', ' ', 'T', 'y', 'p', 'e', ':', ':', 'N', 'o', 'n', 'e', ' ', '!', '!', '!']
  | integer value => (toString value).toList
  | decimal value => value.text
  | string value => value
  | variants [] => []
  | variants (value :: values) => value.print ++ printRest values

/-- The loop over the values after the first one. -/
def printRest : Variants → Text
  | [] => []
  | value :: values => ',' :: (value.print ++ printRest values)

end

mutual

/-- The copy constructor and the assignment: a new content, with copies of the values of a list. -/
def copy : Variant → Variant
  | none => none
  | integer value => integer value
  | decimal value => decimal value
  | string value => string value
  | variants values => variants (copyAll values)

def copyAll : Variants → Variants
  | [] => []
  | value :: values => value.copy :: copyAll values

end

/-- What occurs in a variant: itself, and what occurs in the values of a list. -/
inductive Within (inner : Variant) : Variant → Prop
  | here : Within inner inner
  | item {value : Variant} {values : Variants} :
      value ∈ values → Within inner value → Within inner (variants values)

mutual

/-- There is a value everywhere in it. -/
def Defined : Variant → Prop
  | none => False
  | variants values => AllDefined values
  | _ => True

def AllDefined : Variants → Prop
  | [] => True
  | value :: values => value.Defined ∧ AllDefined values

end

/-! ## Copies -/

mutual

theorem copy_eq : ∀ variant : Variant, variant.copy = variant
  | none => rfl
  | integer _ => rfl
  | decimal _ => rfl
  | string _ => rfl
  | variants values => congrArg variants (copyAll_eq values)

theorem copyAll_eq : ∀ values : Variants, copyAll values = values
  | [] => rfl
  | value :: values => congrArg₂ List.cons (copy_eq value) (copyAll_eq values)

end

/-- A chain of copies ends in the variant that it starts with. -/
theorem iterate_copy (copies : ℕ) (variant : Variant) : copy^[copies] variant = variant :=
  Function.iterate_fixed (copy_eq variant) copies

/-! ## Equality -/

mutual

theorem defined_iff : ∀ variant : Variant, variant.Defined ↔ ¬Within none variant
  | none => iff_of_false id (not_not.mpr .here)
  | integer _ => iff_of_true trivial nofun
  | decimal _ => iff_of_true trivial nofun
  | string _ => iff_of_true trivial nofun
  | variants values => by
      rw [Defined, allDefined_iff values]
      constructor
      · rintro hall (_ | ⟨hmem, hwithin⟩)
        exact hall _ hmem hwithin
      · exact fun hnone value hmem hwithin => hnone (.item hmem hwithin)

theorem allDefined_iff : ∀ values : Variants,
    AllDefined values ↔ ∀ value ∈ values, ¬Within none value
  | [] => iff_of_true trivial nofun
  | value :: values => by
      rw [AllDefined, defined_iff value, allDefined_iff values, List.forall_mem_cons]

end

mutual

/-- Two variants are equal if they are the same and have a value everywhere. -/
theorem equal_iff : ∀ variant other : Variant,
    variant.equal other = true ↔ variant = other ∧ variant.Defined
  | none, other => by
      cases other <;> exact iff_of_false Bool.false_ne_true And.right
  | integer value, other => by
      cases other <;> simp [equal, Defined]
  | decimal value, other => by
      cases other <;> simp [equal, Defined]
  | string value, other => by
      cases other <;> simp [equal, Defined]
  | variants values, other => by
      cases other with
      | variants values' =>
          rw [equal, Defined, variants.injEq]
          by_cases hlength : values.length = values'.length
          · rw [if_neg (not_not.mpr hlength), equalFrom_iff true values values' hlength]
            exact and_iff_right rfl
          · rw [if_pos hlength]
            refine iff_of_false Bool.false_ne_true ?_
            rintro ⟨rfl, -⟩
            exact hlength rfl
      | _ => simp [equal]

theorem equalFrom_iff : ∀ (ok : Bool) (values others : Variants), values.length = others.length →
    (equalFrom ok values others = true ↔ ok = true ∧ values = others ∧ AllDefined values)
  | ok, [], others, hlength => by
      obtain rfl := List.length_eq_zero_iff.mp hlength.symm
      simp [equalFrom, AllDefined]
  | ok, value :: values, others, hlength => by
      cases others with
      | nil => cases hlength
      | cons other others =>
          rw [equalFrom, equalFrom_iff _ values others (Nat.succ.inj hlength), Bool.and_eq_true,
            equal_iff value other, List.cons.injEq, AllDefined]
          tauto

end

theorem equal_comm (variant other : Variant) : variant.equal other = other.equal variant := by
  rw [Bool.eq_iff_iff, equal_iff, equal_iff]
  constructor
  · rintro ⟨rfl, hdefined⟩
    exact ⟨rfl, hdefined⟩
  · rintro ⟨rfl, hdefined⟩
    exact ⟨rfl, hdefined⟩

theorem equal_trans {first second third : Variant} (h : first.equal second = true)
    (h' : second.equal third = true) : first.equal third = true := by
  obtain ⟨rfl, -⟩ := (equal_iff first second).mp h
  exact h'

theorem print_eq {variant other : Variant} (h : variant.equal other = true) :
    variant.print = other.print := by
  rw [((equal_iff variant other).mp h).1]

theorem equalVariants_iff (values others : Variants) :
    equalVariants values others = true ↔ values.length = others.length ∧
      ∀ (i : ℕ) (h : i < values.length) (h' : i < others.length),
        (values.get ⟨i, h⟩).equal (others.get ⟨i, h'⟩) = true := by
  unfold equalVariants
  by_cases hlength : values.length = others.length
  · rw [if_neg (not_not.mpr hlength), equalFrom_iff true values others hlength, allDefined_iff]
    constructor
    · rintro ⟨-, rfl, hnone⟩
      refine ⟨rfl, fun i h _ => (equal_iff _ _).mpr ⟨rfl, (defined_iff _).mpr ?_⟩⟩
      exact hnone _ (List.get_mem values ⟨i, h⟩)
    · rintro ⟨-, hall⟩
      have hget (i : ℕ) (h : i < values.length) (h' : i < others.length) :=
        (equal_iff _ _).mp (hall i h h')
      refine ⟨rfl, List.ext_get hlength fun i h h' => (hget i h h').1, fun value hmem => ?_⟩
      obtain ⟨i, rfl⟩ := List.get_of_mem hmem
      exact (defined_iff _).mp (hget i i.2 (hlength ▸ i.2)).2
  · rw [if_pos hlength]
    exact iff_of_false Bool.false_ne_true fun hboth => hlength hboth.1

/-- **Equality.** -/
theorem equality_laws :
    (∀ variant other : Variant, variant.equal other = other.equal variant) ∧
    (∀ first second third : Variant, first.equal second = true → second.equal third = true →
      first.equal third = true) ∧
    (∀ (variant : Variant) (copies copies' : ℕ),
      (copy^[copies] variant).equal (copy^[copies'] variant) = true ↔ ¬Within none variant) ∧
    (∀ values others : Variants,
      (variants values).equal (variants others) = equalVariants values others) ∧
    (∀ values others : Variants, equalVariants values others = true ↔
      values.length = others.length ∧
        ∀ (i : ℕ) (h : i < values.length) (h' : i < others.length),
          (values.get ⟨i, h⟩).equal (others.get ⟨i, h'⟩) = true) ∧
    (∀ variant other : Variant, variant.equal other = true → variant.print = other.print) := by
  refine ⟨equal_comm, fun _ _ _ => equal_trans, fun variant copies copies' => ?_,
    fun _ _ => rfl, equalVariants_iff, fun _ _ => print_eq⟩
  rw [iterate_copy, iterate_copy, equal_iff, ← defined_iff]
  exact and_iff_right rfl

end Variant

end ComputeWebApp.Worker
