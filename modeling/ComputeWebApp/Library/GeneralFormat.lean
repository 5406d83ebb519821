import Mathlib.Data.Int.Log
import Mathlib.Data.List.DropRight
import Mathlib.Data.Rat.Floor

/-!
# Numbers as a stream writes them

The text that a C++ stream writes for a floating-point number by default: the format `%g` with six
significant digits, rounded half to even.  A number is taken as an exact value, which is rational or
infinite.  A text has at least one symbol and is made of numeral symbols only.
-/

namespace GeneralFormat

abbrev Text := List Char

inductive Decimal
  | finite (value : ℚ)
  | infinity (negative : Bool)
  deriving DecidableEq, Repr

/-! ## Writing -/

def roundHalfEven (value : ℚ) : ℕ :=
  let whole := ⌊value⌋₊
  let rest := value - whole
  if rest < 1 / 2 then whole
  else if 1 / 2 < rest then whole + 1
  else if whole % 2 = 0 then whole
  else whole + 1

/-- Six digits and the exponent of the first one, of a positive number. -/
def scientific (value : ℚ) : ℕ × ℤ :=
  let exponent := Int.log 10 value
  let mantissa := roundHalfEven (value / 10 ^ (exponent - 5))
  if mantissa = 10 ^ 6 then (10 ^ 5, exponent + 1) else (mantissa, exponent)

/-- Zeros at the end of the fraction are left out, and so is the point without a fraction. -/
def withFraction (whole fraction : Text) : Text :=
  let fraction := fraction.rdropWhile (· = '0')
  if fraction = [] then whole else whole ++ '.' :: fraction

def exponentText (exponent : ℤ) : Text :=
  (if exponent < 0 then '-' else '+') :: List.leftpad 2 '0' (Nat.toDigits 10 exponent.natAbs)

def positiveText (value : ℚ) : Text :=
  let (mantissa, exponent) := scientific value
  let digits := Nat.toDigits 10 mantissa
  if exponent < -4 ∨ 6 ≤ exponent then
    withFraction (digits.take 1) (digits.drop 1) ++ 'e' :: exponentText exponent
  else if exponent < 0 then
    withFraction ['0'] (List.replicate ((-exponent).toNat - 1) '0' ++ digits)
  else
    withFraction (digits.take (exponent.toNat + 1)) (digits.drop (exponent.toNat + 1))

def Decimal.text : Decimal → Text
  | .finite value =>
      if value = 0 then ['0']
      else if value < 0 then '-' :: positiveText (-value)
      else positiveText value
  | .infinity negative => if negative then ['-', 'i', 'n', 'f'] else ['i', 'n', 'f']

/-! ## The symbols of a text -/

def isNumeral (c : Char) : Bool := c.isDigit || ['.', 'e', '+', '-', 'i', 'n', 'f'].contains c

theorem isNumeral_of_isDigit {c : Char} (h : c.isDigit = true) : isNumeral c = true := by
  rw [isNumeral, h, Bool.true_or]

theorem all_toDigits (n : ℕ) : ∀ c ∈ Nat.toDigits 10 n, isNumeral c = true :=
  fun _ hc => isNumeral_of_isDigit (Nat.isDigit_of_mem_toDigits (by decide) (by decide) hc)

theorem all_withFraction {whole fraction : Text} (hwhole : ∀ c ∈ whole, isNumeral c = true)
    (hfraction : ∀ c ∈ fraction, isNumeral c = true) :
    ∀ c ∈ withFraction whole fraction, isNumeral c = true := by
  intro c hc
  simp only [withFraction] at hc
  split at hc
  · exact hwhole c hc
  · rcases List.mem_append.mp hc with hc | hc
    · exact hwhole c hc
    · rcases List.mem_cons.mp hc with rfl | hc
      · rfl
      · exact hfraction c ((List.rdropWhile_prefix _ fraction).subset hc)

theorem withFraction_ne_nil {whole : Text} (h : whole ≠ []) (fraction : Text) :
    withFraction whole fraction ≠ [] := by
  simp only [withFraction]
  split
  · exact h
  · exact List.append_ne_nil_of_left_ne_nil h _

theorem all_exponentText (exponent : ℤ) : ∀ c ∈ exponentText exponent, isNumeral c = true := by
  intro c hc
  rcases List.mem_cons.mp hc with rfl | hc
  · split <;> rfl
  · rcases List.mem_append.mp hc with hc | hc
    · rw [(List.mem_replicate.mp hc).2]
      rfl
    · exact all_toDigits _ c hc

theorem all_positiveText (value : ℚ) : ∀ c ∈ positiveText value, isNumeral c = true := by
  have hdigits := all_toDigits (scientific value).1
  have htake (n : ℕ) : ∀ c ∈ (Nat.toDigits 10 (scientific value).1).take n, isNumeral c = true :=
    fun c hc => hdigits c (List.mem_of_mem_take hc)
  have hdrop (n : ℕ) : ∀ c ∈ (Nat.toDigits 10 (scientific value).1).drop n, isNumeral c = true :=
    fun c hc => hdigits c (List.mem_of_mem_drop hc)
  intro c hc
  simp only [positiveText] at hc
  split at hc
  · rcases List.mem_append.mp hc with hc | hc
    · exact all_withFraction (htake _) (hdrop _) c hc
    · rcases List.mem_cons.mp hc with rfl | hc
      · rfl
      · exact all_exponentText _ c hc
  · split at hc
    · refine all_withFraction (by simp [isNumeral]) (fun c hc => ?_) c hc
      rcases List.mem_append.mp hc with hc | hc
      · rw [(List.mem_replicate.mp hc).2]
        rfl
      · exact hdigits c hc
    · exact all_withFraction (htake _) (hdrop _) c hc

theorem positiveText_ne_nil (value : ℚ) : positiveText value ≠ [] := by
  have htake (n : ℕ) : (Nat.toDigits 10 (scientific value).1).take (n + 1) ≠ [] := by
    rw [ne_eq, List.take_eq_nil_iff, not_or]
    exact ⟨Nat.succ_ne_zero n, Nat.toDigits_ne_nil⟩
  simp only [positiveText]
  split
  · exact List.append_ne_nil_of_left_ne_nil (withFraction_ne_nil (htake 0) _) _
  · split
    · exact withFraction_ne_nil (List.cons_ne_nil _ _) _
    · exact withFraction_ne_nil (htake _) _

theorem Decimal.all_text (decimal : Decimal) : ∀ c ∈ decimal.text, isNumeral c = true := by
  intro c hc
  cases decimal with
  | finite value =>
      simp only [Decimal.text] at hc
      split at hc
      · rw [List.mem_singleton.mp hc]
        rfl
      · split at hc
        · rcases List.mem_cons.mp hc with rfl | hc
          · rfl
          · exact all_positiveText _ c hc
        · exact all_positiveText _ c hc
  | infinity negative =>
      have hall : (Decimal.infinity negative).text.all isNumeral = true := by
        cases negative <;> decide
      exact List.all_eq_true.mp hall c hc

theorem Decimal.text_ne_nil (decimal : Decimal) : decimal.text ≠ [] := by
  cases decimal with
  | finite value =>
      simp only [Decimal.text]
      split
      · exact List.cons_ne_nil _ _
      · split
        · exact List.cons_ne_nil _ _
        · exact positiveText_ne_nil value
  | infinity negative => cases negative <;> exact List.cons_ne_nil _ _

example : (Decimal.finite (1 / 1000000)).text = ['1', 'e', '-', '0', '6'] := by decide +kernel

end GeneralFormat
