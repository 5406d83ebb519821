import Mathlib.Data.Nat.Notation
import Mathlib.Data.List.Induction
import Mathlib.Tactic.Common
import ComputeWebApp.Library.PythonLimits
import ComputeWebApp.Upload.H5File

/-!
# Lists of groups in a request

`extract_integer_list_from_string` reads a text such as `1,2,5-10,5`.  It splits the text at the
commas and each item at the dashes, asks `isdigit` of the parts and hands them to `int`.

The two do not agree about Unicode: `isdigit` also accepts digits that are no decimal digits (`²`,
`①`), for which `int` raises a `ValueError`.  And the interpreter does not read a number of too many
digits, nor make a list that is too long.  So the parser is right about a text unless the first item
that is not of the form `d` or `d-d` is made of such digits, or an item before it is over the limits
of the interpreter (`extract_right_iff`).
-/

namespace ComputeWebApp.Api

/-! ## Digits -/

/-- The zeros of the decimal digits of Unicode 13; the other nine digits follow each of them. -/
def decimalZeros : List ℕ :=
  [0x30, 0x660, 0x6F0, 0x7C0, 0x966, 0x9E6, 0xA66, 0xAE6, 0xB66, 0xBE6, 0xC66, 0xCE6, 0xD66, 0xDE6,
    0xE50, 0xED0, 0xF20, 0x1040, 0x1090, 0x17E0, 0x1810, 0x1946, 0x19D0, 0x1A80, 0x1A90, 0x1B50,
    0x1BB0, 0x1C40, 0x1C50, 0xA620, 0xA8D0, 0xA900, 0xA9D0, 0xA9F0, 0xAA50, 0xABF0, 0xFF10, 0x104A0,
    0x10D30, 0x11066, 0x110F0, 0x11136, 0x111D0, 0x112F0, 0x11450, 0x114D0, 0x11650, 0x116C0,
    0x11730, 0x118E0, 0x11950, 0x11C50, 0x11D50, 0x11DA0, 0x16A60, 0x16B50, 0x1D7CE, 0x1D7D8,
    0x1D7E2, 0x1D7EC, 0x1D7F6, 0x1E140, 0x1E2F0, 0x1E950, 0x1FBF0]

/-- The first and the last of each run of digits that are not decimal: superscripts, subscripts,
circled digits and others. -/
def otherDigits : List (ℕ × ℕ) :=
  [(0xB2, 0xB3), (0xB9, 0xB9), (0x1369, 0x1371), (0x19DA, 0x19DA), (0x2070, 0x2070),
    (0x2074, 0x2079), (0x2080, 0x2089), (0x2460, 0x2468), (0x2474, 0x247C), (0x2488, 0x2490),
    (0x24EA, 0x24EA), (0x24F5, 0x24FD), (0x24FF, 0x24FF), (0x2776, 0x277E), (0x2780, 0x2788),
    (0x278A, 0x2792), (0x10A40, 0x10A43), (0x10E60, 0x10E68), (0x11052, 0x1105A),
    (0x1F100, 0x1F10A)]

/-- The value of a decimal digit. -/
def decimalDigit (code : ℕ) : Option ℕ :=
  (decimalZeros.find? fun first => first ≤ code && code < first + 10).map fun first => code - first

def isDecimal (c : Char) : Bool := (decimalDigit c.toNat).isSome

def isOtherDigit (code : ℕ) : Bool :=
  otherDigits.any fun run => run.1 ≤ code && code ≤ run.2

/-- `str.isdigit` -/
def isdigit (text : List Char) : Bool :=
  !text.isEmpty && text.all fun c => isDecimal c || isOtherDigit c.toNat

/-- The number that a text of decimal digits writes. -/
def decimalValue (text : List Char) : ℕ :=
  text.foldl (fun value c => 10 * value + (decimalDigit c.toNat).getD 0) 0

/-! ## The parser -/

/-- The exceptions of the parser: the one it defines, with its message, and those of Python. -/
inductive ListError
  | extractionError (message : String)
  | builtin (exception : Exn)
  deriving DecidableEq, Repr

def badIntegerList : ListError := .extractionError "Bad integer list"

variable (limits : Python.Limits)

/-- `int` of a text without sign, blanks or underscores. -/
def int (text : List Char) : Except ListError ℕ :=
  if (!text.isEmpty && text.all isDecimal) = true ∧
      Python.Within limits.strDigits text.length then
    .ok (decimalValue text)
  else .error (.builtin .valueError)

/-- `integer_list.append(integer)` -/
def append (integerList : List ℕ) (integer : ℕ) : Except ListError (List ℕ) :=
  if Python.Within limits.listLength (integerList.length + 1) then .ok (integerList ++ [integer])
  else .error (.builtin .memoryError)

/-- `integer_list.extend(range(first, first + length))`, which asks for the length first. -/
def extend (integerList : List ℕ) (first length : ℕ) : Except ListError (List ℕ) :=
  if Python.maxsize < length then .error (.builtin .overflowError)
  else if Python.Within limits.listLength (integerList.length + length) then
    .ok (integerList ++ List.range' first length)
  else .error (.builtin .memoryError)

/-- The body of the loop: the integers of one more item. -/
def extendList (integerList : List ℕ) (group : List Char) : Except ListError (List ℕ) :=
  match group.splitOn '-' with
  | [first, last] =>
      if !isdigit first then .error badIntegerList
      else if !isdigit last then .error badIntegerList
      else do
        let first ← int limits first
        let last ← int limits last
        extend limits integerList first (last + 1 - first)
  | [single] =>
      if !isdigit single then .error badIntegerList
      else do
        let single ← int limits single
        append limits integerList single
  | _ => .error badIntegerList

def extractGroups (groups : List (List Char)) : Except ListError (List ℕ) :=
  groups.foldlM (extendList limits) []

def extractIntegerListFromString (listString : String) : Except ListError (List ℕ) :=
  extractGroups limits (listString.toList.splitOn ',')

example : extractIntegerListFromString Python.cpython "1,2,5-7,5" = .ok [1, 2, 5, 6, 7, 5] := by
  decide

/-! ## The lists that are meant -/

/-- A number as it is written. -/
structure Numeral where
  text : List Char
  nonempty : text ≠ []
  decimal : ∀ c ∈ text, isDecimal c = true

def Numeral.value (numeral : Numeral) : ℕ := decimalValue numeral.text

/-- An item of a list: a number, or the numbers from one to another. -/
inductive GroupItem
  | single (numeral : Numeral)
  | span (first last : Numeral)

namespace GroupItem

def text : GroupItem → List Char
  | single numeral => numeral.text
  | span first last => first.text ++ '-' :: last.text

def integers : GroupItem → List ℕ
  | single numeral => [numeral.value]
  | span first last => List.range' first.value (last.value + 1 - first.value)

def numerals : GroupItem → List Numeral
  | single numeral => [numeral]
  | span first last => [first, last]

end GroupItem

/-- The text is a list of these items, with commas between them. -/
def Spells (listString : String) (items : List GroupItem) : Prop :=
  items ≠ [] ∧ listString.toList = [','].intercalate (items.map GroupItem.text)

/-- **The parser is right about a text**: it returns the integers of a list, and refuses a text
that is none. -/
def ExtractsRight (listString : String) : Prop :=
  (∀ integers, extractIntegerListFromString limits listString = .ok integers ↔
    ∃ items, Spells listString items ∧ integers = items.flatMap GroupItem.integers) ∧
  ((¬∃ items, Spells listString items) →
    ∃ message, extractIntegerListFromString limits listString = .error (.extractionError message))

/-- The interpreter reads each number of the items, and makes each range and the list of their
integers. -/
structure FitsLimits (items : List GroupItem) : Prop where
  digits : ∀ item ∈ items, ∀ numeral ∈ item.numerals,
    Python.Within limits.strDigits numeral.text.length
  ranges : ∀ item ∈ items, item.integers.length ≤ Python.maxsize
  memory : Python.Within limits.listLength (items.flatMap GroupItem.integers).length

/-! ## Numerals -/

variable {limits : Python.Limits}

namespace Numeral

variable (numeral : Numeral)

theorem int_text (hdigits : Python.Within limits.strDigits numeral.text.length) :
    int limits numeral.text = .ok numeral.value := by
  have hall : numeral.text.all isDecimal = true := List.all_eq_true.mpr numeral.decimal
  simp [int, hall, numeral.nonempty, value, hdigits]

theorem int_text_of_long (hdigits : ¬Python.Within limits.strDigits numeral.text.length) :
    int limits numeral.text = .error (.builtin .valueError) :=
  if_neg fun h => hdigits h.2

theorem isdigit_text : isdigit numeral.text = true := by
  have hall : (numeral.text.all fun c => isDecimal c || isOtherDigit c.toNat) = true := by
    refine List.all_eq_true.mpr fun c hc => ?_
    rw [numeral.decimal c hc, Bool.true_or]
  simp [isdigit, hall, numeral.nonempty]

theorem not_mem_text {c : Char} (hc : isDecimal c = false) : c ∉ numeral.text := by
  intro hmem
  rw [numeral.decimal c hmem] at hc
  cases hc

end Numeral

theorem isDecimal_dash : isDecimal '-' = false := by decide

theorem isDecimal_comma : isDecimal ',' = false := by decide

/-- What `isdigit` accepts is a number, or has a digit that is not decimal. -/
theorem numeral_or_other {text : List Char} (h : isdigit text = true) :
    (∃ numeral : Numeral, numeral.text = text) ∨ ∃ c ∈ text, isDecimal c = false := by
  have hne : text ≠ [] := by
    rintro rfl
    cases h
  by_cases hall : ∀ c ∈ text, isDecimal c = true
  · exact .inl ⟨⟨text, hne, hall⟩, rfl⟩
  · push Not at hall
    obtain ⟨c, hc, hother⟩ := hall
    exact .inr ⟨c, hc, by simpa using hother⟩

theorem int_of_other {text : List Char} (h : ∃ c ∈ text, isDecimal c = false) :
    int limits text = .error (.builtin .valueError) := by
  obtain ⟨c, hc, hother⟩ := h
  have hall : text.all isDecimal = false := List.all_eq_false.mpr ⟨c, hc, by simp [hother]⟩
  simp [int, hall]

/-- `int` raises nothing but a `ValueError`. -/
theorem int_cases (limits : Python.Limits) (text : List Char) :
    (∃ value, int limits text = .ok value) ∨
      int limits text = .error (.builtin .valueError) := by
  unfold int
  split
  · exact .inl ⟨_, rfl⟩
  · exact .inr rfl

/-! ## One item -/

/-- One or two parts that `isdigit` accepts, with a digit among them that is not decimal. -/
def Misread (group : List Char) : Prop :=
  (group.splitOn '-').length ≤ 2 ∧ (∀ part ∈ group.splitOn '-', isdigit part = true) ∧
    ∃ part ∈ group.splitOn '-', ∃ c ∈ part, isDecimal c = false

theorem splitOn_single (numeral : Numeral) :
    (GroupItem.single numeral).text.splitOn '-' = [numeral.text] :=
  List.splitOn_eq_singleton (numeral.not_mem_text isDecimal_dash)

theorem splitOn_span (first last : Numeral) :
    (GroupItem.span first last).text.splitOn '-' = [first.text, last.text] := by
  rw [GroupItem.text,
    List.splitOn_append_cons_self_of_not_mem (first.not_mem_text isDecimal_dash),
    List.splitOn_eq_singleton (last.not_mem_text isDecimal_dash)]

theorem not_misread (item : GroupItem) : ¬Misread item.text := by
  rintro ⟨-, -, part, hpart, c, hc, hother⟩
  cases item with
  | single numeral =>
      rw [splitOn_single, List.mem_singleton] at hpart
      exact numeral.not_mem_text hother (hpart ▸ hc)
  | span first last =>
      rw [splitOn_span, List.mem_cons, List.mem_singleton] at hpart
      rcases hpart with rfl | rfl
      · exact first.not_mem_text hother hc
      · exact last.not_mem_text hother hc

theorem extendList_of_single (integerList : List ℕ) {group single : List Char}
    (hparts : group.splitOn '-' = [single]) (hdigit : isdigit single = true) :
    extendList limits integerList group = int limits single >>= append limits integerList := by
  rw [extendList, hparts]
  simp only [hdigit, Bool.not_true, Bool.false_eq_true, if_false]

theorem extendList_of_span (integerList : List ℕ) {group first last : List Char}
    (hparts : group.splitOn '-' = [first, last]) (hfirst : isdigit first = true)
    (hlast : isdigit last = true) :
    extendList limits integerList group = int limits first >>= fun a =>
      int limits last >>= fun b => extend limits integerList a (b + 1 - a) := by
  rw [extendList, hparts]
  simp only [hfirst, hlast, Bool.not_true, Bool.false_eq_true, if_false]

/-- The integers of an item are added, when the interpreter can. -/
theorem extendList_text {integerList : List ℕ} {item : GroupItem}
    (hdigits : ∀ numeral ∈ item.numerals, Python.Within limits.strDigits numeral.text.length)
    (hrange : item.integers.length ≤ Python.maxsize)
    (hmemory : Python.Within limits.listLength (integerList.length + item.integers.length)) :
    extendList limits integerList item.text = .ok (integerList ++ item.integers) := by
  cases item with
  | single numeral =>
      rw [extendList_of_single _ (splitOn_single numeral) numeral.isdigit_text,
        numeral.int_text (hdigits _ List.mem_cons_self)]
      exact if_pos hmemory
  | span first last =>
      simp only [GroupItem.integers, List.length_range'] at hrange hmemory
      rw [extendList_of_span _ (splitOn_span first last) first.isdigit_text last.isdigit_text,
        first.int_text (hdigits _ List.mem_cons_self),
        last.int_text (hdigits _ (List.mem_cons_of_mem _ List.mem_cons_self))]
      exact (if_neg (Nat.not_lt.mpr hrange)).trans (if_pos hmemory)

/-- An item over the limits raises an exception of the interpreter. -/
theorem extendList_over {integerList : List ℕ} {item : GroupItem}
    (h : ¬((∀ numeral ∈ item.numerals, Python.Within limits.strDigits numeral.text.length) ∧
      item.integers.length ≤ Python.maxsize ∧
      Python.Within limits.listLength (integerList.length + item.integers.length))) :
    ∃ exception, extendList limits integerList item.text = .error (.builtin exception) := by
  cases item with
  | single numeral =>
      rw [extendList_of_single _ (splitOn_single numeral) numeral.isdigit_text]
      by_cases hdigits : Python.Within limits.strDigits numeral.text.length
      · have hmemory : ¬Python.Within limits.listLength (integerList.length + 1) := by
          intro hmemory
          have hnumeral : ∀ other ∈ (GroupItem.single numeral).numerals,
              Python.Within limits.strDigits other.text.length := by
            simpa [GroupItem.numerals] using hdigits
          exact h ⟨hnumeral, by simp [GroupItem.integers, Python.maxsize], hmemory⟩
        rw [numeral.int_text hdigits]
        exact ⟨_, if_neg hmemory⟩
      · rw [numeral.int_text_of_long hdigits]
        exact ⟨_, rfl⟩
  | span first last =>
      rw [extendList_of_span _ (splitOn_span first last) first.isdigit_text last.isdigit_text]
      by_cases hfirst : Python.Within limits.strDigits first.text.length
      swap
      · rw [first.int_text_of_long hfirst]
        exact ⟨_, rfl⟩
      rw [first.int_text hfirst]
      by_cases hlast : Python.Within limits.strDigits last.text.length
      swap
      · rw [last.int_text_of_long hlast]
        exact ⟨_, rfl⟩
      rw [last.int_text hlast]
      by_cases hrange : Python.maxsize < last.value + 1 - first.value
      · exact ⟨_, if_pos hrange⟩
      have hmemory : ¬Python.Within limits.listLength
          (integerList.length + (last.value + 1 - first.value)) := by
        intro hmemory
        refine h ⟨by simp [GroupItem.numerals, hfirst, hlast], ?_, ?_⟩
        · rw [GroupItem.integers, List.length_range']
          omega
        · rw [GroupItem.integers, List.length_range']
          exact hmemory
      exact ⟨_, (if_neg hrange).trans (if_neg hmemory)⟩

/-- What the loop does with text that is no item. -/
theorem extendList_cases (limits : Python.Limits) (group : List Char) :
    (∃ item : GroupItem, item.text = group) ∨
      (Misread group ∧
        ∀ integerList, extendList limits integerList group = .error (.builtin .valueError)) ∨
      (¬Misread group ∧
        ∀ integerList, extendList limits integerList group = .error badIntegerList) := by
  have hjoin : ['-'].intercalate (group.splitOn '-') = group := List.intercalate_splitOn '-'
  have hrefused : ∀ {part : List Char}, part ∈ group.splitOn '-' → isdigit part = false →
      ¬Misread group := by
    intro part hpart hdigit hmisread
    rw [hmisread.2.1 part hpart] at hdigit
    cases hdigit
  match hparts : group.splitOn '-' with
  | [] => exact absurd hparts (List.splitOn_ne_nil '-' group)
  | [single] =>
      rw [hparts, List.intercalate_singleton] at hjoin
      subst hjoin
      cases hdigit : isdigit single with
      | false =>
          refine .inr (.inr ⟨hrefused (by simp [hparts]) hdigit, fun integerList => ?_⟩)
          simp [extendList, hparts, hdigit]
      | true =>
          rcases numeral_or_other hdigit with ⟨numeral, htext⟩ | hother
          · exact .inl ⟨.single numeral, htext⟩
          · -- `isdigit` admits digits that `int` does not
            refine .inr (.inl ⟨⟨?_, ?_, ?_⟩, fun integerList => ?_⟩)
            · simp [hparts]
            · simpa [hparts] using hdigit
            · simpa [hparts] using hother
            · rw [extendList_of_single _ hparts hdigit, int_of_other hother]
              rfl
  | [first, last] =>
      rw [hparts] at hjoin
      have hgroup : first ++ '-' :: last = group := by simpa using hjoin
      cases hfirst : isdigit first with
      | false =>
          refine .inr (.inr ⟨hrefused (by simp [hparts]) hfirst, fun integerList => ?_⟩)
          simp [extendList, hparts, hfirst]
      | true =>
      cases hlast : isdigit last with
      | false =>
          refine .inr (.inr ⟨hrefused (by simp [hparts]) hlast, fun integerList => ?_⟩)
          simp [extendList, hparts, hfirst, hlast]
      | true =>
          have hdigits : ∀ part ∈ group.splitOn '-', isdigit part = true := by
            simp [hparts, hfirst, hlast]
          rcases numeral_or_other hfirst with ⟨firstNumeral, htext⟩ | hother
          · rcases numeral_or_other hlast with ⟨lastNumeral, hlasttext⟩ | hother
            · refine .inl ⟨.span firstNumeral lastNumeral, ?_⟩
              rw [GroupItem.text, htext, hlasttext, hgroup]
            · refine .inr (.inl ⟨⟨by simp [hparts], hdigits, last, by simp [hparts], hother⟩,
                fun integerList => ?_⟩)
              rw [extendList_of_span _ hparts hfirst hlast, int_of_other hother]
              rcases int_cases limits first with ⟨value, hvalue⟩ | herror
              · rw [hvalue]
                rfl
              · rw [herror]
                rfl
          · refine .inr (.inl ⟨⟨by simp [hparts], hdigits, first, by simp [hparts], hother⟩,
              fun integerList => ?_⟩)
            rw [extendList_of_span _ hparts hfirst hlast, int_of_other hother]
            rfl
  | first :: second :: third :: rest =>
      -- more than one hyphen
      refine .inr (.inr ⟨fun hmisread => ?_, fun integerList => ?_⟩)
      · have hlength := hmisread.1
        rw [hparts] at hlength
        simp at hlength
      · rw [extendList, hparts]

/-! ## The list -/

theorem fitsLimits_concat {items : List GroupItem} {item : GroupItem} :
    FitsLimits limits (items ++ [item]) ↔
      FitsLimits limits items ∧
        (∀ numeral ∈ item.numerals, Python.Within limits.strDigits numeral.text.length) ∧
        item.integers.length ≤ Python.maxsize ∧
        Python.Within limits.listLength
          ((items.flatMap GroupItem.integers).length + item.integers.length) := by
  have hlength : ((items ++ [item]).flatMap GroupItem.integers).length =
      (items.flatMap GroupItem.integers).length + item.integers.length := by simp
  constructor
  · rintro ⟨hdigits, hranges, hmemory⟩
    rw [hlength] at hmemory
    have hlast : item ∈ items ++ [item] := List.mem_append_right _ List.mem_cons_self
    exact ⟨⟨fun other hother => hdigits other (List.mem_append_left _ hother),
      fun other hother => hranges other (List.mem_append_left _ hother),
      hmemory.mono (Nat.le_add_right _ _)⟩, hdigits item hlast, hranges item hlast, hmemory⟩
  · rintro ⟨⟨hdigits, hranges, -⟩, hitem, hrange, hmemory⟩
    refine ⟨fun other hother => ?_, fun other hother => ?_, by rw [hlength]; exact hmemory⟩
    · rcases List.mem_append.mp hother with hother | hother
      · exact hdigits other hother
      · rw [List.mem_singleton.mp hother]
        exact hitem
    · rcases List.mem_append.mp hother with hother | hother
      · exact hranges other hother
      · rw [List.mem_singleton.mp hother]
        exact hrange

/-- The loop gets through the items at the front of a list when the interpreter can make their
integers, and else raises an exception of the interpreter. -/
theorem extractGroups_front (limits : Python.Limits) (items : List GroupItem)
    (rest : List (List Char)) :
    FitsLimits limits items ∧ extractGroups limits (items.map GroupItem.text ++ rest) =
        rest.foldlM (extendList limits) (items.flatMap GroupItem.integers) ∨
      ¬FitsLimits limits items ∧ ∃ exception,
        extractGroups limits (items.map GroupItem.text ++ rest) = .error (.builtin exception) := by
  induction items using List.reverseRecOn generalizing rest with
  | nil =>
      exact .inl ⟨⟨by simp, by simp, Python.within_zero _⟩, rfl⟩
  | append_singleton items item ih =>
      have happend : (items ++ [item]).map GroupItem.text ++ rest =
          items.map GroupItem.text ++ item.text :: rest := by simp
      rw [happend, fitsLimits_concat]
      rcases ih (item.text :: rest) with ⟨hfits, hloop⟩ | ⟨hover, herror⟩
      · rw [hloop, List.foldlM_cons]
        by_cases hitem : (∀ numeral ∈ item.numerals,
            Python.Within limits.strDigits numeral.text.length) ∧
            item.integers.length ≤ Python.maxsize ∧ Python.Within limits.listLength
              ((items.flatMap GroupItem.integers).length + item.integers.length)
        · refine .inl ⟨⟨hfits, hitem⟩, ?_⟩
          rw [extendList_text hitem.1 hitem.2.1 hitem.2.2, List.flatMap_append,
            List.flatMap_singleton]
          rfl
        · obtain ⟨exception, hraised⟩ := extendList_over hitem
          refine .inr ⟨fun h => hitem h.2, exception, ?_⟩
          rw [hraised]
          rfl
      · exact .inr ⟨fun h => hover h.1, herror⟩

theorem items_or_first (groups : List (List Char)) :
    (∃ items : List GroupItem, groups = items.map GroupItem.text) ∨
      ∃ (items : List GroupItem) (group : List Char) (after : List (List Char)),
        groups = items.map GroupItem.text ++ group :: after ∧
          ¬∃ item : GroupItem, item.text = group := by
  induction groups with
  | nil => exact .inl ⟨[], rfl⟩
  | cons group groups ih =>
      by_cases hitem : ∃ item : GroupItem, item.text = group
      · obtain ⟨item, rfl⟩ := hitem
        rcases ih with ⟨items, rfl⟩ | ⟨items, other, after, rfl, hother⟩
        · exact .inl ⟨item :: items, rfl⟩
        · exact .inr ⟨item :: items, other, after, rfl, hother⟩
      · exact .inr ⟨[], group, groups, rfl, hitem⟩

theorem comma_not_mem (item : GroupItem) : ',' ∉ item.text := by
  cases item with
  | single numeral => exact numeral.not_mem_text isDecimal_comma
  | span first last =>
      simp [GroupItem.text, first.not_mem_text isDecimal_comma, last.not_mem_text isDecimal_comma]

theorem spells_iff {listString : String} {items : List GroupItem} :
    Spells listString items ↔ listString.toList.splitOn ',' = items.map GroupItem.text := by
  constructor
  · rintro ⟨hne, htext⟩
    rw [htext]
    refine List.splitOn_intercalate ',' (fun text hmem => ?_) (by simpa using hne)
    obtain ⟨item, -, rfl⟩ := List.mem_map.mp hmem
    exact comma_not_mem item
  · intro hsplit
    refine ⟨?_, ?_⟩
    · rintro rfl
      exact List.splitOn_ne_nil ',' _ hsplit
    · rw [← hsplit, List.intercalate_splitOn]

/-- Among the first texts between commas are items over the limits of the interpreter. -/
def OverLimits (limits : Python.Limits) (listString : String) : Prop :=
  ∃ (items : List GroupItem) (after : List (List Char)),
    listString.toList.splitOn ',' = items.map GroupItem.text ++ after ∧ ¬FitsLimits limits items

/-- The first text between commas that is no item is misread. -/
def MisreadFirst (listString : String) : Prop :=
  ∃ (items : List GroupItem) (group : List Char) (after : List (List Char)),
    listString.toList.splitOn ',' = items.map GroupItem.text ++ group :: after ∧ Misread group

theorem extract_of_spells {listString : String} {items : List GroupItem}
    (h : Spells listString items) (hlimits : ¬OverLimits limits listString) :
    extractIntegerListFromString limits listString = .ok (items.flatMap GroupItem.integers) := by
  have hsplit : listString.toList.splitOn ',' = items.map GroupItem.text ++ [] := by
    rw [spells_iff.mp h, List.append_nil]
  rw [extractIntegerListFromString, hsplit]
  rcases extractGroups_front limits items [] with ⟨-, hloop⟩ | ⟨hover, -⟩
  · exact hloop
  · exact absurd ⟨items, [], hsplit, hover⟩ hlimits

theorem OverLimits.extract {listString : String} (h : OverLimits limits listString) :
    ∃ exception, extractIntegerListFromString limits listString = .error (.builtin exception) := by
  obtain ⟨items, after, hsplit, hover⟩ := h
  rw [extractIntegerListFromString, hsplit]
  rcases extractGroups_front limits items after with ⟨hfits, -⟩ | ⟨-, herror⟩
  · exact absurd hfits hover
  · exact herror

theorem MisreadFirst.extract {listString : String} (h : MisreadFirst listString)
    (limits : Python.Limits) :
    ∃ exception, extractIntegerListFromString limits listString = .error (.builtin exception) := by
  obtain ⟨items, group, after, hsplit, hmisread⟩ := h
  rw [extractIntegerListFromString, hsplit]
  rcases extractGroups_front limits items (group :: after) with
    ⟨-, hloop⟩ | ⟨-, herror⟩
  · rcases extendList_cases limits group with ⟨item, hitem⟩ | ⟨-, herror⟩ | ⟨hother, -⟩
    · exact absurd hmisread (hitem ▸ not_misread item)
    · refine ⟨.valueError, ?_⟩
      rw [hloop, List.foldlM_cons, herror]
      rfl
    · exact absurd hmisread hother
  · exact herror

/-- What the parser does with any text. -/
theorem extract_cases (limits : Python.Limits) (listString : String) :
    (∃ items, Spells listString items) ∨ OverLimits limits listString ∨ MisreadFirst listString ∨
      extractIntegerListFromString limits listString = .error badIntegerList := by
  rcases items_or_first (listString.toList.splitOn ',') with
    ⟨items, hsplit⟩ | ⟨items, group, after, hsplit, hnone⟩
  · exact .inl ⟨items, spells_iff.mpr hsplit⟩
  · rcases extendList_cases limits group with hitem | ⟨hmisread, -⟩ | ⟨-, herror⟩
    · exact absurd hitem hnone
    · exact .inr (.inr (.inl ⟨items, group, after, hsplit, hmisread⟩))
    · rcases extractGroups_front limits items (group :: after) with
        ⟨-, hloop⟩ | ⟨hover, -⟩
      · refine .inr (.inr (.inr ?_))
        rw [extractIntegerListFromString, hsplit, hloop, List.foldlM_cons, herror]
        rfl
      · exact .inr (.inl ⟨items, group :: after, hsplit, hover⟩)

/-- A text for which the parser raises an exception of the interpreter is not read right. -/
theorem not_extractsRight {listString : String} {exception : Exn}
    (h : extractIntegerListFromString limits listString = .error (.builtin exception)) :
    ¬ExtractsRight limits listString := by
  rintro ⟨hlists, hrefuses⟩
  by_cases hspells : ∃ items, Spells listString items
  · obtain ⟨items, hspells⟩ := hspells
    have hok := (hlists _).mpr ⟨items, hspells, rfl⟩
    rw [h] at hok
    cases hok
  · obtain ⟨message, hrefused⟩ := hrefuses hspells
    rw [h] at hrefused
    cases hrefused

/-- **The parser is right** exactly about the texts whose first texts between commas are items
within the limits of the interpreter, and of which the first one that is no item has no digit, in a
place of a number, that `isdigit` accepts and `int` does not. -/
theorem extract_right_iff (limits : Python.Limits) (listString : String) :
    ExtractsRight limits listString ↔
      ¬OverLimits limits listString ∧ ¬MisreadFirst listString := by
  constructor
  · intro hright
    refine ⟨fun hover => ?_, fun hmisread => ?_⟩
    · obtain ⟨exception, herror⟩ := hover.extract
      exact not_extractsRight herror hright
    · obtain ⟨exception, herror⟩ := hmisread.extract limits
      exact not_extractsRight herror hright
  · rintro ⟨hlimits, hfirst⟩
    rcases extract_cases limits listString with ⟨items, hspells⟩ | hover | hmisread | herror
    · have hok := extract_of_spells hspells hlimits
      refine ⟨fun integers => ⟨fun hintegers => ?_, ?_⟩, fun hnone => absurd ⟨items, hspells⟩ hnone⟩
      · exact ⟨items, hspells, Except.ok.inj (hintegers.symm.trans hok)⟩
      · rintro ⟨others, hothers, rfl⟩
        exact extract_of_spells hothers hlimits
    · exact absurd hover hlimits
    · exact absurd hmisread hfirst
    · refine ⟨fun integers => ⟨fun hintegers => ?_, ?_⟩, fun _ => ⟨_, herror⟩⟩
      · rw [herror] at hintegers
        cases hintegers
      · rintro ⟨items, hspells, rfl⟩
        exact extract_of_spells hspells hlimits

/-- The text `²` is no list of groups, and the parser raises a `ValueError`. -/
theorem extract_superscript_two : ¬ExtractsRight Python.cpython "²" := by
  have hraises : extractIntegerListFromString Python.cpython "²" =
      .error (.builtin .valueError) := by
    decide
  exact not_extractsRight hraises

end ComputeWebApp.Api
