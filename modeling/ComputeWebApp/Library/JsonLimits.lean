import ComputeWebApp.Library.JsonWriter
import ComputeWebApp.Library.PythonLimits

/-!
# JSON within the limits of an interpreter

Python's `json` reads and writes what `loads` and `dump` say as far as the interpreter goes along.
Reading, an integer of too many digits raises a `ValueError` and an array or object that is nested
too deep a `RecursionError`, where the text has it, be the rest of the text JSON or not
(`State.load`).  Writing, both end what is written as something foreign does (`Value.cut`).
-/

namespace Json

open Python (Limits Within)

/-! ## Reading -/

inductive LoadError
  | jsonDecodeError
  | valueError
  | recursionError
  deriving DecidableEq, Repr

/-- The digits of the integer that is made of a number that goes no further than this part.  With a
fraction or an exponent it is a float; one that is not complete is no part of the number. -/
def NumberPart.integerDigits (part : NumberPart) (text : Text) : ℕ :=
  match part with
  | .fraction | .exponentDigits => 0
  | .exponent | .sign => if '.' ∈ text then 0 else text.countP Char.isDigit
  | .minus | .zero | .integer | .point => text.countP Char.isDigit

namespace State

variable (limits : Limits)

/-- Before the next symbol, or at the end of the text, an integer is complete that `int` does not
read. -/
def overlong (s : State) (c : Option Char) : Bool :=
  match s.mode with
  | .number part text =>
      (c.bind part.next).isNone && !decide (Within limits.strDigits (part.integerDigits text))
  | _ => false

/-- An array or object has been opened that is nested too deep. -/
def tooDeep (s : State) : Bool :=
  match s.mode with
  | .firstItem | .firstKey => !decide (Within limits.loadDepth (s.stack.length + 1))
  | _ => false

/-- One symbol. -/
def load (s : State) (c : Char) : Except LoadError State :=
  if s.overlong limits (some c) then .error .valueError
  else
    match s.step c with
    | none => .error .jsonDecodeError
    | some next => if next.tooDeep limits then .error .recursionError else .ok next

/-- The end of the text. -/
def loadEnd (s : State) : Except LoadError Value :=
  if s.overlong limits none then .error .valueError
  else
    match s.finish with
    | none => .error .jsonDecodeError
    | some value => .ok value

end State

def loadRun (limits : Limits) (s : State) (text : Text) : Except LoadError State :=
  text.foldlM (State.load limits) s

/-- `json.loads`, with its exceptions. -/
def load (limits : Limits) (text : Text) : Except LoadError Value :=
  loadRun limits initial text >>= State.loadEnd limits

section Load

variable {limits : Limits} {s t : State}

theorem loadRun_append (s : State) (text more : Text) :
    loadRun limits s (text ++ more) = loadRun limits s text >>= fun t => loadRun limits t more :=
  List.foldlM_append

/-- A symbol that is read is one of JSON. -/
theorem step_of_load {c : Char} (h : s.load limits c = .ok t) : s.step c = some t := by
  unfold State.load at h
  split at h
  · cases h
  · split at h
    · cases h
    · rename_i next hnext
      split at h
      · cases h
      · cases h
        exact hnext

theorem run_of_loadRun {text : Text} (h : loadRun limits s text = .ok t) : run s text = some t := by
  induction text generalizing s with
  | nil =>
      cases h
      rfl
  | cons c text ih =>
      rw [loadRun, List.foldlM_cons] at h
      cases hload : s.load limits c with
      | error e =>
          rw [hload] at h
          cases h
      | ok next =>
          rw [hload] at h
          rw [run, List.foldlM_cons, step_of_load hload]
          exact ih h

/-- What is read is the value of the text. -/
theorem loads_of_load {text : Text} {value : Value} (h : load limits text = .ok value) :
    loads text = some value := by
  unfold load at h
  cases hrun : loadRun limits initial text with
  | error e =>
      rw [hrun] at h
      cases h
  | ok s =>
      rw [hrun] at h
      replace h : s.loadEnd limits = .ok value := h
      rw [loads, run_of_loadRun hrun]
      unfold State.loadEnd at h
      split at h
      · cases h
      · split at h
        · cases h
        · rename_i hfinish
          cases h
          exact hfinish

theorem load_eq_ok_iff {text : Text} {value value' : Value} (h : loads text = some value) :
    load limits text = .ok value' ↔ value' = value ∧ load limits text = .ok value := by
  constructor
  · intro hload
    obtain rfl := Option.some.inj ((loads_of_load hload).symm.trans h)
    exact ⟨rfl, hload⟩
  · rintro ⟨rfl, hload⟩
    exact hload

/-- A text that is not JSON is not read. -/
theorem not_load {text : Text} (h : loads text = none) (value : Value) :
    load limits text ≠ .ok value := by
  intro hload
  rw [loads_of_load hload] at h
  cases h

/-! White space around a value makes no difference. -/

theorem loadRun_value_blanks {stack : List Frame} {text : Text} (h : text.all isBlank = true) :
    loadRun limits ⟨.value, stack⟩ text = .ok ⟨.value, stack⟩ := by
  induction text with
  | nil => rfl
  | cons c text ih =>
      rw [List.all_cons, Bool.and_eq_true] at h
      have hload : State.load limits ⟨.value, stack⟩ c = .ok ⟨.value, stack⟩ := by
        simp [State.load, State.overlong, State.step, h.1, State.tooDeep]
      rw [loadRun, List.foldlM_cons, hload]
      exact ih h.2

theorem loadRun_done_blanks {value : Value} {text : Text} (h : text.all isBlank = true) :
    loadRun limits ⟨.done value, []⟩ text = .ok ⟨.done value, []⟩ := by
  induction text with
  | nil => rfl
  | cons c text ih =>
      rw [List.all_cons, Bool.and_eq_true] at h
      have hload : State.load limits ⟨.done value, []⟩ c = .ok ⟨.done value, []⟩ := by
        simp [State.load, State.overlong, State.step, State.after, h.1, State.tooDeep]
      rw [loadRun, List.foldlM_cons, hload]
      exact ih h.2

theorem load_blanks {text : Text} (h : text.all isBlank = true) :
    load limits text = .error .jsonDecodeError := by
  rw [load, initial, loadRun_value_blanks h]
  rfl

theorem load_blanks_append {blanks : Text} (h : blanks.all isBlank = true) (text : Text) :
    load limits (blanks ++ text) = load limits text := by
  rw [load, loadRun_append, initial, loadRun_value_blanks h]
  rfl

theorem load_append_blanks {text blanks : Text} {value : Value} (hload : loads text = some value)
    (hvalue : value.isContainer = true) (h : blanks.all isBlank = true) :
    load limits (text ++ blanks) = load limits text := by
  rw [load, loadRun_append, load]
  cases hrun : loadRun limits initial text with
  | error e => rfl
  | ok s =>
      have hfinish : s.finish = some value := by
        rw [loads, run_of_loadRun hrun] at hload
        exact hload
      obtain rfl | ⟨part, number, -, rfl⟩ := State.finish_cases hfinish
      · exact congrArg (· >>= State.loadEnd limits) (loadRun_done_blanks h)
      · cases hvalue

end Load

/-- Without limits everything that is JSON is read. -/
theorem load_unlimited (text : Text) :
    load {} text = match loads text with
      | none => .error .jsonDecodeError
      | some value => .ok value := by
  have hoverlong : ∀ (s : State) (c : Option Char), s.overlong {} c = false := by
    intro s c
    unfold State.overlong
    split
    · simp [Within]
    · rfl
  have hdeep : ∀ s : State, s.tooDeep {} = false := by
    intro s
    unfold State.tooDeep
    split <;> simp [Within]
  have hrun : ∀ s : State, loadRun {} s text = match run s text with
      | none => .error .jsonDecodeError
      | some t => .ok t := by
    induction text with
    | nil => exact fun _ => rfl
    | cons c text ih =>
        intro s
        rw [loadRun, List.foldlM_cons, run, List.foldlM_cons, State.load, hoverlong]
        cases hstep : s.step c with
        | none => rfl
        | some next =>
            simp only [Bool.false_eq_true, if_false, hdeep]
            exact ih next
  rw [load, hrun, loads]
  cases run initial text with
  | none => rfl
  | some s =>
      change s.loadEnd {} = _
      rw [State.loadEnd, hoverlong, if_neg Bool.false_ne_true]
      rfl

/-! ## Writing -/

/-- The digits of a number that is an integer. -/
def integerDigits (text : Text) : ℕ :=
  if text.all (fun c => c.isDigit || c = '-') then text.countP Char.isDigit else 0

mutual

/-- How many arrays and objects are inside one another. -/
def Value.depth : Value → ℕ
  | .array items => itemsDepth items + 1
  | .object members => membersDepth members + 1
  | _ => 0

def itemsDepth : List Value → ℕ
  | [] => 0
  | item :: items => max item.depth (itemsDepth items)

def membersDepth : List (Str × Value) → ℕ
  | [] => 0
  | (_, value) :: members => max value.depth (membersDepth members)

end

section Write

variable (limits : Limits)

mutual

/-- `str` writes every integer. -/
def Value.shortNumbers : Value → Bool
  | .number text => decide (Within limits.strDigits (integerDigits text))
  | .array items => itemsShortNumbers items
  | .object members => membersShortNumbers members
  | _ => true

def itemsShortNumbers : List Value → Bool
  | [] => true
  | item :: items => item.shortNumbers && itemsShortNumbers items

def membersShortNumbers : List (Str × Value) → Bool
  | [] => true
  | (_, value) :: members => value.shortNumbers && membersShortNumbers members

end

mutual

/-- The value, inside so many arrays and objects, with something foreign in place of what
`json.dump` stops at. -/
def Value.cut (depth : ℕ) : Value → Value
  | .number text =>
      if Within limits.strDigits (integerDigits text) then .number text else .foreign
  | .array items =>
      if Within limits.dumpDepth (depth + 1) then .array (cutItems (depth + 1) items) else .foreign
  | .object members =>
      if Within limits.dumpDepth (depth + 1) then .object (cutMembers (depth + 1) members)
      else .foreign
  | value => value

def cutItems (depth : ℕ) : List Value → List Value
  | [] => []
  | item :: items => item.cut depth :: cutItems depth items

def cutMembers (depth : ℕ) : List (Str × Value) → List (Str × Value)
  | [] => []
  | (key, value) :: members => (key, value.cut depth) :: cutMembers depth members

end

/-- `json.dump` writes all of it. -/
def Value.Writable (value : Value) : Prop :=
  value.isJson = true ∧ Within limits.dumpDepth value.depth ∧ value.shortNumbers limits = true

end Write

mutual

theorem shortNumbers_unlimited : ∀ value : Value, value.shortNumbers {} = true
  | .null => rfl
  | .bool _ => rfl
  | .string _ => rfl
  | .foreign => rfl
  | .number _ => by simp [Value.shortNumbers, Within]
  | .array items => by rw [Value.shortNumbers, itemsShortNumbers_unlimited items]
  | .object members => by rw [Value.shortNumbers, membersShortNumbers_unlimited members]

theorem itemsShortNumbers_unlimited : ∀ items : List Value, itemsShortNumbers {} items = true
  | [] => rfl
  | item :: items => by
      rw [itemsShortNumbers, shortNumbers_unlimited item, itemsShortNumbers_unlimited items]
      rfl

theorem membersShortNumbers_unlimited :
    ∀ members : List (Str × Value), membersShortNumbers {} members = true
  | [] => rfl
  | (_, value) :: members => by
      rw [membersShortNumbers, shortNumbers_unlimited value, membersShortNumbers_unlimited members]
      rfl

end

theorem within_add_max {limit : Option ℕ} {depth m n : ℕ} :
    Within limit (depth + max m n) ↔ Within limit (depth + m) ∧ Within limit (depth + n) := by
  constructor
  · exact fun h => ⟨h.mono (by omega), h.mono (by omega)⟩
  · rintro ⟨hm, hn⟩
    rcases Nat.le_total m n with hle | hle
    · rwa [Nat.max_eq_right hle]
    · rwa [Nat.max_eq_left hle]

section Cut

variable {limits : Limits}

mutual

theorem isJson_cut {depth : ℕ} (hdepth : Within limits.dumpDepth depth) : ∀ value : Value,
    (value.cut limits depth).isJson = true ↔ value.isJson = true ∧
      Within limits.dumpDepth (depth + value.depth) ∧ value.shortNumbers limits = true
  | .null => by simp [Value.cut, Value.isJson, Value.depth, Value.shortNumbers, hdepth]
  | .bool _ => by simp [Value.cut, Value.isJson, Value.depth, Value.shortNumbers, hdepth]
  | .string _ => by simp [Value.cut, Value.isJson, Value.depth, Value.shortNumbers, hdepth]
  | .foreign => by simp [Value.cut, Value.isJson]
  | .number text => by
      rw [Value.cut]
      split <;> simp [Value.isJson, Value.depth, Value.shortNumbers, *]
  | .array items => by
      rw [Value.cut]
      by_cases hnext : Within limits.dumpDepth (depth + 1)
      · rw [if_pos hnext, Value.isJson, isJson_cutItems hnext items, Value.isJson, Value.depth,
          Value.shortNumbers, Nat.add_right_comm, Nat.add_assoc depth]
      · rw [if_neg hnext]
        refine iff_of_false (by simp [Value.isJson]) fun h => hnext (h.2.1.mono ?_)
        rw [Value.depth]
        omega
  | .object members => by
      rw [Value.cut]
      by_cases hnext : Within limits.dumpDepth (depth + 1)
      · rw [if_pos hnext, Value.isJson, isJson_cutMembers hnext members, Value.isJson, Value.depth,
          Value.shortNumbers, Nat.add_right_comm, Nat.add_assoc depth]
      · rw [if_neg hnext]
        refine iff_of_false (by simp [Value.isJson]) fun h => hnext (h.2.1.mono ?_)
        rw [Value.depth]
        omega

theorem isJson_cutItems {depth : ℕ} (hdepth : Within limits.dumpDepth depth) :
    ∀ items : List Value, itemsAreJson (cutItems limits depth items) = true ↔
      itemsAreJson items = true ∧ Within limits.dumpDepth (depth + itemsDepth items) ∧
        itemsShortNumbers limits items = true
  | [] => by simp [cutItems, itemsAreJson, itemsDepth, itemsShortNumbers, hdepth]
  | item :: items => by
      simp only [cutItems, itemsAreJson, itemsDepth, itemsShortNumbers, Bool.and_eq_true,
        isJson_cut hdepth item, isJson_cutItems hdepth items, within_add_max]
      tauto

theorem isJson_cutMembers {depth : ℕ} (hdepth : Within limits.dumpDepth depth) :
    ∀ members : List (Str × Value), membersAreJson (cutMembers limits depth members) = true ↔
      membersAreJson members = true ∧ Within limits.dumpDepth (depth + membersDepth members) ∧
        membersShortNumbers limits members = true
  | [] => by simp [cutMembers, membersAreJson, membersDepth, membersShortNumbers, hdepth]
  | (key, value) :: members => by
      simp only [cutMembers, membersAreJson, membersDepth, membersShortNumbers, Bool.and_eq_true,
        isJson_cut hdepth value, isJson_cutMembers hdepth members, within_add_max]
      tauto

end

mutual

/-- Nothing is cut from a value of which everything is written. -/
theorem cut_eq {depth : ℕ} : ∀ {value : Value}, (value.cut limits depth).isJson = true →
    value.cut limits depth = value
  | .null, _ => rfl
  | .bool _, _ => rfl
  | .string _, _ => rfl
  | .foreign, _ => rfl
  | .number text, h => by
      rw [Value.cut] at h ⊢
      split at h
      · rw [if_pos (by assumption)]
      · cases h
  | .array items, h => by
      rw [Value.cut] at h ⊢
      split at h
      · rw [if_pos (by assumption), cutItems_eq h]
      · cases h
  | .object members, h => by
      rw [Value.cut] at h ⊢
      split at h
      · rw [if_pos (by assumption), cutMembers_eq h]
      · cases h

theorem cutItems_eq {depth : ℕ} : ∀ {items : List Value},
    itemsAreJson (cutItems limits depth items) = true → cutItems limits depth items = items
  | [], _ => rfl
  | item :: items, h => by
      rw [cutItems, itemsAreJson, Bool.and_eq_true] at h
      rw [cutItems, cut_eq h.1, cutItems_eq h.2]

theorem cutMembers_eq {depth : ℕ} : ∀ {members : List (Str × Value)},
    membersAreJson (cutMembers limits depth members) = true →
      cutMembers limits depth members = members
  | [], _ => rfl
  | (key, value) :: members, h => by
      rw [cutMembers, membersAreJson, Bool.and_eq_true] at h
      rw [cutMembers, cut_eq h.1, cutMembers_eq h.2]

end

theorem isJson_cut_zero {value : Value} :
    (value.cut limits 0).isJson = true ↔ value.Writable limits := by
  rw [isJson_cut (Python.within_zero _), Nat.zero_add, Value.Writable]

theorem cut_zero {value : Value} (h : value.Writable limits) : value.cut limits 0 = value :=
  cut_eq (isJson_cut_zero.mpr h)

end Cut

end Json
