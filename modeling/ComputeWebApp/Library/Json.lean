import Mathlib.Data.Int.Notation
import Mathlib.Data.Nat.Notation
import Mathlib.Tactic.Common

/-!
# JSON texts

A decoder of JSON that reads a text symbol by symbol: a machine with a mode, for what may come
next, and a stack of the arrays and objects that are open.  The decoder is strict about strings and
accepts `NaN`, `Infinity` and `-Infinity`.  Numbers are kept as they are written.
-/

namespace Json

abbrev Text := List Char

/-- A string, by its code points.  Surrogates may be among them. -/
abbrev Str := List ℕ

/-- The data of JSON.  `foreign` is anything else that a program can put among them, which has no
JSON text. -/
inductive Value
  | null
  | bool (value : Bool)
  | number (text : Text)
  | string (codes : Str)
  | array (items : List Value)
  | object (members : List (Str × Value))
  | foreign

def Value.isContainer : Value → Bool
  | array _ => true
  | object _ => true
  | _ => false

/-- An object has one member for each key, the last one that is written. -/
def setMember (members : List (Str × Value)) (key : Str) (value : Value) : List (Str × Value) :=
  if members.any fun member => member.1 = key then
    members.map fun member => if member.1 = key then (key, value) else member
  else members ++ [(key, value)]

/-! ## The machine -/

/-- An array or object that waits for an item, with the ones before it. -/
inductive Frame
  | array (items : List Value)
  | object (members : List (Str × Value)) (key : Str)

/-- How far a number is written. -/
inductive NumberPart
  | minus
  | zero
  | integer
  | point
  | fraction
  | exponent
  | sign
  | exponentDigits
  deriving DecidableEq, Repr

/-- The values that are written as a word. -/
inductive Word
  | null
  | true
  | false
  | nan
  | infinity
  | minusInfinity

namespace Word

def letters : Word → Text
  | null => ['n', 'u', 'l', 'l']
  | true => ['t', 'r', 'u', 'e']
  | false => ['f', 'a', 'l', 's', 'e']
  | nan => ['N', 'a', 'N']
  | infinity => ['I', 'n', 'f', 'i', 'n', 'i', 't', 'y']
  | minusInfinity => ['-', 'I', 'n', 'f', 'i', 'n', 'i', 't', 'y']

def toValue : Word → Value
  | null => .null
  | true => .bool Bool.true
  | false => .bool Bool.false
  | nan => .number nan.letters
  | infinity => .number infinity.letters
  | minusInfinity => .number minusInfinity.letters

end Word

/-- What a string is for: a value, or the key of a member. -/
inductive Target
  | value
  | key (members : List (Str × Value))

/-- What may come next.  In the modes of an array or object itself, the open one is in the mode, and
in the modes of a value on the stack.  In `hex` another `left` digits follow the ones of `unit`, and
of a word `count` letters are there. -/
inductive Mode
  | value
  | firstItem
  | nextItem (items : List Value)
  | firstKey
  | key (members : List (Str × Value))
  | colon (members : List (Str × Value)) (key : Str)
  | nextMember (members : List (Str × Value))
  | string (target : Target) (body : Str)
  | escape (target : Target) (body : Str)
  | hex (target : Target) (body : Str) (left unit : ℕ)
  | number (part : NumberPart) (text : Text)
  | word (word : Word) (count : ℕ)
  | done (value : Value)

structure State where
  mode : Mode
  stack : List Frame

def isBlank (c : Char) : Bool := c = ' ' || c = '\t' || c = '\n' || c = '\r'

def hexDigit (c : Char) : Option ℕ :=
  if c.isDigit then some (c.toNat - '0'.toNat)
  else if 'a'.toNat ≤ c.toNat && c.toNat ≤ 'f'.toNat then some (c.toNat - 'a'.toNat + 10)
  else if 'A'.toNat ≤ c.toNat && c.toNat ≤ 'F'.toNat then some (c.toNat - 'A'.toNat + 10)
  else none

/-- The code point that a symbol after a backslash stands for. -/
def escapeCode (c : Char) : Option ℕ :=
  if c = '"' then some 0x22
  else if c = '\\' then some 0x5C
  else if c = '/' then some 0x2F
  else if c = 'b' then some 0x08
  else if c = 'f' then some 0x0C
  else if c = 'n' then some 0x0A
  else if c = 'r' then some 0x0D
  else if c = 't' then some 0x09
  else none

def isHighSurrogate (code : ℕ) : Bool := 0xD800 ≤ code && code ≤ 0xDBFF

def isLowSurrogate (code : ℕ) : Bool := 0xDC00 ≤ code && code ≤ 0xDFFF

def joinSurrogates (high low : ℕ) : ℕ := 0x10000 + (high - 0xD800) * 0x400 + (low - 0xDC00)

/-- A low surrogate is joined with the high surrogate before it. -/
def pushUnit (body : Str) (unit : ℕ) : Str :=
  match body.getLast? with
  | some last =>
      if isHighSurrogate last && isLowSurrogate unit then
        body.dropLast ++ [joinSurrogates last unit]
      else body ++ [unit]
  | none => body ++ [unit]

namespace NumberPart

/-- A number may end here. -/
def isComplete : NumberPart → Bool
  | zero => true
  | integer => true
  | fraction => true
  | exponentDigits => true
  | _ => false

/-- How a number goes on. -/
def next (part : NumberPart) (c : Char) : Option NumberPart :=
  match part with
  | minus => if c = '0' then some zero else if c.isDigit then some integer else none
  | zero => if c = '.' then some point else if c = 'e' || c = 'E' then some exponent else none
  | integer =>
      if c.isDigit then some integer
      else if c = '.' then some point
      else if c = 'e' || c = 'E' then some exponent
      else none
  | point => if c.isDigit then some fraction else none
  | fraction =>
      if c.isDigit then some fraction else if c = 'e' || c = 'E' then some exponent else none
  | exponent =>
      if c.isDigit then some exponentDigits else if c = '+' || c = '-' then some sign else none
  | sign => if c.isDigit then some exponentDigits else none
  | exponentDigits => if c.isDigit then some exponentDigits else none

end NumberPart

namespace State

/-- A value is complete. -/
def complete (stack : List Frame) (value : Value) : State :=
  match stack with
  | [] => ⟨.done value, []⟩
  | .array items :: stack => ⟨.nextItem (items ++ [value]), stack⟩
  | .object members key :: stack => ⟨.nextMember (setMember members key value), stack⟩

/-- A string is complete. -/
def completeString (target : Target) (body : Str) (stack : List Frame) : State :=
  match target with
  | .value => complete stack (.string body)
  | .key members => ⟨.colon members body, stack⟩

/-- The first symbol of a number or a word. -/
def scalar (c : Char) : Option Mode :=
  if c = '-' then some (.number .minus [c])
  else if c = '0' then some (.number .zero [c])
  else if c.isDigit then some (.number .integer [c])
  else if c = 'n' then some (.word .null 1)
  else if c = 't' then some (.word .true 1)
  else if c = 'f' then some (.word .false 1)
  else if c = 'N' then some (.word .nan 1)
  else if c = 'I' then some (.word .infinity 1)
  else none

/-- The first symbol of a value. -/
def start (stack : List Frame) (c : Char) : Option State :=
  if c = '"' then some ⟨.string .value [], stack⟩
  else if c = '[' then some ⟨.firstItem, stack⟩
  else if c = '{' then some ⟨.firstKey, stack⟩
  else (scalar c).map fun mode => ⟨mode, stack⟩

/-- The symbol after a value. -/
def after (s : State) (c : Char) : Option State :=
  match s.mode with
  | .nextItem items =>
      if isBlank c then some s
      else if c = ',' then some ⟨.value, .array items :: s.stack⟩
      else if c = ']' then some (complete s.stack (.array items))
      else none
  | .nextMember members =>
      if isBlank c then some s
      else if c = ',' then some ⟨.key members, s.stack⟩
      else if c = '}' then some (complete s.stack (.object members))
      else none
  | .done _ => if isBlank c then some s else none
  | _ => none

def step (s : State) (c : Char) : Option State :=
  match s.mode with
  | .value => if isBlank c then some s else start s.stack c
  | .firstItem =>
      if isBlank c then some s
      else if c = ']' then some (complete s.stack (.array []))
      else start (.array [] :: s.stack) c
  | .firstKey =>
      if isBlank c then some s
      else if c = '}' then some (complete s.stack (.object []))
      else if c = '"' then some ⟨.string (.key []) [], s.stack⟩
      else none
  | .key members =>
      if isBlank c then some s
      else if c = '"' then some ⟨.string (.key members) [], s.stack⟩
      else none
  | .colon members key =>
      if isBlank c then some s
      else if c = ':' then some ⟨.value, .object members key :: s.stack⟩
      else none
  | .string target body =>
      if c = '"' then some (completeString target body s.stack)
      else if c = '\\' then some ⟨.escape target body, s.stack⟩
      else if c.toNat < 0x20 then none
      else some ⟨.string target (body ++ [c.toNat]), s.stack⟩
  | .escape target body =>
      if c = 'u' then some ⟨.hex target body 4 0, s.stack⟩
      else (escapeCode c).map fun code => ⟨.string target (body ++ [code]), s.stack⟩
  | .hex target body left unit =>
      match hexDigit c with
      | none => none
      | some digit =>
          if left ≤ 1 then some ⟨.string target (pushUnit body (16 * unit + digit)), s.stack⟩
          else some ⟨.hex target body (left - 1) (16 * unit + digit), s.stack⟩
  | .number part text =>
      match part.next c with
      | some part => some ⟨.number part (text ++ [c]), s.stack⟩
      | none =>
          if part = .minus && c = 'I' then some ⟨.word .minusInfinity 2, s.stack⟩
          -- the symbol after a number is not part of it
          else if part.isComplete then (complete s.stack (.number text)).after c
          else none
  | .word word count =>
      if word.letters[count]? ≠ some c then none
      else if count + 1 = word.letters.length then some (complete s.stack word.toValue)
      else some ⟨.word word (count + 1), s.stack⟩
  | .nextItem _ => s.after c
  | .nextMember _ => s.after c
  | .done _ => s.after c

/-- The value of a text that ends here. -/
def finish (s : State) : Option Value :=
  match s.mode, s.stack with
  | .done value, [] => some value
  | .number part text, [] => if part.isComplete then some (.number text) else none
  | _, _ => none

/-- A value that is no string, array or object begins a number or a word. -/
theorem scalar_cases {c : Char} {mode : Mode} (h : scalar c = some mode) :
    (∃ part text, mode = .number part text) ∨ ∃ word count, mode = .word word count := by
  unfold scalar at h
  repeat' split at h
  all_goals
    first
    | exact .inl ⟨_, _, (Option.some.inj h).symm⟩
    | exact .inr ⟨_, _, (Option.some.inj h).symm⟩
    | cases h

/-- A text ends with its value complete, or with a number that is all of it. -/
theorem finish_cases {s : State} {value : Value} (h : s.finish = some value) :
    s = ⟨.done value, []⟩ ∨ ∃ part text, s = ⟨.number part text, []⟩ ∧ value = .number text := by
  obtain ⟨mode, stack⟩ := s
  cases stack with
  | cons frame stack => cases mode <;> cases h
  | nil =>
      cases mode with
      | done value' =>
          obtain rfl := Option.some.inj h
          exact .inl rfl
      | number part text =>
          simp only [finish] at h
          split_ifs at h
          exact .inr ⟨part, text, rfl, (Option.some.inj h).symm⟩
      | _ => cases h

end State

def run (s : State) (text : Text) : Option State := text.foldlM State.step s

def initial : State := ⟨.value, []⟩

theorem run_cons {s t : State} {c : Char} {text : Text} (h : run s (c :: text) = some t) :
    ∃ next, s.step c = some next ∧ run next text = some t := by
  rwa [run, List.foldlM_cons, Option.bind_eq_bind, Option.bind_eq_some_iff] at h

theorem run_append (s : State) (text more : Text) :
    run s (text ++ more) = (run s text).bind fun t => run t more :=
  List.foldlM_append

/-- `json.loads`: the value of a text, when it is a JSON text.  The nesting is not limited. -/
def loads (text : Text) : Option Value := (run initial text).bind State.finish

/-! ## Blanks -/

theorem run_value_blanks {stack : List Frame} {text : Text} (h : text.all isBlank = true) :
    run ⟨.value, stack⟩ text = some ⟨.value, stack⟩ := by
  induction text with
  | nil => rfl
  | cons c text ih =>
      rw [List.all_cons, Bool.and_eq_true] at h
      rw [run, List.foldlM_cons, State.step, if_pos h.1]
      exact ih h.2

theorem run_done {value : Value} {text : Text} {t : State}
    (h : run ⟨.done value, []⟩ text = some t) :
    text.all isBlank = true ∧ t = ⟨.done value, []⟩ := by
  induction text with
  | nil => exact ⟨rfl, (Option.some.inj h).symm⟩
  | cons c text ih =>
      obtain ⟨next, hnext, h⟩ := run_cons h
      simp only [State.step, State.after] at hnext
      split_ifs at hnext with hblank
      obtain rfl := Option.some.inj hnext
      exact ⟨by simp [hblank, (ih h).1], (ih h).2⟩

end Json
