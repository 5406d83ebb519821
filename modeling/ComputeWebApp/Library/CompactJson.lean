import ComputeWebApp.Library.ByteStream
import ComputeWebApp.Library.JsonParts
import ComputeWebApp.Library.Output

/-!
# Compact JSON

The writer of a JSON library that puts no blanks between the parts of a text, as bytes.  Its strings
are bytes too, and it checks while it writes that they are UTF-8: at the first one that is not it
stops, with what it has passed on until then (`complete_dumpEscaped`).

What it has passed on ends inside of that string, so it is no JSON text (`Nested.loads_eq_none`).
-/

namespace CompactJson

open ByteStream Output

/-! ## UTF-8 -/

/-- Where `decode` is: between two code points, before the last one, two or three bytes of one,
after a first byte that restricts the second one, or after a byte that is not allowed. -/
inductive Utf8State
  | accept
  | reject
  | one
  | two
  | three
  | afterE0
  | afterED
  | afterF0
  | afterF4
  deriving DecidableEq, Repr

def decode (state : Utf8State) (byte : UInt8) : Utf8State :=
  match state with
  | .accept =>
      if byte ≤ 0x7F then .accept
      else if byte < 0xC2 then .reject
      else if byte ≤ 0xDF then .one
      else if byte = 0xE0 then .afterE0
      else if byte = 0xED then .afterED
      else if byte ≤ 0xEF then .two
      else if byte = 0xF0 then .afterF0
      else if byte ≤ 0xF3 then .three
      else if byte = 0xF4 then .afterF4
      else .reject
  | .reject => .reject
  | .one => if 0x80 ≤ byte && byte ≤ 0xBF then .accept else .reject
  | .two => if 0x80 ≤ byte && byte ≤ 0xBF then .one else .reject
  | .three => if 0x80 ≤ byte && byte ≤ 0xBF then .two else .reject
  | .afterE0 => if 0xA0 ≤ byte && byte ≤ 0xBF then .one else .reject
  | .afterED => if 0x80 ≤ byte && byte ≤ 0x9F then .one else .reject
  | .afterF0 => if 0x90 ≤ byte && byte ≤ 0xBF then .two else .reject
  | .afterF4 => if 0x80 ≤ byte && byte ≤ 0x8F then .two else .reject

def isUtf8 (bytes : Bytes) : Bool := bytes.foldl decode .accept = .accept

/-! ## Strings -/

def hexDigit (digit : UInt8) : UInt8 := if digit < 10 then 0x30 + digit else 0x61 + (digit - 10)

/-- A code point of one byte, or the last byte of a longer one. -/
def escape (byte : UInt8) : Bytes :=
  if byte = 0x08 then [0x5C, 0x62]
  else if byte = 0x09 then [0x5C, 0x74]
  else if byte = 0x0A then [0x5C, 0x6E]
  else if byte = 0x0C then [0x5C, 0x66]
  else if byte = 0x0D then [0x5C, 0x72]
  else if byte = 0x22 then [0x5C, 0x22]
  else if byte = 0x5C then [0x5C, 0x5C]
  else if byte ≤ 0x1F then [0x5C, 0x75, 0x30, 0x30, hexDigit (byte / 16), hexDigit (byte % 16)]
  else [byte]

/-- What has been passed on of a string, and what is in the buffer of 512 bytes. -/
structure Escaper where
  passed : Bytes := []
  buffer : Bytes := []
  state : Utf8State := .accept

/-- The buffer is passed on when the next code point may not fit any more. -/
def Escaper.add (escaper : Escaper) (byte : UInt8) : Escaper :=
  match decode escaper.state byte with
  | .accept =>
      let buffer := escaper.buffer ++ escape byte
      if 512 - buffer.length < 13 then ⟨escaper.passed ++ buffer, [], .accept⟩
      else ⟨escaper.passed, buffer, .accept⟩
  | .reject => { escaper with state := .reject }
  | state => { escaper with buffer := escaper.buffer ++ [byte], state := state }

/-- `dump_escaped` -/
def dumpEscaped (bytes : Bytes) : Output UInt8 :=
  let escaper := bytes.foldl Escaper.add {}
  if escaper.state = .accept then write (escaper.passed ++ escaper.buffer)
  else ⟨escaper.passed, false⟩

def dumpString (bytes : Bytes) : Output UInt8 := write [0x22] ++ dumpEscaped bytes ++ write [0x22]

theorem Escaper.state_add (escaper : Escaper) (byte : UInt8) :
    (escaper.add byte).state = decode escaper.state byte := by
  rw [add]
  split
  next h =>
      dsimp only
      split_ifs <;> exact h.symm
  next h => exact h.symm
  next => rfl

theorem Escaper.state_foldl (escaper : Escaper) (bytes : Bytes) :
    (bytes.foldl add escaper).state = bytes.foldl decode escaper.state := by
  induction bytes generalizing escaper with
  | nil => rfl
  | cons byte bytes ih => rw [List.foldl_cons, List.foldl_cons, ih, state_add]

theorem complete_dumpEscaped (bytes : Bytes) : (dumpEscaped bytes).complete = isUtf8 bytes := by
  have hstate : (bytes.foldl Escaper.add {}).state = bytes.foldl decode .accept :=
    Escaper.state_foldl {} bytes
  simp only [dumpEscaped, hstate, isUtf8]
  split_ifs with h
  · exact (decide_eq_true h).symm
  · exact (decide_eq_false h).symm

@[simp] theorem complete_dumpString (bytes : Bytes) :
    (dumpString bytes).complete = isUtf8 bytes := by
  simp [dumpString, complete_dumpEscaped]

/-! ## Values -/

def dumpNull : Output UInt8 := write [0x6E, 0x75, 0x6C, 0x6C]

/-- `dump_integer` of an unsigned integer. -/
def dumpInteger (n : ℕ) : Output UInt8 :=
  write ((Nat.toDigits 10 n).map fun digit => UInt8.ofNat digit.toNat)

/-- The items with commas between them. -/
def separated : List (Output UInt8) → Output UInt8
  | [] => write []
  | [item] => item
  | item :: items => item ++ write [0x2C] ++ separated items

def dumpArray (items : List (Output UInt8)) : Output UInt8 :=
  write [0x5B] ++ separated items ++ write [0x5D]

def dumpMember (key : Bytes) (value : Output UInt8) : Output UInt8 :=
  dumpString key ++ write [0x3A] ++ value

/-- The members in the order of their keys. -/
def dumpObject (members : List (Output UInt8)) : Output UInt8 :=
  write [0x7B] ++ separated members ++ write [0x7D]

theorem complete_separated (items : List (Output UInt8)) :
    (separated items).complete = items.all Output.complete := by
  induction items with
  | nil => rfl
  | cons item items ih =>
      cases items with
      | nil => simp [separated]
      | cons next items => simp [separated, ih]

@[simp] theorem complete_dumpNull : dumpNull.complete = true := rfl

@[simp] theorem complete_dumpInteger (n : ℕ) : (dumpInteger n).complete = true := rfl

@[simp] theorem complete_dumpArray (items : List (Output UInt8)) :
    (dumpArray items).complete = items.all Output.complete := by
  simp [dumpArray, complete_separated]

@[simp] theorem complete_dumpMember (key : Bytes) (value : Output UInt8) :
    (dumpMember key value).complete = (isUtf8 key && value.complete) := by
  simp [dumpMember]

@[simp] theorem complete_dumpObject (members : List (Output UInt8)) :
    (dumpObject members).complete = members.all Output.complete := by
  simp [dumpObject, complete_separated]

/-! ## Brackets and strings -/

open Json (Lex Text)

/-- A symbol for each byte. -/
def asText (bytes : Bytes) : Text := bytes.map fun byte => Char.ofNat byte.toNat

def scan (lex : Lex) (bytes : Bytes) : Option Lex := lex.scan (asText bytes)

theorem scan_append (lex : Lex) (first second : Bytes) :
    scan lex (first ++ second) = (scan lex first).bind fun lex => scan lex second := by
  rw [scan, asText, List.map_append, Lex.scan, List.foldlM_append]
  rfl

theorem scan_byte (lex : Lex) (byte : UInt8) :
    scan lex [byte] = lex.step (Char.ofNat byte.toNat) := by
  simp [scan, asText, Lex.scan]

theorem toNat_char (byte : UInt8) : (Char.ofNat byte.toNat).toNat = byte.toNat := by
  have hvalid : byte.toNat.isValidChar := .inl (Nat.lt_trans byte.toNat_lt (by decide))
  rw [Char.ofNat, dif_pos hvalid]
  rfl

theorem char_inj {byte byte' : UInt8} :
    Char.ofNat byte.toNat = Char.ofNat byte'.toNat ↔ byte = byte' := by
  constructor
  · intro h
    rw [← UInt8.toNat_inj, ← toNat_char, h, toNat_char]
  · rintro rfl
    rfl

/-- Inside of a string, the bytes do not end it. -/
def Inside (bytes : Bytes) : Prop :=
  ∀ depth, scan (.inside depth) bytes = some (.inside depth)

theorem Inside.append {first second : Bytes} (hfirst : Inside first) (hsecond : Inside second) :
    Inside (first ++ second) := by
  intro depth
  rw [scan_append, hfirst depth]
  exact hsecond depth

theorem inside_byte {byte : UInt8} (hquote : byte ≠ 0x22) (hbackslash : byte ≠ 0x5C) :
    Inside [byte] := by
  intro depth
  rw [scan_byte]
  exact Lex.step_inside (fun h => hquote (char_inj.mp h)) fun h => hbackslash (char_inj.mp h)

theorem inside_backslash (byte : UInt8) : Inside [0x5C, byte] := fun _ => rfl

theorem hexDigit_ne {digit : UInt8} (h : digit < 16) :
    hexDigit digit ≠ 0x22 ∧ hexDigit digit ≠ 0x5C := by
  rw [hexDigit]
  constructor <;> split_ifs with hten <;> intro heq <;>
    simp only [← UInt8.toNat_inj, UInt8.lt_iff_toNat_lt, UInt8.toNat_add, UInt8.toNat_sub,
      UInt8.reduceToNat] at h hten heq <;>
    omega

theorem inside_hexDigit {digit : UInt8} (h : digit < 16) : Inside [hexDigit digit] :=
  inside_byte (hexDigit_ne h).1 (hexDigit_ne h).2

theorem inside_escape (byte : UInt8) : Inside (escape byte) := by
  rw [escape]
  split_ifs with _ _ _ _ _ hquote hbackslash hcontrol
  all_goals try exact inside_backslash _
  · have hhigh : byte / 16 < 16 := by
      simp only [UInt8.lt_iff_toNat_lt, UInt8.toNat_div, UInt8.reduceToNat]
      have := byte.toNat_lt
      omega
    have hlow : byte % 16 < 16 := by
      simp only [UInt8.lt_iff_toNat_lt, UInt8.toNat_mod, UInt8.reduceToNat]
      omega
    have hzeros : Inside [0x30, 0x30] := fun _ => rfl
    exact ((inside_backslash 0x75).append hzeros).append
      ((inside_hexDigit hhigh).append (inside_hexDigit hlow))
  · exact inside_byte hquote hbackslash

/-- A byte of a code point that goes on, or of one that began before, is not ASCII. -/
theorem le_of_decode {state : Utf8State} {byte : UInt8} (haccept : decode state byte ≠ .accept)
    (hreject : decode state byte ≠ .reject) : 0x80 ≤ byte := by
  cases state with
  | accept =>
      by_contra hlt
      refine haccept (if_pos ?_)
      simp only [UInt8.le_iff_toNat_le, UInt8.reduceToNat] at hlt ⊢
      omega
  | reject => exact absurd rfl hreject
  | one | two | three | afterE0 | afterED | afterF0 | afterF4 =>
      simp only [decode] at hreject
      split_ifs at hreject with hrange
      · simp only [Bool.and_eq_true, decide_eq_true_eq, UInt8.le_iff_toNat_le,
          UInt8.reduceToNat] at hrange ⊢
        omega
      · exact absurd rfl hreject

/-- A string that is being written has not ended. -/
structure Escaper.Open (escaper : Escaper) : Prop where
  passed : Inside escaper.passed
  buffer : Inside escaper.buffer

theorem Escaper.Open.add {escaper : Escaper} (h : escaper.Open) (byte : UInt8) :
    (escaper.add byte).Open := by
  rw [Escaper.add]
  split
  next =>
      have hbuffer := h.buffer.append (inside_escape byte)
      dsimp only
      split_ifs
      · exact ⟨h.passed.append hbuffer, fun _ => rfl⟩
      · exact ⟨h.passed, hbuffer⟩
  next => exact ⟨h.passed, h.buffer⟩
  next state haccept hreject =>
      have hle := le_of_decode haccept hreject
      have hbyte : Inside [byte] := by
        refine inside_byte ?_ ?_
        · rintro rfl
          exact absurd hle (by decide)
        · rintro rfl
          exact absurd hle (by decide)
      exact ⟨h.passed, h.buffer.append hbyte⟩

theorem Escaper.Open.foldl {escaper : Escaper} (h : escaper.Open) (bytes : Bytes) :
    (bytes.foldl Escaper.add escaper).Open := by
  induction bytes generalizing escaper with
  | nil => exact h
  | cons byte bytes ih => exact ih (h.add byte)

theorem inside_dumpEscaped (bytes : Bytes) : Inside (dumpEscaped bytes).text := by
  have hopen : (bytes.foldl Escaper.add {}).Open :=
    Escaper.Open.foldl ⟨fun _ => rfl, fun _ => rfl⟩ bytes
  rw [dumpEscaped]
  split_ifs
  · exact hopen.passed.append hopen.buffer
  · exact hopen.passed

/-- A whole output closes the brackets and strings that it opens, and an output that was stopped
ends inside of a string. -/
structure Nested (output : Output UInt8) : Prop where
  whole : output.complete = true → ∀ depth,
    scan (.outside depth) output.text = some (.outside depth)
  stopped : output.complete = false → ∀ depth, ∃ depth',
    scan (.outside depth) output.text = some (.inside depth')

theorem Nested.append {first second : Output UInt8} (hfirst : Nested first)
    (hsecond : Nested second) : Nested (first ++ second) := by
  cases hcomplete : first.complete with
  | false => rwa [append_of_stopped hcomplete]
  | true =>
      have htext : ∀ depth, scan (.outside depth) (first ++ second).text =
          scan (.outside depth) second.text := by
        intro depth
        rw [text_append hcomplete, scan_append, hfirst.whole hcomplete]
        rfl
      refine ⟨fun h depth => ?_, fun h depth => ?_⟩
      · rw [complete_append, hcomplete, Bool.true_and] at h
        rw [htext]
        exact hsecond.whole h depth
      · rw [complete_append, hcomplete, Bool.true_and] at h
        rw [htext]
        exact hsecond.stopped h depth

/-- Bytes without brackets and quotes. -/
def isPlain (bytes : Bytes) : Bool :=
  bytes.all fun byte => Json.kind (Char.ofNat byte.toNat) = .plain

theorem nested_write {bytes : Bytes} (h : isPlain bytes = true) : Nested (write bytes) := by
  have hscan : ∀ depth, scan (.outside depth) bytes = some (.outside depth) := by
    intro depth
    induction bytes with
    | nil => rfl
    | cons byte bytes ih =>
        rw [isPlain, List.all_cons, Bool.and_eq_true, decide_eq_true_eq] at h
        have hstep : (Lex.outside depth).step (Char.ofNat byte.toNat) = some (.outside depth) :=
          Lex.step_outside h.1
        rw [← List.singleton_append, scan_append, scan_byte, hstep]
        exact ih h.2
  exact ⟨fun _ => hscan, fun hstopped => Bool.noConfusion hstopped⟩

theorem nested_dumpString (bytes : Bytes) : Nested (dumpString bytes) := by
  have hquote : ∀ depth, scan (.outside depth) [0x22] = some (.inside depth) := fun _ => rfl
  have hopen : ∀ depth, scan (.outside depth) ([0x22] ++ (dumpEscaped bytes).text) =
      some (.inside depth) := by
    intro depth
    rw [scan_append, hquote depth]
    exact inside_dumpEscaped bytes depth
  refine ⟨fun h depth => ?_, fun h depth => ⟨depth, ?_⟩⟩
  · have hcomplete : (write [0x22] ++ dumpEscaped bytes).complete = true := by
      simpa [dumpString] using h
    rw [dumpString, text_append hcomplete, text_append rfl, scan_append]
    change (scan (.outside depth) ([0x22] ++ (dumpEscaped bytes).text)).bind _ = _
    rw [hopen depth]
    rfl
  · have hstopped : (write [0x22] ++ dumpEscaped bytes).complete = false := by
      simpa [dumpString] using h
    rw [dumpString, append_of_stopped hstopped, text_append rfl]
    exact hopen depth

/-- Brackets around an output. -/
theorem Nested.enclose {output : Output UInt8} (h : Nested output) {opening closing : UInt8}
    (hopening : Json.kind (Char.ofNat opening.toNat) = .opens)
    (hclosing : Json.kind (Char.ofNat closing.toNat) = .closes) :
    Nested (write [opening] ++ output ++ write [closing]) := by
  have hbefore : ∀ depth, scan (.outside depth) [opening] = some (.outside (depth + 1)) := by
    intro depth
    rw [scan_byte, Lex.step_opens hopening]
  have hafter : ∀ depth, scan (.outside (depth + 1)) [closing] = some (.outside depth) := by
    intro depth
    rw [scan_byte, Lex.step_closes hclosing]
  refine ⟨fun hcomplete depth => ?_, fun hstopped depth => ?_⟩
  · have hwhole : (write [opening] ++ output).complete = true := by simpa using hcomplete
    rw [text_append hwhole, text_append rfl, scan_append, scan_append]
    change ((scan (.outside depth) [opening]).bind _).bind _ = _
    rw [hbefore depth, Option.bind_some, h.whole (by simpa using hcomplete)]
    exact hafter depth
  · have hstop : (write [opening] ++ output).complete = false := by simpa using hstopped
    rw [append_of_stopped hstop, text_append rfl, scan_append]
    change ∃ depth', (scan (.outside depth) [opening]).bind _ = _
    rw [hbefore depth]
    exact h.stopped (by simpa using hstopped) (depth + 1)

theorem nested_separated {items : List (Output UInt8)} (h : ∀ item ∈ items, Nested item) :
    Nested (separated items) := by
  induction items with
  | nil => exact nested_write rfl
  | cons item items ih =>
      cases items with
      | nil => exact h item List.mem_cons_self
      | cons next items =>
          have hcomma : Nested (write [0x2C]) := nested_write rfl
          exact ((h item List.mem_cons_self).append hcomma).append
            (ih fun other hother => h other (List.mem_cons_of_mem _ hother))

theorem nested_dumpNull : Nested dumpNull := nested_write rfl

theorem nested_dumpInteger (n : ℕ) : Nested (dumpInteger n) := by
  refine nested_write (List.all_eq_true.mpr fun byte hbyte => decide_eq_true ?_)
  obtain ⟨digit, hmem, rfl⟩ := List.mem_map.mp hbyte
  have hdigit : digit.isDigit = true :=
    Nat.isDigit_of_mem_toDigits (by decide) (by decide) hmem
  have hsmall : digit.toNat < 256 := by
    simp only [Char.isDigit, Bool.and_eq_true, decide_eq_true_eq, UInt32.le_iff_toNat_le] at hdigit
    exact Nat.lt_of_le_of_lt hdigit.2 (by decide)
  have hchar : Char.ofNat (UInt8.ofNat digit.toNat).toNat = digit := by
    rw [UInt8.toNat_ofNat', Nat.mod_eq_of_lt hsmall, Char.ofNat_toNat]
  rw [hchar]
  exact Json.kind_eq_plain rfl hdigit

theorem nested_dumpArray {items : List (Output UInt8)} (h : ∀ item ∈ items, Nested item) :
    Nested (dumpArray items) :=
  (nested_separated h).enclose rfl rfl

theorem nested_dumpMember (key : Bytes) {value : Output UInt8} (h : Nested value) :
    Nested (dumpMember key value) :=
  ((nested_dumpString key).append (nested_write rfl)).append h

theorem nested_dumpObject {members : List (Output UInt8)} (h : ∀ member ∈ members, Nested member) :
    Nested (dumpObject members) :=
  (nested_separated h).enclose rfl rfl

/-- What was written before a writer was stopped is no JSON text. -/
theorem Nested.loads_eq_none {output : Output UInt8} (h : Nested output)
    (hstopped : output.complete = false) : Json.loads (asText output.text) = none := by
  obtain ⟨depth, hscan⟩ := h.stopped hstopped 0
  cases hloads : Json.loads (asText output.text) with
  | none => rfl
  | some value =>
      obtain ⟨t, hrun, hfinish⟩ := Option.bind_eq_some_iff.mp hloads
      have hend := Json.State.lex_run hrun
      rw [Json.State.lex_finish hfinish] at hend
      cases hscan.symm.trans hend

end CompactJson
