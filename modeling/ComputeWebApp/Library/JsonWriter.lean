import ComputeWebApp.Library.Json
import ComputeWebApp.Library.Output

/-!
# Writing JSON

The encoder of JSON that writes piece by piece, each item of an array and each member of an object
on a line of its own.  It ends at the first value that has no JSON text, with what it has written
until then (`complete_dump`).
-/

namespace Json

/-! ## Strings -/

def hexLetter (digit : ℕ) : Char :=
  if digit < 10 then Char.ofNat ('0'.toNat + digit) else Char.ofNat ('a'.toNat + (digit - 10))

/-- `\uXXXX` -/
def encodeUnit (unit : ℕ) : Text :=
  ['\\', 'u', hexLetter (unit / 4096 % 16), hexLetter (unit / 256 % 16), hexLetter (unit / 16 % 16),
    hexLetter (unit % 16)]

/-- A code point, in ASCII. -/
def encodeCode (code : ℕ) : Text :=
  if code = 0x22 then ['\\', '"']
  else if code = 0x5C then ['\\', '\\']
  else if code = 0x0A then ['\\', 'n']
  else if code = 0x0D then ['\\', 'r']
  else if code = 0x09 then ['\\', 't']
  else if code = 0x0C then ['\\', 'f']
  else if code = 0x08 then ['\\', 'b']
  else if 0x20 ≤ code && code ≤ 0x7E then [Char.ofNat code]
  else if code < 0x10000 then encodeUnit code
  else
    encodeUnit (0xD800 + (code - 0x10000) / 0x400 % 0x400) ++
      encodeUnit (0xDC00 + (code - 0x10000) % 0x400)

def encodeString (codes : Str) : Text := '"' :: codes.flatMap encodeCode ++ ['"']

/-! ## Values -/

open Output

/-- A new line with `indent=4`. -/
def newLine (level : ℕ) : Text := '\n' :: List.replicate (4 * level) ' '

section Dump

/-! A number that was read is written by `encodeNumber`, as a float gets its shortest form. -/

variable (encodeNumber : Text → Text)

mutual

/-- `json.dump(value, file, indent=4)` -/
def dump (level : ℕ) : Value → Output Char
  | .null => write ['n', 'u', 'l', 'l']
  | .bool true => write ['t', 'r', 'u', 'e']
  | .bool false => write ['f', 'a', 'l', 's', 'e']
  | .number text => write (encodeNumber text)
  | .string codes => write (encodeString codes)
  | .array [] => write ['[', ']']
  | .array (item :: items) =>
      write ('[' :: newLine (level + 1)) ++ dump (level + 1) item ++ dumpItems (level + 1) items ++
        write (newLine level ++ [']'])
  | .object [] => write ['{', '}']
  | .object ((key, value) :: members) =>
      write ('{' :: newLine (level + 1) ++ encodeString key ++ [':', ' ']) ++
        dump (level + 1) value ++ dumpMembers (level + 1) members ++ write (newLine level ++ ['}'])
  | .foreign => ⟨[], false⟩

/-- The items after the first one. -/
def dumpItems (level : ℕ) : List Value → Output Char
  | [] => write []
  | item :: items => write (',' :: newLine level) ++ dump level item ++ dumpItems level items

def dumpMembers (level : ℕ) : List (Str × Value) → Output Char
  | [] => write []
  | (key, value) :: members =>
      write (',' :: newLine level ++ encodeString key ++ [':', ' ']) ++ dump level value ++
        dumpMembers level members

end

end Dump

mutual

/-- There is nothing foreign in a value. -/
def Value.isJson : Value → Bool
  | .array items => itemsAreJson items
  | .object members => membersAreJson members
  | .foreign => false
  | _ => true

def itemsAreJson : List Value → Bool
  | [] => true
  | item :: items => item.isJson && itemsAreJson items

def membersAreJson : List (Str × Value) → Bool
  | [] => true
  | (_, value) :: members => value.isJson && membersAreJson members

end

/-! Everything is written unless something foreign is in it. -/

mutual

theorem complete_dump (encodeNumber : Text → Text) (level : ℕ) :
    ∀ value : Value, (dump encodeNumber level value).complete = value.isJson
  | .null => rfl
  | .bool true => rfl
  | .bool false => rfl
  | .number _ => rfl
  | .string _ => rfl
  | .foreign => rfl
  | .array [] => rfl
  | .object [] => rfl
  | .array (item :: items) => by
      rw [dump, Value.isJson, itemsAreJson]
      simp [complete_dump encodeNumber (level + 1) item,
        complete_dumpItems encodeNumber (level + 1) items]
  | .object ((key, value) :: members) => by
      rw [dump, Value.isJson, membersAreJson]
      simp [complete_dump encodeNumber (level + 1) value,
        complete_dumpMembers encodeNumber (level + 1) members]

theorem complete_dumpItems (encodeNumber : Text → Text) (level : ℕ) :
    ∀ items : List Value, (dumpItems encodeNumber level items).complete = itemsAreJson items
  | [] => rfl
  | item :: items => by
      rw [dumpItems, itemsAreJson]
      simp [complete_dump encodeNumber level item, complete_dumpItems encodeNumber level items]

theorem complete_dumpMembers (encodeNumber : Text → Text) (level : ℕ) :
    ∀ members : List (Str × Value),
      (dumpMembers encodeNumber level members).complete = membersAreJson members
  | [] => rfl
  | (key, value) :: members => by
      rw [dumpMembers, membersAreJson]
      simp [complete_dump encodeNumber level value,
        complete_dumpMembers encodeNumber level members]

end

theorem dump_eq_write (encodeNumber : Text → Text) (level : ℕ) {value : Value}
    (h : value.isJson = true) :
    dump encodeNumber level value = write (dump encodeNumber level value).text := by
  have hcomplete : (dump encodeNumber level value).complete = true :=
    (complete_dump encodeNumber level value).trans h
  rw [write, ← hcomplete]

/-! ## What is read -/

theorem itemsAreJson_append (items : List Value) (item : Value) :
    itemsAreJson (items ++ [item]) = (itemsAreJson items && item.isJson) := by
  induction items with
  | nil => simp [itemsAreJson]
  | cons first items ih => simp [itemsAreJson, ih, Bool.and_assoc]

theorem itemsAreJson_iff {items : List Value} :
    itemsAreJson items = true ↔ ∀ item ∈ items, item.isJson = true := by
  induction items with
  | nil => simp [itemsAreJson]
  | cons item items ih => simp [itemsAreJson, ih]

theorem membersAreJson_iff {members : List (Str × Value)} :
    membersAreJson members = true ↔ ∀ member ∈ members, member.2.isJson = true := by
  induction members with
  | nil => simp [membersAreJson]
  | cons member members ih => simp [membersAreJson, ih]

theorem membersAreJson_setMember {members : List (Str × Value)} {key : Str} {value : Value}
    (h : membersAreJson members = true) (hvalue : value.isJson = true) :
    membersAreJson (setMember members key value) = true := by
  rw [membersAreJson_iff] at h ⊢
  intro member hmember
  unfold setMember at hmember
  split at hmember
  · obtain ⟨old, hold, rfl⟩ := List.mem_map.mp hmember
    split
    · exact hvalue
    · exact h old hold
  · rcases List.mem_append.mp hmember with hold | hnew
    · exact h member hold
    · rw [List.mem_singleton.mp hnew]
      exact hvalue

namespace State

def frameIsJson : Frame → Bool
  | .array items => itemsAreJson items
  | .object members _ => membersAreJson members

def targetIsJson : Target → Bool
  | .value => true
  | .key members => membersAreJson members

def modeIsJson : Mode → Bool
  | .nextItem items => itemsAreJson items
  | .key members => membersAreJson members
  | .colon members _ => membersAreJson members
  | .nextMember members => membersAreJson members
  | .string target _ => targetIsJson target
  | .escape target _ => targetIsJson target
  | .hex target _ _ _ => targetIsJson target
  | .done value => value.isJson
  | _ => true

/-- Nothing foreign has been read. -/
structure IsJson (s : State) : Prop where
  mode : modeIsJson s.mode = true
  stack : ∀ frame ∈ s.stack, frameIsJson frame = true

variable {s t : State} {stack : List Frame} {c : Char}

theorem isJson_complete {value : Value} (hvalue : value.isJson = true)
    (hstack : ∀ frame ∈ stack, frameIsJson frame = true) : (complete stack value).IsJson := by
  match stack with
  | [] => exact ⟨hvalue, hstack⟩
  | .array items :: stack =>
      refine ⟨?_, fun frame hframe => hstack frame (List.mem_cons_of_mem _ hframe)⟩
      have hitems : itemsAreJson items = true := hstack _ List.mem_cons_self
      exact (itemsAreJson_append items value).trans (Bool.and_eq_true_iff.mpr ⟨hitems, hvalue⟩)
  | .object members key :: stack =>
      refine ⟨?_, fun frame hframe => hstack frame (List.mem_cons_of_mem _ hframe)⟩
      have hmembers : membersAreJson members = true := hstack _ List.mem_cons_self
      exact membersAreJson_setMember hmembers hvalue

theorem isJson_start (h : start stack c = some t)
    (hstack : ∀ frame ∈ stack, frameIsJson frame = true) : t.IsJson := by
  unfold start at h
  split_ifs at h
  · obtain rfl := Option.some.inj h
    exact ⟨rfl, hstack⟩
  · obtain rfl := Option.some.inj h
    exact ⟨rfl, hstack⟩
  · obtain rfl := Option.some.inj h
    exact ⟨rfl, hstack⟩
  · obtain ⟨mode, hmode, rfl⟩ := Option.map_eq_some_iff.mp h
    rcases scalar_cases hmode with ⟨part, text, rfl⟩ | ⟨word, count, rfl⟩
    · exact ⟨rfl, hstack⟩
    · exact ⟨rfl, hstack⟩

theorem isJson_after (h : s.after c = some t) (hs : s.IsJson) : t.IsJson := by
  obtain ⟨mode, stack⟩ := s
  obtain ⟨hmode, hstack⟩ := hs
  cases mode with
  | nextItem items =>
      simp only [after] at h
      split_ifs at h
      all_goals obtain rfl := Option.some.inj h
      · exact ⟨hmode, hstack⟩
      · exact ⟨rfl, List.forall_mem_cons.mpr ⟨hmode, hstack⟩⟩
      · exact isJson_complete hmode hstack
  | nextMember members =>
      simp only [after] at h
      split_ifs at h
      all_goals obtain rfl := Option.some.inj h
      · exact ⟨hmode, hstack⟩
      · exact ⟨hmode, hstack⟩
      · exact isJson_complete hmode hstack
  | done value =>
      simp only [after] at h
      split_ifs at h
      obtain rfl := Option.some.inj h
      exact ⟨hmode, hstack⟩
  | value | firstItem | firstKey | key | colon | string | escape | hex | number | word => cases h

theorem isJson_step (h : s.step c = some t) (hs : s.IsJson) : t.IsJson := by
  obtain ⟨mode, stack⟩ := s
  obtain ⟨hmode, hstack⟩ := hs
  cases mode with
  | value =>
      simp only [step] at h
      split_ifs at h
      · obtain rfl := Option.some.inj h
        exact ⟨hmode, hstack⟩
      · exact isJson_start h hstack
  | firstItem =>
      simp only [step] at h
      split_ifs at h
      · obtain rfl := Option.some.inj h
        exact ⟨hmode, hstack⟩
      · obtain rfl := Option.some.inj h
        exact isJson_complete rfl hstack
      · exact isJson_start h (List.forall_mem_cons.mpr ⟨rfl, hstack⟩)
  | firstKey =>
      simp only [step] at h
      split_ifs at h
      all_goals obtain rfl := Option.some.inj h
      · exact ⟨hmode, hstack⟩
      · exact isJson_complete rfl hstack
      · exact ⟨rfl, hstack⟩
  | key members =>
      simp only [step] at h
      split_ifs at h
      all_goals
        obtain rfl := Option.some.inj h
        exact ⟨hmode, hstack⟩
  | colon members key =>
      simp only [step] at h
      split_ifs at h
      all_goals obtain rfl := Option.some.inj h
      · exact ⟨hmode, hstack⟩
      · exact ⟨rfl, List.forall_mem_cons.mpr ⟨hmode, hstack⟩⟩
  | string target body =>
      simp only [step] at h
      split_ifs at h
      all_goals obtain rfl := Option.some.inj h
      · cases target with
        | value => exact isJson_complete rfl hstack
        | key members => exact ⟨hmode, hstack⟩
      · exact ⟨hmode, hstack⟩
      · exact ⟨hmode, hstack⟩
  | escape target body =>
      simp only [step] at h
      split_ifs at h
      · obtain rfl := Option.some.inj h
        exact ⟨hmode, hstack⟩
      · obtain ⟨code, -, rfl⟩ := Option.map_eq_some_iff.mp h
        exact ⟨hmode, hstack⟩
  | hex target body left unit =>
      simp only [step] at h
      cases hdigit : hexDigit c with
      | none => simp [hdigit] at h
      | some digit =>
          simp only [hdigit] at h
          split_ifs at h
          all_goals
            obtain rfl := Option.some.inj h
            exact ⟨hmode, hstack⟩
  | number part text =>
      simp only [step] at h
      cases hnext : part.next c with
      | some part' =>
          rw [hnext] at h
          obtain rfl := Option.some.inj h
          exact ⟨hmode, hstack⟩
      | none =>
          simp only [hnext] at h
          split_ifs at h
          · obtain rfl := Option.some.inj h
            exact ⟨rfl, hstack⟩
          · -- the number was complete before `c`
            exact isJson_after h (isJson_complete rfl hstack)
  | word word count =>
      simp only [step] at h
      split_ifs at h
      all_goals obtain rfl := Option.some.inj h
      · exact isJson_complete (by cases word <;> rfl) hstack
      · exact ⟨hmode, hstack⟩
  | nextItem _ | nextMember _ | done _ =>
      simp only [step] at h
      exact isJson_after h ⟨hmode, hstack⟩

theorem isJson_run {text : Text} (h : run s text = some t) (hs : s.IsJson) : t.IsJson := by
  induction text generalizing s with
  | nil =>
      obtain rfl := Option.some.inj h
      exact hs
  | cons c text ih =>
      obtain ⟨next, hnext, h⟩ := run_cons h
      exact ih h (isJson_step hnext hs)

end State

theorem loads_isJson {text : Text} {value : Value} (h : loads text = some value) :
    value.isJson = true := by
  obtain ⟨s, hs, hfinish⟩ := Option.bind_eq_some_iff.mp h
  have hjson : s.IsJson := State.isJson_run hs ⟨rfl, fun frame hframe => by cases hframe⟩
  obtain rfl | ⟨part, text, rfl, rfl⟩ := State.finish_cases hfinish
  · exact hjson.mode
  · rfl

end Json
