import ComputeWebApp.Library.JsonWriter

/-!
# Reading what was written

`loads` of the text of `dump` is the value that was written (`loads_dump`), for the values that have
such a text: the strings have no surrogates that would be joined, the numbers are written as they
are, and no object has a key twice.

The text is read piece by piece: strings (`run_encodeString`), numbers (`run_number`), and the
values by induction, where the machine is `Settled` after each of them.
-/

namespace Json

open State

/-! ## Strings -/

/-- A high surrogate is not followed by a low one, which would make one code point of both. -/
structure Legible (codes : Str) : Prop where
  isCode : ∀ code ∈ codes, code < 0x110000
  apart : ∀ before first second after, codes = before ++ first :: second :: after →
    ¬(isHighSurrogate first = true ∧ isLowSurrogate second = true)

theorem hexDigit_hexLetter {digit : ℕ} (h : digit < 16) :
    hexDigit (hexLetter digit) = some digit := by
  have hall : ∀ digit < 16, hexDigit (hexLetter digit) = some digit := by decide
  exact hall digit h

theorem pushUnit_eq {body : Str} {unit : ℕ}
    (h : ∀ last, body.getLast? = some last →
      ¬(isHighSurrogate last = true ∧ isLowSurrogate unit = true)) :
    pushUnit body unit = body ++ [unit] := by
  unfold pushUnit
  cases hlast : body.getLast? with
  | none => rfl
  | some last =>
      have hne := h last hlast
      rw [← Bool.and_eq_true] at hne
      simp only [hne, Bool.false_eq_true, if_false]

theorem run_step {s t : State} {c : Char} (h : s.step c = some t) (text : Text) :
    run s (c :: text) = run t text := by
  rw [run, List.foldlM_cons, h]
  rfl

section Strings

variable {target : Target} {body : Str} {stack : List Frame} {code : ℕ}

theorem run_hex (left : ℕ) {unit digit : ℕ} (h : digit < 16) (text : Text) :
    run ⟨.hex target body (left + 2) unit, stack⟩ (hexLetter digit :: text) =
      run ⟨.hex target body (left + 1) (16 * unit + digit), stack⟩ text := by
  refine run_step ?_ text
  simp [step, hexDigit_hexLetter h]

theorem run_hex_last {unit digit : ℕ} (h : digit < 16) (text : Text) :
    run ⟨.hex target body 1 unit, stack⟩ (hexLetter digit :: text) =
      run ⟨.string target (pushUnit body (16 * unit + digit)), stack⟩ text := by
  refine run_step ?_ text
  simp [step, hexDigit_hexLetter h]

theorem run_encodeUnit {unit : ℕ} (h : unit < 0x10000) (text : Text) :
    run ⟨.string target body, stack⟩ (encodeUnit unit ++ text) =
      run ⟨.string target (pushUnit body unit), stack⟩ text := by
  have hvalue : 16 * (16 * (16 * (16 * 0 + unit / 4096 % 16) + unit / 256 % 16) +
      unit / 16 % 16) + unit % 16 = unit := by omega
  have hbackslash : (State.mk (.string target body) stack).step '\\' =
      some ⟨.escape target body, stack⟩ := rfl
  have hu : (State.mk (.escape target body) stack).step 'u' =
      some ⟨.hex target body (2 + 2) 0, stack⟩ := rfl
  rw [encodeUnit]
  simp only [List.cons_append, List.nil_append]
  rw [run_step hbackslash, run_step hu, run_hex 2 (by omega), run_hex 1 (by omega),
    run_hex 0 (by omega), run_hex_last (by omega), hvalue]

/-- A code point is read as it was written, unless it is joined with the one before it. -/
theorem run_encodeCode (hcode : code < 0x110000)
    (hlast : ∀ last, body.getLast? = some last →
      ¬(isHighSurrogate last = true ∧ isLowSurrogate code = true)) (text : Text) :
    run ⟨.string target body, stack⟩ (encodeCode code ++ text) =
      run ⟨.string target (body ++ [code]), stack⟩ text := by
  have hescape : ∀ c, escapeCode c = some code → c ≠ 'u' →
      run ⟨.string target body, stack⟩ ('\\' :: c :: text) =
        run ⟨.string target (body ++ [code]), stack⟩ text := by
    intro c hc hu
    have hbackslash : (State.mk (.string target body) stack).step '\\' =
        some ⟨.escape target body, stack⟩ := rfl
    have hnext : (State.mk (.escape target body) stack).step c =
        some ⟨.string target (body ++ [code]), stack⟩ := by
      simp only [step, if_neg hu, hc, Option.map_some]
    rw [run_step hbackslash, run_step hnext]
  unfold encodeCode
  split_ifs with hquote hbackslash hn hr ht hf hb hascii hunit
  · exact hescape '"' (hquote ▸ rfl) (by decide)
  · exact hescape '\\' (hbackslash ▸ rfl) (by decide)
  · exact hescape 'n' (hn ▸ rfl) (by decide)
  · exact hescape 'r' (hr ▸ rfl) (by decide)
  · exact hescape 't' (ht ▸ rfl) (by decide)
  · exact hescape 'f' (hf ▸ rfl) (by decide)
  · exact hescape 'b' (hb ▸ rfl) (by decide)
  · -- a printable symbol stands for itself
    simp only [Bool.and_eq_true, decide_eq_true_eq] at hascii
    have hnat : (Char.ofNat code).toNat = code := by
      rw [Char.ofNat, dif_pos (Or.inl (by omega))]
      rfl
    refine run_step ?_ text
    have hne : Char.ofNat code ≠ '"' ∧ Char.ofNat code ≠ '\\' := by
      constructor
      · intro hc
        rw [hc] at hnat
        exact hquote hnat.symm
      · intro hc
        rw [hc] at hnat
        exact hbackslash hnat.symm
    simp only [step, if_neg hne.1, if_neg hne.2, hnat, if_neg (Nat.not_lt.mpr hascii.1)]
  · rw [run_encodeUnit hunit, pushUnit_eq hlast]
  · -- two surrogates, which are joined
    have hhigh : 0xD800 + (code - 0x10000) / 0x400 % 0x400 < 0x10000 := by omega
    have hlow : 0xDC00 + (code - 0x10000) % 0x400 < 0x10000 := by omega
    have hfirst : pushUnit body (0xD800 + (code - 0x10000) / 0x400 % 0x400) =
        body ++ [0xD800 + (code - 0x10000) / 0x400 % 0x400] := by
      refine pushUnit_eq fun last _ hboth => ?_
      have hlt := hboth.2
      simp only [isLowSurrogate, Bool.and_eq_true, decide_eq_true_eq] at hlt
      omega
    have hjoin : pushUnit (body ++ [0xD800 + (code - 0x10000) / 0x400 % 0x400])
        (0xDC00 + (code - 0x10000) % 0x400) = body ++ [code] := by
      have hboth : (isHighSurrogate (0xD800 + (code - 0x10000) / 0x400 % 0x400) &&
          isLowSurrogate (0xDC00 + (code - 0x10000) % 0x400)) = true := by
        simp only [isHighSurrogate, isLowSurrogate, Bool.and_eq_true, decide_eq_true_eq]
        omega
      have hcode' : joinSurrogates (0xD800 + (code - 0x10000) / 0x400 % 0x400)
          (0xDC00 + (code - 0x10000) % 0x400) = code := by
        unfold joinSurrogates
        omega
      rw [pushUnit, List.getLast?_concat]
      simp only [hboth, if_true, List.dropLast_concat, hcode']
    rw [List.append_assoc, run_encodeUnit hhigh, run_encodeUnit hlow, hfirst, hjoin]

theorem run_codes {codes : Str} (h : Legible (body ++ codes)) (text : Text) :
    run ⟨.string target body, stack⟩ (codes.flatMap encodeCode ++ text) =
      run ⟨.string target (body ++ codes), stack⟩ text := by
  induction codes generalizing body with
  | nil => rw [List.flatMap_nil, List.nil_append, List.append_nil]
  | cons code codes ih =>
      have hlast : ∀ last, body.getLast? = some last →
          ¬(isHighSurrogate last = true ∧ isLowSurrogate code = true) := by
        intro last hlast
        obtain ⟨front, rfl⟩ := List.getLast?_eq_some_iff.mp hlast
        exact h.apart front last code codes (by simp)
      have hsplit : body ++ code :: codes = (body ++ [code]) ++ codes := by simp
      rw [List.flatMap_cons, List.append_assoc, run_encodeCode (h.isCode code (by simp)) hlast,
        hsplit, ih (hsplit ▸ h)]

theorem run_encodeString {codes : Str} (h : Legible codes) (text : Text) :
    run ⟨.string target [], stack⟩ (codes.flatMap encodeCode ++ '"' :: text) =
      run (completeString target codes stack) text := by
  have hquote : (State.mk (.string target codes) stack).step '"' =
      some (completeString target codes stack) := rfl
  rw [run_codes (by rwa [List.nil_append]), List.nil_append, run_step hquote]

end Strings

/-! ## Numbers -/

/-- How a number begins. -/
def firstPart (c : Char) : Option NumberPart :=
  if c = '-' then some .minus
  else if c = '0' then some .zero
  else if c.isDigit then some .integer
  else none

def numberPart : Text → Option NumberPart
  | [] => none
  | c :: text => (firstPart c).bind fun part => text.foldlM NumberPart.next part

/-- The texts of numbers, and of what is written for the floats that are none. -/
inductive IsNumber : Text → Prop
  | written {text : Text} {part : NumberPart} :
      numberPart text = some part → part.isComplete = true → IsNumber text
  | nan : IsNumber Word.nan.letters
  | infinity : IsNumber Word.infinity.letters
  | minusInfinity : IsNumber Word.minusInfinity.letters

/-- The machine after the text of a value, which may be a number that could go on. -/
inductive Settled (stack : List Frame) : Value → State → Prop
  | complete (value : Value) : Settled stack value (complete stack value)
  | number {part : NumberPart} {text : Text} :
      part.isComplete = true → Settled stack (.number text) ⟨.number part text, stack⟩

section Settled

variable {stack : List Frame} {value : Value} {s : State}

theorem step_complete (stack : List Frame) (value : Value) (c : Char) :
    (complete stack value).step c = (complete stack value).after c := by
  match stack with
  | [] => rfl
  | .array _ :: _ => rfl
  | .object _ _ :: _ => rfl

theorem Settled.step (h : Settled stack value s) {c : Char} (hc : c = ',' ∨ c = '\n') :
    s.step c = (State.complete stack value).after c := by
  cases h with
  | complete => exact step_complete stack value c
  | @number part text hpart =>
      have hnext : part.next c = none := by
        rcases hc with rfl | rfl
        · cases part <;> rfl
        · cases part <;> rfl
      have hinfinity : (decide (part = .minus) && decide (c = 'I')) = false := by
        rcases hc with rfl | rfl <;> simp
      simp only [State.step, hnext, hinfinity, hpart, Bool.false_eq_true, if_false, if_true]

theorem Settled.finish (h : Settled [] value s) : s.finish = some value := by
  cases h with
  | complete => rfl
  | number hpart => exact if_pos hpart

theorem run_parts {part part' : NumberPart} {before text : Text}
    (h : text.foldlM NumberPart.next part = some part') :
    run ⟨.number part before, stack⟩ text = some ⟨.number part' (before ++ text), stack⟩ := by
  induction text generalizing part before with
  | nil =>
      obtain rfl := Option.some.inj h
      rw [List.append_nil]
      rfl
  | cons c text ih =>
      rw [List.foldlM_cons, Option.bind_eq_bind, Option.bind_eq_some_iff] at h
      obtain ⟨next, hnext, h⟩ := h
      have hstep : (State.mk (.number part before) stack).step c =
          some ⟨.number next (before ++ [c]), stack⟩ := by
        simp only [State.step, hnext]
      rw [run_step hstep, ih h, List.append_assoc]
      rfl

theorem step_firstPart (stack : List Frame) {c : Char} {part : NumberPart}
    (h : firstPart c = some part) :
    isBlank c = false ∧ c ≠ ']' ∧ start stack c = some ⟨.number part [c], stack⟩ := by
  have hne : ∀ other, firstPart other = none → c ≠ other := by
    rintro other hother rfl
    rw [h] at hother
    cases hother
  have hscalar : State.scalar c = some (.number part [c]) := by
    unfold firstPart at h
    unfold State.scalar
    split_ifs at h ⊢
    all_goals
      cases h
      rfl
  refine ⟨?_, hne ']' rfl, ?_⟩
  · simp [isBlank, hne ' ' rfl, hne '\t' rfl, hne '\n' rfl, hne '\r' rfl]
  · simp [start, hne '"' rfl, hne '[' rfl, hne '{' rfl, hscalar]

theorem run_number {text : Text} (h : IsNumber text) :
    ∃ s, run ⟨.value, stack⟩ text = some s ∧ Settled stack (.number text) s := by
  cases h with
  | nan | infinity | minusInfinity => exact ⟨_, rfl, .complete _⟩
  | @written text part hpart hcomplete =>
      cases text with
      | nil => cases hpart
      | cons c text =>
          obtain ⟨first, hfirst, hparts⟩ := Option.bind_eq_some_iff.mp hpart
          obtain ⟨hblank, -, hstart⟩ := step_firstPart stack hfirst
          have hstep : (State.mk .value stack).step c = some ⟨.number first [c], stack⟩ := by
            simp only [State.step, hblank, Bool.false_eq_true, if_false, hstart]
          refine ⟨_, ?_, .number hcomplete⟩
          rw [run_step hstep, run_parts hparts]
          rfl

end Settled

/-! ## Values -/

section Values

variable (encodeNumber : Text → Text)

mutual

/-- The text that is written for the value is one that stands for it. -/
def Value.Readable : Value → Prop
  | .number text => encodeNumber text = text ∧ IsNumber text
  | .string codes => Legible codes
  | .array items => ItemsReadable items
  | .object members => (members.map Prod.fst).Nodup ∧ MembersReadable members
  | .foreign => False
  | _ => True

def ItemsReadable : List Value → Prop
  | [] => True
  | item :: items => item.Readable ∧ ItemsReadable items

def MembersReadable : List (Str × Value) → Prop
  | [] => True
  | (key, value) :: members => Legible key ∧ value.Readable ∧ MembersReadable members

end

end Values

mutual

theorem Value.Readable.isJson {encodeNumber : Text → Text} :
    ∀ {value : Value}, value.Readable encodeNumber → value.isJson = true
  | .null, _ => rfl
  | .bool _, _ => rfl
  | .number _, _ => rfl
  | .string _, _ => rfl
  | .array _, h => ItemsReadable.areJson h
  | .object _, h => MembersReadable.areJson h.2

theorem ItemsReadable.areJson {encodeNumber : Text → Text} :
    ∀ {items : List Value}, ItemsReadable encodeNumber items → itemsAreJson items = true
  | [], _ => rfl
  | _ :: _, h => Bool.and_eq_true_iff.mpr ⟨h.1.isJson, h.2.areJson⟩

theorem MembersReadable.areJson {encodeNumber : Text → Text} :
    ∀ {members : List (Str × Value)},
      MembersReadable encodeNumber members → membersAreJson members = true
  | [], _ => rfl
  | (_, _) :: _, h => Bool.and_eq_true_iff.mpr ⟨h.2.1.isJson, h.2.2.areJson⟩

end

/-! ### Pieces of the text -/

section Pieces

variable {encodeNumber : Text → Text} {stack : List Frame} {s : State}

theorem run_blanks (hs : ∀ c, isBlank c = true → s.step c = some s) {blanks : Text}
    (h : blanks.all isBlank = true) (text : Text) : run s (blanks ++ text) = run s text := by
  induction blanks with
  | nil => rfl
  | cons c blanks ih =>
      rw [List.all_cons, Bool.and_eq_true] at h
      rw [List.cons_append, run_step (hs c h.1), ih h.2]

/-- The new line ends a number, and blanks follow it. -/
theorem run_newLine {t : State} (hline : s.step '\n' = some t)
    (ht : ∀ c, isBlank c = true → t.step c = some t) (level : ℕ) (text : Text) :
    run s (newLine level ++ text) = run t text := by
  have hspaces : (List.replicate (4 * level) ' ').all isBlank = true := by
    rw [List.all_replicate]
    simp [isBlank]
  rw [newLine, List.cons_append, run_step hline, run_blanks ht hspaces]

variable {item value : Value} {before : List Value} {members : List (Str × Value)} {key : Str}

theorem run_close_array (h : Settled (.array before :: stack) item s) (level : ℕ) (text : Text) :
    run s (newLine level ++ ']' :: text) =
      run (complete stack (.array (before ++ [item]))) text := by
  have hline : s.step '\n' = some ⟨.nextItem (before ++ [item]), stack⟩ := h.step (.inr rfl)
  have hclose : (State.mk (.nextItem (before ++ [item])) stack).step ']' =
      some (complete stack (.array (before ++ [item]))) := rfl
  have hblank : ∀ c, isBlank c = true → (State.mk (.nextItem (before ++ [item])) stack).step c =
      some ⟨.nextItem (before ++ [item]), stack⟩ := fun _ hc => if_pos hc
  rw [run_newLine hline hblank, run_step hclose]

theorem run_next_item (h : Settled (.array before :: stack) item s) (level : ℕ) (text : Text) :
    run s (',' :: newLine level ++ text) =
      run ⟨.value, .array (before ++ [item]) :: stack⟩ text := by
  have hcomma : s.step ',' = some ⟨.value, .array (before ++ [item]) :: stack⟩ := h.step (.inl rfl)
  have hblank : ∀ c, isBlank c = true →
      (State.mk .value (.array (before ++ [item]) :: stack)).step c =
        some ⟨.value, .array (before ++ [item]) :: stack⟩ := fun _ hc => if_pos hc
  rw [List.cons_append, run_step hcomma, run_newLine (hblank '\n' rfl) hblank]

theorem setMember_of_notMem (h : key ∉ members.map Prod.fst) :
    setMember members key value = members ++ [(key, value)] := by
  have hany : (members.any fun member => decide (member.1 = key)) = false := by
    rw [List.any_eq_false]
    intro member hmember heq
    exact h (List.mem_map.mpr ⟨member, hmember, of_decide_eq_true heq⟩)
  rw [setMember, hany]
  rfl

theorem run_close_object (h : Settled (.object members key :: stack) value s)
    (hkey : key ∉ members.map Prod.fst) (level : ℕ) (text : Text) :
    run s (newLine level ++ '}' :: text) =
      run (complete stack (.object (members ++ [(key, value)]))) text := by
  have hline : s.step '\n' = some ⟨.nextMember (members ++ [(key, value)]), stack⟩ := by
    rw [← setMember_of_notMem hkey]
    exact h.step (.inr rfl)
  have hclose : (State.mk (.nextMember (members ++ [(key, value)])) stack).step '}' =
      some (complete stack (.object (members ++ [(key, value)]))) := rfl
  have hblank : ∀ c, isBlank c = true →
      (State.mk (.nextMember (members ++ [(key, value)])) stack).step c =
        some ⟨.nextMember (members ++ [(key, value)]), stack⟩ := fun _ hc => if_pos hc
  rw [run_newLine hline hblank, run_step hclose]

theorem notMem_of_keys {keys rest : List Str} (h : (keys ++ key :: rest).Nodup) : key ∉ keys := by
  intro hmem
  exact (List.nodup_append.mp h).2.2 key hmem key List.mem_cons_self rfl

/-- A key and what follows it before its value. -/
theorem run_key {mode : Mode}
    (hblank : ∀ c, isBlank c = true → (State.mk mode stack).step c = some ⟨mode, stack⟩)
    (hquote : (State.mk mode stack).step '"' = some ⟨.string (.key members) [], stack⟩)
    (hkey : Legible key) (level : ℕ) (text : Text) :
    run ⟨mode, stack⟩ (newLine level ++ (encodeString key ++ (':' :: ' ' :: text))) =
      run ⟨.value, .object members key :: stack⟩ text := by
  have hcolon : (State.mk (.colon members key) stack).step ':' =
      some ⟨.value, .object members key :: stack⟩ := rfl
  have hspace : (State.mk .value (.object members key :: stack)).step ' ' =
      some ⟨.value, .object members key :: stack⟩ := rfl
  rw [run_newLine (hblank '\n' rfl) hblank, encodeString, List.cons_append, List.cons_append,
    run_step hquote, List.append_assoc]
  exact (run_encodeString hkey _).trans ((run_step hcolon _).trans (run_step hspace _))

theorem run_next_member {next : Str} (h : Settled (.object members key :: stack) value s)
    (hkey : key ∉ members.map Prod.fst) (hnext : Legible next) (level : ℕ) (text : Text) :
    run s (',' :: (newLine level ++ (encodeString next ++ (':' :: ' ' :: text)))) =
      run ⟨.value, .object (members ++ [(key, value)]) next :: stack⟩ text := by
  have hcomma : s.step ',' = some ⟨.key (members ++ [(key, value)]), stack⟩ := by
    rw [← setMember_of_notMem hkey]
    exact h.step (.inl rfl)
  have hblank : ∀ c, isBlank c = true →
      (State.mk (.key (members ++ [(key, value)])) stack).step c =
        some ⟨.key (members ++ [(key, value)]), stack⟩ := fun _ hc => if_pos hc
  rw [run_step hcomma]
  exact run_key hblank rfl hnext level text

theorem text_dump_array (level : ℕ) {items : List Value} (hitem : item.isJson = true)
    (hitems : itemsAreJson items = true) :
    (dump encodeNumber level (.array (item :: items))).text =
      '[' :: (newLine (level + 1) ++ ((dump encodeNumber (level + 1) item).text ++
        ((dumpItems encodeNumber (level + 1) items).text ++ (newLine level ++ [']'])))) := by
  have hitem' := (complete_dump encodeNumber (level + 1) item).trans hitem
  have hitems' := (complete_dumpItems encodeNumber (level + 1) items).trans hitems
  rw [dump, Output.text_append (by simp [hitem', hitems']), Output.text_append (by simp [hitem']),
    Output.text_append (by simp)]
  simp [Output.write]

theorem text_dump_object (level : ℕ) (key : Str) {members : List (Str × Value)}
    (hvalue : value.isJson = true) (hmembers : membersAreJson members = true) :
    (dump encodeNumber level (.object ((key, value) :: members))).text =
      '{' :: (newLine (level + 1) ++ (encodeString key ++ (':' :: ' ' ::
        ((dump encodeNumber (level + 1) value).text ++
          ((dumpMembers encodeNumber (level + 1) members).text ++ (newLine level ++ ['}'])))))) := by
  have hvalue' := (complete_dump encodeNumber (level + 1) value).trans hvalue
  have hmembers' := (complete_dumpMembers encodeNumber (level + 1) members).trans hmembers
  rw [dump, Output.text_append (by simp [hvalue', hmembers']),
    Output.text_append (by simp [hvalue']), Output.text_append (by simp)]
  simp [Output.write]

theorem text_dumpItems (level : ℕ) {items : List Value} (hitem : item.isJson = true) :
    (dumpItems encodeNumber level (item :: items)).text =
      ',' :: newLine level ++ ((dump encodeNumber level item).text ++
        (dumpItems encodeNumber level items).text) := by
  have hitem' := (complete_dump encodeNumber level item).trans hitem
  rw [dumpItems, Output.text_append (by simp [hitem']), Output.text_append (by simp)]
  simp [Output.write]

theorem text_dumpMembers (level : ℕ) (key : Str) {members : List (Str × Value)}
    (hvalue : value.isJson = true) :
    (dumpMembers encodeNumber level ((key, value) :: members)).text =
      ',' :: (newLine level ++ (encodeString key ++ (':' :: ' ' ::
        ((dump encodeNumber level value).text ++ (dumpMembers encodeNumber level members).text)))) := by
  have hvalue' := (complete_dump encodeNumber level value).trans hvalue
  rw [dumpMembers, Output.text_append (by simp [hvalue']), Output.text_append (by simp)]
  simp [Output.write]

/-- The text of a value does not begin with a blank or a bracket that closes. -/
theorem head_dump (level : ℕ) (h : value.Readable encodeNumber) :
    ∃ c text, (dump encodeNumber level value).text = c :: text ∧ isBlank c = false ∧ c ≠ ']' := by
  match value with
  | .null => exact ⟨_, _, rfl, rfl, by decide⟩
  | .bool true => exact ⟨_, _, rfl, rfl, by decide⟩
  | .bool false => exact ⟨_, _, rfl, rfl, by decide⟩
  | .string codes => exact ⟨_, _, rfl, rfl, by decide⟩
  | .array [] => exact ⟨_, _, rfl, rfl, by decide⟩
  | .object [] => exact ⟨_, _, rfl, rfl, by decide⟩
  | .array (item :: items) =>
      exact ⟨_, _, text_dump_array level h.1.isJson (ItemsReadable.areJson h.2), rfl, by decide⟩
  | .object ((key, value) :: members) =>
      exact ⟨_, _, text_dump_object level key h.2.2.1.isJson (MembersReadable.areJson h.2.2.2), rfl,
        by decide⟩
  | .number text =>
      have htext : (dump encodeNumber level (.number text)).text = text := h.1
      rw [htext]
      cases h.2 with
      | nan | infinity | minusInfinity => exact ⟨_, _, rfl, rfl, by decide⟩
      | @written text part hpart hcomplete =>
          cases text with
          | nil => cases hpart
          | cons c text =>
              obtain ⟨first, hfirst, -⟩ := Option.bind_eq_some_iff.mp hpart
              obtain ⟨hblank, hclose, -⟩ := step_firstPart [] hfirst
              exact ⟨c, text, rfl, hblank, hclose⟩

theorem run_firstItem {c : Char} (hblank : isBlank c = false) (hclose : c ≠ ']') (text : Text) :
    run ⟨.firstItem, stack⟩ (c :: text) = run ⟨.value, .array [] :: stack⟩ (c :: text) := by
  have hstep : (State.mk .firstItem stack).step c =
      (State.mk .value (.array [] :: stack)).step c := by
    simp only [State.step, hblank, Bool.false_eq_true, if_false, if_neg hclose]
  rw [run, run, List.foldlM_cons, List.foldlM_cons, hstep]

end Pieces

/-! ### Whole values -/

mutual

/-- A value is read as it was written, by induction on the value. -/
theorem run_dump {encodeNumber : Text → Text} (level : ℕ) :
    ∀ {value : Value}, value.Readable encodeNumber → ∀ stack : List Frame,
      ∃ s, run ⟨.value, stack⟩ (dump encodeNumber level value).text = some s ∧
        Settled stack value s
  | .null, _, _ => ⟨_, rfl, .complete _⟩
  | .bool true, _, _ => ⟨_, rfl, .complete _⟩
  | .bool false, _, _ => ⟨_, rfl, .complete _⟩
  | .number text, h, _ => by
      have htext : (dump encodeNumber level (.number text)).text = text := h.1
      rw [htext]
      exact run_number h.2
  | .string codes, h, stack => by
      have hquote : (State.mk .value stack).step '"' = some ⟨.string .value [], stack⟩ := rfl
      refine ⟨_, ?_, .complete _⟩
      exact (run_step hquote _).trans (run_encodeString h [])
  | .array [], _, _ => ⟨_, rfl, .complete _⟩
  | .object [], _, _ => ⟨_, rfl, .complete _⟩
  | .array (item :: items), h, stack => by
      obtain ⟨s, hs, hsettled⟩ := run_dump (level + 1) h.1 (.array [] :: stack)
      have hitems := run_dumpItems (level + 1) h.2 hsettled level
      have hopen : (State.mk .value stack).step '[' = some ⟨.firstItem, stack⟩ := rfl
      have hblank : ∀ c, isBlank c = true →
          (State.mk .firstItem stack).step c = some ⟨.firstItem, stack⟩ := fun _ hc => if_pos hc
      obtain ⟨c, text, htext, hc, hclose⟩ := head_dump (level + 1) h.1
      refine ⟨_, ?_, .complete _⟩
      rw [text_dump_array level h.1.isJson (ItemsReadable.areJson h.2), run_step hopen,
        run_newLine (hblank '\n' rfl) hblank, htext, List.cons_append, run_firstItem hc hclose,
        ← List.cons_append, ← htext, run_append, hs, Option.bind_some, hitems]
      rfl
  | .object ((key, value) :: members), h, stack => by
      obtain ⟨s, hs, hsettled⟩ := run_dump (level + 1) h.2.2.1 (.object [] key :: stack)
      have hkeys : (([] : List (Str × Value)).map Prod.fst ++
          key :: members.map Prod.fst).Nodup := h.1
      have hmembers := run_dumpMembers (level + 1) h.2.2.2 hkeys hsettled level
      have hopen : (State.mk .value stack).step '{' = some ⟨.firstKey, stack⟩ := rfl
      have hblank : ∀ c, isBlank c = true →
          (State.mk .firstKey stack).step c = some ⟨.firstKey, stack⟩ := fun _ hc => if_pos hc
      refine ⟨_, ?_, .complete _⟩
      rw [text_dump_object level key h.2.2.1.isJson (MembersReadable.areJson h.2.2.2),
        run_step hopen, run_key hblank rfl h.2.1, run_append, hs, Option.bind_some, hmembers]
      rfl

/-- The items after `item`, and the end of the array. -/
theorem run_dumpItems {encodeNumber : Text → Text} (level : ℕ) :
    ∀ {items : List Value}, ItemsReadable encodeNumber items → ∀ {stack : List Frame}
      {before : List Value} {item : Value} {s : State}, Settled (.array before :: stack) item s →
      ∀ outer : ℕ, run s ((dumpItems encodeNumber level items).text ++ (newLine outer ++ [']'])) =
        some (complete stack (.array (before ++ item :: items)))
  | [], _, _, _, _, _, hsettled, outer => run_close_array hsettled outer []
  | next :: items, h, stack, before, item, _, hsettled, outer => by
      obtain ⟨s, hs, hsettled'⟩ := run_dump level h.1 (.array (before ++ [item]) :: stack)
      have hitems := run_dumpItems level h.2 hsettled' outer
      rw [text_dumpItems level h.1.isJson, List.append_assoc, run_next_item hsettled,
        List.append_assoc, run_append, hs, Option.bind_some, hitems, List.append_assoc]
      rfl

theorem run_dumpMembers {encodeNumber : Text → Text} (level : ℕ) :
    ∀ {members : List (Str × Value)}, MembersReadable encodeNumber members →
      ∀ {stack : List Frame} {before : List (Str × Value)} {key : Str} {value : Value} {s : State},
      (before.map Prod.fst ++ key :: members.map Prod.fst).Nodup →
      Settled (.object before key :: stack) value s → ∀ outer : ℕ,
      run s ((dumpMembers encodeNumber level members).text ++ (newLine outer ++ ['}'])) =
        some (complete stack (.object (before ++ (key, value) :: members)))
  | [], _, _, _, _, _, _, hkeys, hsettled, outer =>
      run_close_object hsettled (notMem_of_keys hkeys) outer []
  | (next, value') :: members, h, stack, before, key, value, _, hkeys, hsettled, outer => by
      have hkeys' : ((before ++ [(key, value)]).map Prod.fst ++
          next :: members.map Prod.fst).Nodup := by simpa using hkeys
      obtain ⟨s, hs, hsettled'⟩ :=
        run_dump level h.2.1 (.object (before ++ [(key, value)]) next :: stack)
      have hmembers := run_dumpMembers level h.2.2 hkeys' hsettled' outer
      rw [text_dumpMembers level next h.2.1.isJson]
      simp only [List.cons_append, List.append_assoc]
      rw [run_next_member hsettled (notMem_of_keys hkeys) h.1, run_append, hs, Option.bind_some,
        hmembers, List.append_assoc]
      rfl

end

/-- What was written is read. -/
theorem loads_dump {encodeNumber : Text → Text} {value : Value}
    (h : value.Readable encodeNumber) (level : ℕ) :
    loads (dump encodeNumber level value).text = some value := by
  obtain ⟨s, hs, hsettled⟩ := run_dump level h []
  rw [loads, initial, hs]
  exact hsettled.finish

end Json
