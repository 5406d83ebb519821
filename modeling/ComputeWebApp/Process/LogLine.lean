import ComputeWebApp.Library.PythonLimits
import ComputeWebApp.Library.Regex
import ComputeWebApp.Process.Runs

/-!
# The lines of a log

`parse_log` looks in a line for `[PROGRESS n%]` and `[ERROR message]` with two regular expressions
that have a wildcard at both ends.  Such an expression is found once in a line, at the last place
where it matches.  For the progress this is the last one, as it should be.  Of several errors only
the last one is kept, and since a message may hold any symbols, it extends to the last `]` of the
line.  A progress of more digits than `int` reads is not parsed at all.
-/

namespace ComputeWebApp.Api

open Regex

/-! ## The expressions -/

/-- The first and the last of each run of white space. -/
def whiteSpace : List (ℕ × ℕ) :=
  [(0x9, 0xD), (0x1C, 0x20), (0x85, 0x85), (0xA0, 0xA0), (0x1680, 0x1680), (0x2000, 0x200A),
    (0x2028, 0x2029), (0x202F, 0x202F), (0x205F, 0x205F), (0x3000, 0x3000)]

/-- `\s` -/
def isSpace (c : Char) : Bool :=
  whiteSpace.any fun run => run.1 ≤ c.toNat && c.toNat ≤ run.2

/-- `.` -/
def notNewline (c : Char) : Bool := c ≠ '\n'

def progressName : List Char := ['[', 'P', 'R', 'O', 'G', 'R', 'E', 'S', 'S']

def errorName : List Char := ['[', 'E', 'R', 'R', 'O', 'R']

/-- `\[PROGRESS\s([0-9]+)[%]\]` -/
def progressTag : Expression Char where
  before := .seq (literal progressName) (.one isSpace)
  group := plus Char.isDigit
  after := literal ['%', ']']

/-- `\[ERROR\s*(.*)\]` -/
def errorTag : Expression Char where
  before := .seq (literal errorName) (.star isSpace)
  group := .star notNewline
  after := literal [']']

def progressExpression : Expression Char := progressTag.wildcards notNewline

def errorExpression : Expression Char := errorTag.wildcards notNewline

inductive ExceptionKind
  | fileNotFoundError
  | permissionError
  | otherOSError
  | unicodeDecodeError
  | valueError
  | other (name : String)
  deriving DecidableEq, Repr

/-- An exception, with its text. -/
structure Raised where
  kind : ExceptionKind
  text : String
  deriving DecidableEq, Repr

/-- The digits of the progress that the first expression finds in a line. -/
def progressDigits (line : String) : Option (List Char) :=
  (progressExpression.findAll line.toList).getLast?

/-- The number that digits write. -/
def digitsValue (digits : List Char) : ℕ := Nat.ofDigitChars 10 digits 0

def progressFound (line : String) : Option ℕ := (progressDigits line).map digitsValue

/-- The errors that the second expression finds in a line. -/
def errorsFound (line : String) : List String :=
  (errorExpression.findAll line.toList).map String.ofList

/-- `int` reads the digits of the progress. -/
def ReadsProgress (limits : Python.Limits) (line : String) : Prop :=
  ∀ digits ∈ progressDigits line, Python.Within limits.strDigits digits.length

instance (limits : Python.Limits) (line : String) : Decidable (ReadsProgress limits line) :=
  inferInstanceAs (Decidable (∀ digits ∈ progressDigits line, _))

/-- What `int` raises for the digits of a progress. -/
def tooManyDigits : Raised := ⟨.valueError, "Exceeds the limit for integer string conversion"⟩

/-- The status with the progress and the errors of a line. -/
def parsedLine (status : Status) (line : String) : Status :=
  parseLog status (progressFound line) (errorsFound line)

/-- `parse_log` -/
def parseLogLine (limits : Python.Limits) (status : Status) (line : String) :
    Except Raised Status :=
  if ReadsProgress limits line then .ok (parsedLine status line) else .error tooManyDigits

theorem parseLog_parseLog (status : Status) (first second : Option ℕ) (errors more : List String) :
    parseLog (parseLog status first errors) second more =
      parseLog status (second.or first) (errors ++ more) := by
  rw [parseLog, parseLog, parseLog, List.append_assoc]
  cases second <;> rfl

/-- The lines of a log: the last progress counts, and the errors are collected. -/
theorem foldl_parsedLine (status : Status) (lines : List String) :
    lines.foldl parsedLine status =
      parseLog status (lines.filterMap progressFound).getLast? (lines.flatMap errorsFound) := by
  induction lines generalizing status with
  | nil => simp [parseLog]
  | cons line lines ih =>
      have hprogress : ((line :: lines).filterMap progressFound).getLast? =
          (lines.filterMap progressFound).getLast?.or (progressFound line) := by
        rw [List.filterMap_cons]
        cases progressFound line with
        | none => rw [Option.or_none]
        | some progress =>
            rw [List.getLast?_cons]
            cases (lines.filterMap progressFound).getLast? <;> rfl
      rw [List.foldl_cons, ih, parsedLine, parseLog_parseLog, hprogress, List.flatMap_cons]

/-! ## Tags -/

/-- A symbol that may stand in a tag. -/
def isPlain (c : Char) : Bool := c ≠ '[' && c ≠ ']'

/-- What stands between the name and the `]` of a tag that begins here. -/
def tagAt (name place : List Char) : Option (List Char) :=
  if name <+: place then
    let text := (place.drop name.length).takeWhile isPlain
    if text ++ [']'] <+: place.drop name.length then some text else none
  else none

/-- The tags of that name, in their order. -/
def tags (name line : List Char) : List (List Char) := line.tails.filterMap (tagAt name)

/-- The digits of `[PROGRESS n%]`. -/
def progressText : List Char → Option (List Char)
  | [] => none
  | c :: rest =>
      if isSpace c && rest.getLast? = some '%' && !rest.dropLast.isEmpty &&
          rest.dropLast.all Char.isDigit then
        some rest.dropLast
      else none

def progressTexts (line : List Char) : List (List Char) :=
  (tags progressName line).filterMap progressText

def progressNumbers (line : List Char) : List ℕ := (progressTexts line).map digitsValue

/-- The last progress of the line has no more digits than `int` reads. -/
def ShortProgress (limits : Python.Limits) (line : List Char) : Prop :=
  ∀ digits ∈ (progressTexts line).getLast?, Python.Within limits.strDigits digits.length

/-- The messages of the errors, without the white space they start with. -/
def errorMessages (line : List Char) : List (List Char) :=
  (tags errorName line).map (List.dropWhile isSpace)

/-- **The line is parsed as it is meant**: the last progress replaces the one of the status, and
the messages of all errors are appended. -/
def ParsesLine (limits : Python.Limits) (status : Status) (line : String) : Prop :=
  parseLogLine limits status line =
    .ok { status with
      progress := (progressNumbers line.toList).getLast?.getD status.progress
      errors := status.errors ++ (errorMessages line.toList).map String.ofList }

example : parsedLine .begun "[PROGRESS 5%] [ERROR a] [PROGRESS 20%] [ERROR  b]\n" =
    { Status.begun with progress := 20, errors := ["b"] } := by decide +kernel

example : errorMessages "[PROGRESS 5%] [ERROR a] [PROGRESS 20%] [ERROR  b]\n".toList =
    ["a".toList, "b".toList] := by decide +kernel

/-! ## Where a tag is -/

theorem tagAt_eq_some {name place text : List Char} :
    tagAt name place = some text ↔
      (∃ after, place = name ++ (text ++ ']' :: after)) ∧ ∀ c ∈ text, isPlain c = true := by
  constructor
  · intro h
    rw [tagAt] at h
    split at h
    · rename_i hname
      obtain ⟨rest, rfl⟩ := hname
      rw [List.drop_left] at h
      dsimp only at h
      split at h
      · rename_i hclosed
        obtain ⟨after, hafter⟩ := hclosed
        cases h
        exact ⟨⟨after, congrArg (name ++ ·) (hafter.symm.trans (List.append_assoc _ _ _))⟩,
          List.all_eq_true.mp List.all_takeWhile⟩
      · cases h
    · cases h
  · rintro ⟨⟨after, rfl⟩, hplain⟩
    have htake : (text ++ ']' :: after).takeWhile isPlain = text := by
      rw [List.takeWhile_append_of_pos hplain, List.takeWhile_cons_of_neg (by decide),
        List.append_nil]
    have hclosed : text ++ [']'] <+: text ++ ']' :: after := ⟨after, by simp⟩
    rw [tagAt, if_pos (List.prefix_append _ _), List.drop_left]
    dsimp only
    rw [htake, if_pos hclosed]

theorem mem_tags {name line text : List Char} :
    text ∈ tags name line ↔
      (∃ before after, line = before ++ (name ++ (text ++ ']' :: after))) ∧
        ∀ c ∈ text, isPlain c = true := by
  rw [tags, List.mem_filterMap]
  constructor
  · rintro ⟨place, hplace, htag⟩
    obtain ⟨⟨after, rfl⟩, hplain⟩ := tagAt_eq_some.mp htag
    obtain ⟨before, hbefore⟩ := (List.mem_tails _ line).mp hplace
    exact ⟨⟨before, after, hbefore.symm⟩, hplain⟩
  · rintro ⟨⟨before, after, rfl⟩, hplain⟩
    exact ⟨_, (List.mem_tails _ _).mpr (List.suffix_append _ _),
      tagAt_eq_some.mpr ⟨⟨after, rfl⟩, hplain⟩⟩

/-- An expression that begins with a name is found only where the name is. -/
theorem search_eq_none_of_not_prefix {expression : Expression Char} {name place : List Char}
    {rest : Pattern Char} (hbefore : expression.before = .seq (literal name) rest)
    (h : ¬name <+: place) : expression.search place = none := by
  rw [Option.eq_none_iff_forall_ne_some]
  rintro ⟨captured, left⟩ hsearch
  obtain ⟨before, after, rfl, htaken, -⟩ := expression.exists_of_search hsearch
  rw [hbefore] at htaken
  obtain ⟨first, second, rfl, hfirst, -⟩ := htaken
  rw [takes_literal.mp hfirst] at h
  exact h ⟨second ++ (captured ++ (after ++ left)), by simp⟩

theorem search_short {expression : Expression Char} {name place : List Char}
    {rest : Pattern Char} (hbefore : expression.before = .seq (literal name) rest)
    (h : place.length < name.length) : expression.search place = none := by
  refine search_eq_none_of_not_prefix hbefore fun hprefix => ?_
  have := hprefix.length_le
  omega

/-- What a tag between wildcards finds in a line: the last of its matches. -/
theorem findAll_tag {expression : Expression Char} {name line : List Char} {rest : Pattern Char}
    (hbefore : expression.before = .seq (literal name) rest) (hname : 1 < name.length)
    (hline : ∀ c ∈ line.dropLast, c ≠ '\n') :
    (expression.wildcards notNewline).findAll line =
      ((line.tails.filterMap expression.search).getLast?.map Prod.fst).toList := by
  refine expression.findAll_wildcards (fun c hc => decide_eq_true (hline c hc)) ?_ fun c _ => ?_
  · exact search_short hbefore (by rw [List.length_nil]; omega)
  · exact search_short hbefore hname

/-! ## Progress -/

/-- A tag with the digits of a progress begins here. -/
def ProgressAt (place digits : List Char) : Prop :=
  ∃ blank after, place = progressName ++ (blank :: (digits ++ ('%' :: ']' :: after))) ∧
    isSpace blank = true ∧ digits ≠ [] ∧ ∀ c ∈ digits, c.isDigit = true

theorem progressAt_of_search {place digits left : List Char}
    (h : progressTag.search place = some (digits, left)) : ProgressAt place digits := by
  obtain ⟨before, after, rfl, hbefore, hgroup, hafter⟩ := progressTag.exists_of_search h
  obtain ⟨name, second, rfl, hname, blank, rfl, hblank⟩ := hbefore
  obtain ⟨head, tail, rfl, ⟨digit, rfl, hdigit⟩, htail⟩ := hgroup
  rw [takes_literal.mp hname, takes_literal.mp hafter]
  exact ⟨blank, left, by simp, hblank, by simp, List.forall_mem_cons.mpr ⟨hdigit, htail⟩⟩

theorem search_of_progressAt {place digits : List Char} (h : ProgressAt place digits) :
    progressTag.search place ≠ none := by
  obtain ⟨blank, after, rfl, hblank, hne, hdigits⟩ := h
  obtain ⟨digit, rest, rfl⟩ := List.exists_cons_of_ne_nil hne
  have hbefore : progressTag.before.Takes (progressName ++ [blank]) :=
    ⟨progressName, [blank], rfl, takes_literal.mpr rfl, blank, rfl, hblank⟩
  have hgroup : progressTag.group.Takes (digit :: rest) :=
    ⟨[digit], rest, rfl, ⟨digit, rfl, hdigits digit List.mem_cons_self⟩,
      fun c hc => hdigits c (List.mem_cons_of_mem digit hc)⟩
  have hafter : progressTag.after.Takes ['%', ']'] := takes_literal.mpr rfl
  have := progressTag.search_ne_none after hbefore hgroup hafter
  simpa using this

theorem isPlain_of_isDigit {c : Char} (h : c.isDigit = true) : isPlain c = true := by
  rw [isPlain, Bool.and_eq_true, decide_eq_true_eq, decide_eq_true_eq]
  constructor <;> rintro rfl <;> cases h

theorem isPlain_of_isSpace {c : Char} (h : isSpace c = true) : isPlain c = true := by
  rw [isPlain, Bool.and_eq_true, decide_eq_true_eq, decide_eq_true_eq]
  constructor <;> rintro rfl <;> revert h <;> decide

theorem progressText_eq_some {text digits : List Char} :
    progressText text = some digits ↔ ∃ blank, text = blank :: (digits ++ ['%']) ∧
      isSpace blank = true ∧ digits ≠ [] ∧ ∀ c ∈ digits, c.isDigit = true := by
  constructor
  · intro h
    cases text with
    | nil => cases h
    | cons blank rest =>
        rw [progressText] at h
        split at h
        · rename_i hall
          cases h
          simp only [Bool.and_eq_true, decide_eq_true_eq, Bool.not_eq_true', List.all_eq_true,
            List.isEmpty_eq_false_iff] at hall
          obtain ⟨⟨⟨hblank, hlast⟩, hne⟩, hdigits⟩ := hall
          have hrest : rest.dropLast ++ ['%'] = rest := List.dropLast_append_getLast? '%' hlast
          exact ⟨blank, by rw [hrest], hblank, hne, hdigits⟩
        · cases h
  · rintro ⟨blank, rfl, hblank, hne, hdigits⟩
    have hall : digits.all Char.isDigit = true := List.all_eq_true.mpr hdigits
    rw [progressText, List.dropLast_concat, if_pos]
    simp [hblank, hne, hall]

theorem progressText_tagAt {place digits : List Char} :
    (tagAt progressName place).bind progressText = some digits ↔ ProgressAt place digits := by
  rw [Option.bind_eq_some_iff]
  constructor
  · rintro ⟨text, htag, hdigits⟩
    obtain ⟨⟨after, rfl⟩, -⟩ := tagAt_eq_some.mp htag
    obtain ⟨blank, rfl, hblank, hne, hdigits⟩ := progressText_eq_some.mp hdigits
    exact ⟨blank, after, by simp, hblank, hne, hdigits⟩
  · rintro ⟨blank, after, rfl, hblank, hne, hdigits⟩
    refine ⟨blank :: (digits ++ ['%']), tagAt_eq_some.mpr ⟨⟨after, by simp⟩, ?_⟩,
      progressText_eq_some.mpr ⟨blank, rfl, hblank, hne, hdigits⟩⟩
    intro c hc
    rcases List.mem_cons.mp hc with rfl | hc
    · exact isPlain_of_isSpace hblank
    · rcases List.mem_append.mp hc with hc | hc
      · exact isPlain_of_isDigit (hdigits c hc)
      · rw [List.mem_singleton.mp hc]
        decide

/-- The expression and the tag agree about every place. -/
theorem search_progressTag (place : List Char) :
    (progressTag.search place).map Prod.fst = (tagAt progressName place).bind progressText := by
  cases hsearch : progressTag.search place with
  | none =>
      symm
      rw [Option.map_none, Option.eq_none_iff_forall_ne_some]
      intro digits hdigits
      exact search_of_progressAt (progressText_tagAt.mp hdigits) hsearch
  | some found =>
      obtain ⟨digits, left⟩ := found
      exact (progressText_tagAt.mpr (progressAt_of_search hsearch)).symm

/-- The progress is right for every line. -/
theorem progress_found {line : List Char} (hline : ∀ c ∈ line.dropLast, c ≠ '\n') :
    (progressExpression.findAll line).getLast? = (progressTexts line).getLast? := by
  have htexts : progressTexts line = (line.tails.filterMap progressTag.search).map Prod.fst := by
    rw [progressTexts, tags, List.filterMap_filterMap, List.map_filterMap]
    congr 1
    funext place
    exact (search_progressTag place).symm
  rw [progressExpression, findAll_tag rfl (by decide) hline, htexts, List.getLast?_map]
  cases (line.tails.filterMap progressTag.search).getLast? <;> rfl

theorem readsProgress_iff {limits : Python.Limits} {line : String}
    (hline : ∀ c ∈ line.toList.dropLast, c ≠ '\n') :
    ReadsProgress limits line ↔ ShortProgress limits line.toList := by
  rw [ReadsProgress, ShortProgress, progressDigits, progress_found hline]

theorem progressFound_eq {line : String} (hline : ∀ c ∈ line.toList.dropLast, c ≠ '\n') :
    progressFound line = (progressNumbers line.toList).getLast? := by
  rw [progressFound, progressDigits, progress_found hline, progressNumbers, List.getLast?_map]

/-! ## Errors -/

theorem exists_last {α : Type} {a : α} {list : List α} (h : a ∈ list) :
    ∃ before after, list = before ++ a :: after ∧ a ∉ after := by
  induction list with
  | nil => cases h
  | cons b list ih =>
      by_cases hrest : a ∈ list
      · obtain ⟨before, after, rfl, hafter⟩ := ih hrest
        exact ⟨b :: before, after, rfl, hafter⟩
      · obtain rfl : a = b := (List.mem_cons.mp h).resolve_right hrest
        exact ⟨[], list, rfl, hrest⟩

/-- A place that begins with a symbol the front does not have is in the back. -/
theorem suffix_of_head_not_mem {α : Type} {a : α} {front back before rest : List α} (ha : a ∉ front)
    (h : front ++ back = before ++ a :: rest) : a :: rest <:+ back := by
  induction front generalizing before with
  | nil => exact ⟨before, h.symm⟩
  | cons b front ih =>
      cases before with
      | nil =>
          rw [List.nil_append, List.cons_append, List.cons.injEq] at h
          exact absurd (h.1 ▸ List.mem_cons_self) ha
      | cons c before =>
          rw [List.cons_append, List.cons_append, List.cons.injEq] at h
          exact ih (fun hmem => ha (List.mem_cons_of_mem b hmem)) h.2

/-- The message extends to the last `]`. -/
theorem search_errorTag {text captured after : List Char}
    (htext : text.dropWhile isSpace = captured ++ ']' :: after)
    (hcaptured : ∀ c ∈ captured, c ≠ '\n') (hafter : ']' ∉ after) :
    errorTag.search (errorName ++ text) = some (captured, after) := by
  let next : List Char → List Char → Option (List Char × List Char) := fun captured left =>
    errorTag.after.first left fun _ left => some (captured, left)
  have hclosed : next captured (']' :: after) = some (captured, after) := rfl
  have hlongest : ∀ more left, ']' :: after = more ++ left → more ≠ [] →
      next (captured ++ more) left = none := by
    intro more left hsplit hne
    refine first_literal_eq_none fun hprefix => ?_
    obtain ⟨rest, rfl⟩ := hprefix
    obtain ⟨symbol, more, rfl⟩ := List.exists_cons_of_ne_nil hne
    rw [List.cons_append, List.cons.injEq] at hsplit
    exact hafter (by rw [hsplit.2]; simp)
  have hgroup : greedy notNewline (captured ++ ']' :: after) next = some (captured, after) :=
    greedy_eq_some rfl (fun c hc => decide_eq_true (hcaptured c hc)) hclosed hlongest
  have hblanks : greedy isSpace text (fun _ left => greedy notNewline left next) =
      some (captured, after) := by
    refine greedy_takeWhile ?_
    rw [htext, hgroup]
  calc errorTag.search (errorName ++ text)
      = (literal errorName).first (errorName ++ text) fun _ left =>
          greedy isSpace left fun _ left => greedy notNewline left next := rfl
    _ = greedy isSpace text fun _ left => greedy notNewline left next := first_literal _ _ _
    _ = some (captured, after) := hblanks

theorem mem_of_search_errorTag {place captured left : List Char}
    (h : errorTag.search place = some (captured, left)) :
    ∃ text, place = errorName ++ text ∧ ']' ∈ text := by
  obtain ⟨before, after, rfl, hbefore, -, hafter⟩ := errorTag.exists_of_search h
  obtain ⟨name, blanks, rfl, hname, -⟩ := hbefore
  rw [takes_literal.mp hname, takes_literal.mp hafter]
  exact ⟨blanks ++ (captured ++ ([']'] ++ left)), by simp, by simp⟩

theorem mem_dropWhile {α : Type} (accepts : α → Bool) {a : α} {list : List α} (h : a ∈ list)
    (ha : accepts a = false) : a ∈ list.dropWhile accepts := by
  induction list with
  | nil => cases h
  | cons b list ih =>
      cases hb : accepts b with
      | false =>
          rw [List.dropWhile_cons_of_neg (by simp [hb])]
          exact h
      | true =>
          rw [List.dropWhile_cons_of_pos hb]
          refine ih ((List.mem_cons.mp h).resolve_left ?_)
          rintro rfl
          rw [ha] at hb
          cases hb

section Errors

variable {line : List Char}

/-- Somewhere after a `[ERROR` there is a `]`. -/
def ErrorOpened (line : List Char) : Prop :=
  ∃ before text, line = before ++ (errorName ++ text) ∧ ']' ∈ text

/-- The line has one error, and no `]` after it. -/
def OneErrorLast (line : List Char) : Prop :=
  (tags errorName line).length = 1 ∧
    ∃ before message after, line = before ++ (errorName ++ (message ++ ']' :: after)) ∧
      (∀ c ∈ message, isPlain c = true) ∧ ']' ∉ after

theorem notNewline_of_split {before rest : List Char} (hline : ∀ c ∈ line.dropLast, c ≠ '\n')
    (h : line = before ++ rest) (hne : rest ≠ []) : ∀ c ∈ before, c ≠ '\n' := by
  intro c hc
  refine hline c ?_
  rw [h, List.dropLast_append_of_ne_nil hne]
  exact List.mem_append_left _ hc

/-- What is found where an error is opened. -/
theorem search_of_opened (hline : ∀ c ∈ line.dropLast, c ≠ '\n') {before text : List Char}
    (h : line = before ++ (errorName ++ text)) (hclosed : ']' ∈ text) :
    ∃ blanks captured after, text = blanks ++ (captured ++ ']' :: after) ∧
      (∀ c ∈ blanks, isSpace c = true) ∧ ']' ∉ after ∧
      errorTag.search (errorName ++ text) = some (captured, after) := by
  obtain ⟨captured, after, hdrop, hafter⟩ :=
    exists_last (mem_dropWhile isSpace hclosed (by decide))
  have htext : text = text.takeWhile isSpace ++ (captured ++ ']' :: after) := by
    rw [← hdrop, List.takeWhile_append_dropWhile]
  have hcaptured : ∀ c ∈ captured, c ≠ '\n' := by
    intro c hc
    have hsplit : line =
        (before ++ errorName ++ text.takeWhile isSpace ++ captured) ++ ']' :: after := by
      rw [h]
      nth_rewrite 1 [htext]
      simp
    exact notNewline_of_split hline hsplit (List.cons_ne_nil _ _) c (by simp [hc])
  exact ⟨text.takeWhile isSpace, captured, after, htext, List.all_eq_true.mp List.all_takeWhile,
    hafter, search_errorTag hdrop hcaptured hafter⟩

/-- The matches of a line without its last place are the matches before it. -/
theorem getLast?_filterMap_tails {α β : Type} {next : List α → Option β} {before place : List α}
    {result : β} (hresult : next place = some result)
    (hlast : ∀ more left, place = more ++ left → more ≠ [] → next left = none) :
    ((before ++ place).tails.filterMap next).getLast? = some result := by
  have haccepts : ∀ text left, before ++ place = text ++ left → (next left).isSome = true →
      ∀ symbol ∈ text, (fun _ : α => true) symbol = true := fun _ _ _ _ _ _ => rfl
  rw [← greedy_eq_getLast? haccepts]
  exact greedy_eq_some rfl (fun _ _ => rfl) hresult hlast

theorem errors_of_not_opened (hline : ∀ c ∈ line.dropLast, c ≠ '\n') (h : ¬ErrorOpened line) :
    errorExpression.findAll line = [] ∧ tags errorName line = [] := by
  have hnone : line.tails.filterMap errorTag.search = [] := by
    refine List.filterMap_eq_nil_iff.mpr fun place hplace => ?_
    rw [Option.eq_none_iff_forall_ne_some]
    rintro ⟨captured, left⟩ hsearch
    obtain ⟨text, rfl, hclosed⟩ := mem_of_search_errorTag hsearch
    obtain ⟨before, hbefore⟩ := (List.mem_tails _ line).mp hplace
    exact h ⟨before, text, hbefore.symm, hclosed⟩
  constructor
  · rw [errorExpression, findAll_tag rfl (by decide) hline, hnone]
    rfl
  · rw [List.eq_nil_iff_forall_not_mem]
    intro text htext
    obtain ⟨⟨before, after, hsplit⟩, -⟩ := mem_tags.mp htext
    exact h ⟨before, _, hsplit, by simp⟩

theorem dropWhile_message {message after : List Char} :
    (message ++ ']' :: after).dropWhile isSpace = message.dropWhile isSpace ++ ']' :: after := by
  induction message with
  | nil => rfl
  | cons c message ih =>
      rw [List.cons_append, List.dropWhile_cons, List.dropWhile_cons]
      split
      · exact ih
      · rfl

theorem errors_of_oneErrorLast (hline : ∀ c ∈ line.dropLast, c ≠ '\n') (h : OneErrorLast line) :
    errorExpression.findAll line = errorMessages line := by
  obtain ⟨hone, before, message, after, hsplit, hplain, hafter⟩ := h
  have hmessages : errorMessages line = [message.dropWhile isSpace] := by
    obtain ⟨text, htext⟩ := List.length_eq_one_iff.mp hone
    have hmem : message ∈ tags errorName line := mem_tags.mpr ⟨⟨before, after, hsplit⟩, hplain⟩
    rw [htext, List.mem_singleton] at hmem
    rw [errorMessages, htext, hmem]
    rfl
  have hcaptured : ∀ c ∈ message.dropWhile isSpace, c ≠ '\n' := by
    intro c hc
    have hparts : line = (before ++ errorName ++ message) ++ ']' :: after := by simp [hsplit]
    refine notNewline_of_split hline hparts (List.cons_ne_nil _ _) c ?_
    exact List.mem_append_right _ ((List.dropWhile_suffix isSpace).subset hc)
  -- a later place has its name after the tag, where no `]` follows
  have hlater : ∀ more left, errorName ++ (message ++ ']' :: after) = more ++ left → more ≠ [] →
      errorTag.search left = none := by
    intro more left hmore hne
    rw [Option.eq_none_iff_forall_ne_some]
    rintro ⟨captured, rest⟩ hsearch
    obtain ⟨text, rfl, hclosed⟩ := mem_of_search_errorTag hsearch
    obtain ⟨symbol, more, rfl⟩ := List.exists_cons_of_ne_nil hne
    have htail : (['E', 'R', 'R', 'O', 'R'] ++ message ++ [']']) ++ after =
        more ++ '[' :: (['E', 'R', 'R', 'O', 'R'] ++ text) := by
      have hcons := hmore
      rw [List.cons_append] at hcons
      simpa [errorName] using (List.cons.inj hcons).2
    have hfront : '[' ∉ ['E', 'R', 'R', 'O', 'R'] ++ message ++ [']'] := by
      have hmessage : '[' ∉ message := fun hmem => absurd (hplain _ hmem) (by decide)
      simp [hmessage]
    have hsuffix := suffix_of_head_not_mem hfront htail
    exact hafter (hsuffix.subset (by simp [hclosed]))
  rw [hmessages, errorExpression, findAll_tag rfl (by decide) hline, hsplit,
    getLast?_filterMap_tails (search_errorTag dropWhile_message hcaptured hafter) hlater]
  rfl

theorem oneErrorLast_of_errors (hline : ∀ c ∈ line.dropLast, c ≠ '\n')
    (h : errorExpression.findAll line = errorMessages line) (hopened : ErrorOpened line) :
    OneErrorLast line := by
  obtain ⟨start, opened, hstart, hclosed⟩ := hopened
  obtain ⟨-, found, rest, -, -, -, hfirst⟩ := search_of_opened hline hstart hclosed
  have hmem : (found, rest) ∈ line.tails.filterMap errorTag.search :=
    List.mem_filterMap.mpr ⟨_, (List.mem_tails _ line).mpr ⟨start, hstart.symm⟩, hfirst⟩
  obtain ⟨⟨captured, left⟩, hlast⟩ := Option.isSome_iff_exists.mp
    (List.getLast?_isSome.mpr (List.ne_nil_of_mem hmem))
  have hmessages : errorMessages line = [captured] := by
    rw [← h, errorExpression, findAll_tag rfl (by decide) hline, hlast]
    rfl
  have hone : (tags errorName line).length = 1 := by
    have hlength := congrArg List.length hmessages
    rwa [errorMessages, List.length_map] at hlength
  obtain ⟨place, hplace, hsearch⟩ := List.mem_filterMap.mp (List.mem_of_getLast? hlast)
  obtain ⟨text, rfl, htext⟩ := mem_of_search_errorTag hsearch
  obtain ⟨before, hbefore⟩ := (List.mem_tails _ line).mp hplace
  obtain ⟨blanks, captured', after, hsplit, hblanks, hafter, hsame⟩ :=
    search_of_opened hline hbefore.symm htext
  obtain ⟨rfl, rfl⟩ : captured = captured' ∧ left = after := by
    simpa using hsearch.symm.trans hsame
  -- what is captured is the message of a tag, and has no brackets
  have hcaptured : ∀ c ∈ captured, isPlain c = true := by
    have hmem : captured ∈ errorMessages line := by
      rw [hmessages]
      exact List.mem_singleton_self captured
    obtain ⟨message, hmessage, rfl⟩ := List.mem_map.mp hmem
    exact fun c hc => (mem_tags.mp hmessage).2 c ((List.dropWhile_suffix isSpace).subset hc)
  refine ⟨hone, before, blanks ++ captured, left, ?_, ?_, hafter⟩
  · rw [← hbefore, hsplit, List.append_assoc]
  · intro c hc
    rcases List.mem_append.mp hc with hc | hc
    · exact isPlain_of_isSpace (hblanks c hc)
    · exact hcaptured c hc

end Errors

/-! ## Lines with nothing but a progress -/

section ProgressLine

variable {line : String} {digits : List Char}
  (hline : line.toList = progressName ++ (' ' :: (digits ++ ['%']) ++ ']' :: ['\n']))
  (hdigits : ∀ c ∈ digits, c.isDigit = true)

include hline hdigits

/-- No other tag begins in the line. -/
theorem open_not_mem_tail : '[' ∉ line.toList.tail := by
  rw [hline]
  intro hmem
  have hdigit : '[' ∈ digits := by simpa [progressName] using hmem
  exact absurd (hdigits _ hdigit) (by decide)

theorem newline_last : ∀ c ∈ line.toList.dropLast, c ≠ '\n' := by
  intro c hc
  rw [hline] at hc
  rintro rfl
  have hdigit : '\n' ∈ digits := by
    simpa [progressName, List.dropLast_append_of_ne_nil, List.dropLast_cons_of_ne_nil] using hc
  exact absurd (hdigits _ hdigit) (by decide)

theorem progressDigits_line (hne : digits ≠ []) : progressDigits line = some digits := by
  have htext : (tagAt progressName line.toList).bind progressText = some digits :=
    progressText_tagAt.mpr ⟨' ', ['\n'], by rw [hline]; simp, by decide, hne, hdigits⟩
  rw [progressDigits, progress_found (newline_last hline hdigits), progressTexts, tags,
    List.filterMap_filterMap, ← List.nil_append line.toList]
  refine getLast?_filterMap_tails htext fun more left hsplit hmore => ?_
  -- no other place of the line begins with the name
  have hopen : ¬progressName <+: left := by
    rintro ⟨after, rfl⟩
    refine open_not_mem_tail hline hdigits ?_
    rw [hsplit, List.tail_append_of_ne_nil hmore]
    simp [progressName]
  rw [tagAt, if_neg hopen]
  rfl

theorem errorsFound_line : errorsFound line = [] := by
  have hopened : ¬ErrorOpened line.toList := by
    rintro ⟨before, text, hsplit, -⟩
    cases before with
    | nil =>
        rw [hline] at hsplit
        simp [progressName, errorName] at hsplit
    | cons c before =>
        refine open_not_mem_tail hline hdigits ?_
        rw [hsplit, List.cons_append, List.tail_cons]
        simp [errorName]
  rw [errorsFound, (errors_of_not_opened (newline_last hline hdigits) hopened).1]
  rfl

end ProgressLine

/-- **A line is parsed as it is meant** exactly when `int` reads its last progress, and it opens no
error, or has one error and no `]` after it. -/
theorem parse_log_right_iff (limits : Python.Limits) (status : Status) {line : String}
    (hline : ∀ c ∈ line.toList.dropLast, c ≠ '\n') :
    ParsesLine limits status line ↔
      ShortProgress limits line.toList ∧
        (¬ErrorOpened line.toList ∨ OneErrorLast line.toList) := by
  have hparsed : ParsesLine limits status line ↔ ShortProgress limits line.toList ∧
      errorExpression.findAll line.toList = errorMessages line.toList := by
    rw [ParsesLine, parseLogLine, ← readsProgress_iff hline]
    by_cases hshort : ReadsProgress limits line
    · rw [if_pos hshort, parsedLine, progressFound_eq hline, Except.ok.injEq]
      constructor
      · intro h
        have herrors := congrArg Status.errors h
        exact ⟨hshort, List.map_injective_iff.mpr (fun _ _ => String.ofList_injective)
          (List.append_cancel_left herrors)⟩
      · rintro ⟨-, h⟩
        rw [errorsFound, h]
        rfl
    · rw [if_neg hshort]
      exact iff_of_false (fun h => by cases h) fun h => hshort h.1
  rw [hparsed]
  refine and_congr_right fun _ => ?_
  constructor
  · intro h
    by_cases hopened : ErrorOpened line.toList
    · exact .inr (oneErrorLast_of_errors hline h hopened)
    · exact .inl hopened
  · rintro (hopened | hone)
    · obtain ⟨hfound, htags⟩ := errors_of_not_opened hline hopened
      rw [hfound, errorMessages, htags]
      rfl
    · exact errors_of_oneErrorLast hline hone

/-- A progress and an error in one line. -/
theorem parse_log_right_one_error :
    ParsesLine Python.cpython .begun "[PROGRESS 20%] [ERROR  b]\n" := by
  have hline : ("[PROGRESS 20%] [ERROR  b]\n".toList.dropLast.all fun c => c ≠ '\n') = true := by
    decide
  have hone : (tags errorName "[PROGRESS 20%] [ERROR  b]\n".toList).length = 1 := by
    decide +kernel
  have htexts : progressTexts "[PROGRESS 20%] [ERROR  b]\n".toList = [['2', '0']] := by
    decide +kernel
  refine (parse_log_right_iff Python.cpython .begun
    fun c hc => of_decide_eq_true (List.all_eq_true.mp hline c hc)).mpr ⟨?_, .inr ⟨hone, ?_⟩⟩
  · rw [ShortProgress, htexts]
    decide
  refine ⟨"[PROGRESS 20%] ".toList, [' ', ' ', 'b'], ['\n'], by decide, fun c hc => ?_, by decide⟩
  have hplain : [' ', ' ', 'b'].all isPlain = true := by decide
  exact List.all_eq_true.mp hplain c hc

/-- Of two errors in a line the first one is lost. -/
theorem parse_log_loses_error : ¬ParsesLine Python.cpython .begun "[ERROR a] [ERROR b]\n" := by
  have herrors : (parsedLine .begun "[ERROR a] [ERROR b]\n").errors = ["b"] := by decide +kernel
  have hmessages : (errorMessages "[ERROR a] [ERROR b]\n".toList).length = 2 := by decide +kernel
  intro h
  rw [ParsesLine, parseLogLine] at h
  split at h
  · have hboth := congrArg (fun status : Status => status.errors.length) (Except.ok.inj h)
    rw [herrors, List.length_append, List.length_map, hmessages] at hboth
    exact absurd hboth (by decide)
  · cases h

end ComputeWebApp.Api
