import ComputeWebApp.Library.Json

/-!
# Parts of JSON texts

How many brackets are open and whether this is inside of a string (`Lex`) can be read off a text
without its grammar.  Two scans that differ about the second never end outside of strings both
(`Lex.Opposite.scan`), and two that agree about it go on to differ about the first
(`Lex.scan_shift`).  So the rest of a text, once an array or an object is open in it, is no JSON text
by itself (`Lex.scan_rest_ne`, `loads_parts`).
-/

namespace Json

/-! ## Brackets and strings -/

/-- What of a symbol counts for the brackets that are open. -/
inductive Kind
  | quote
  | backslash
  | opens
  | closes
  | plain
  deriving DecidableEq, Repr

def kind (c : Char) : Kind :=
  if c = '"' then .quote
  else if c = '\\' then .backslash
  else if c = '[' || c = '{' then .opens
  else if c = ']' || c = '}' then .closes
  else .plain

/-- How many brackets are open outside of strings, and whether this is inside of a string, after a
backslash or not. -/
inductive Lex
  | outside (depth : ℤ)
  | inside (depth : ℤ)
  | escaped (depth : ℤ)
  deriving DecidableEq, Repr

namespace Lex

/-- No text goes on with a backslash outside of a string. -/
def step (lex : Lex) (c : Char) : Option Lex :=
  match lex, kind c with
  | outside depth, .quote => some (inside depth)
  | outside depth, .opens => some (outside (depth + 1))
  | outside depth, .closes => some (outside (depth - 1))
  | outside depth, .plain => some (outside depth)
  | outside _, .backslash => none
  | inside depth, .quote => some (outside depth)
  | inside depth, .backslash => some (escaped depth)
  | inside depth, _ => some (inside depth)
  | escaped depth, _ => some (inside depth)

attribute [local simp] step

theorem step_outside {depth : ℤ} {c : Char} (h : kind c = .plain) :
    (outside depth).step c = some (outside depth) := by
  simp only [step, h]

theorem step_opens {depth : ℤ} {c : Char} (h : kind c = .opens) :
    (outside depth).step c = some (outside (depth + 1)) := by
  simp only [step, h]

theorem step_closes {depth : ℤ} {c : Char} (h : kind c = .closes) :
    (outside (depth + 1)).step c = some (outside depth) := by
  simp only [step, h]
  congr 2
  omega

theorem step_inside {depth : ℤ} {c : Char} (hquote : c ≠ '"') (hbackslash : c ≠ '\\') :
    (inside depth).step c = some (inside depth) := by
  have hkind : kind c ≠ .quote ∧ kind c ≠ .backslash := by
    simp only [kind, if_neg hquote, if_neg hbackslash]
    constructor <;> split_ifs <;> decide
  cases h : kind c with
  | quote => exact absurd h hkind.1
  | backslash => exact absurd h hkind.2
  | opens | closes | plain => simp only [step, h]

def scan (lex : Lex) (text : Text) : Option Lex := text.foldlM step lex

/-- More brackets are open. -/
def shift (lex : Lex) (more : ℤ) : Lex :=
  match lex with
  | outside depth => outside (depth + more)
  | inside depth => inside (depth + more)
  | escaped depth => escaped (depth + more)

theorem step_shift (lex : Lex) (more : ℤ) (c : Char) :
    (lex.shift more).step c = (lex.step c).map fun lex => lex.shift more := by
  cases lex with
  | outside depth =>
      cases hkind : kind c <;> simp [step, shift, hkind] <;> omega
  | inside depth => cases hkind : kind c <;> simp [step, shift, hkind]
  | escaped depth => cases hkind : kind c <;> simp [step, shift, hkind]

theorem scan_shift (lex : Lex) (more : ℤ) (text : Text) :
    (lex.shift more).scan text = (lex.scan text).map fun lex => lex.shift more := by
  induction text generalizing lex with
  | nil => rfl
  | cons c text ih =>
      rw [scan, scan, List.foldlM_cons, List.foldlM_cons, step_shift]
      cases lex.step c with
      | none => rfl
      | some next => exact ih next

def depth : Lex → ℤ
  | outside depth => depth
  | inside depth => depth
  | escaped depth => depth

/-- One of the two is inside of a string, and the other one is outside. -/
def Opposite : Lex → Lex → Prop
  | inside _, outside _ => True
  | outside _, inside _ => True
  | _, _ => False

/-- A quote changes both, a backslash ends the one outside, and nothing else matters. -/
theorem step_opposite {depth other : ℤ} {c : Char} {first second : Lex}
    (hinside : (inside depth).step c = some first) (houtside : (outside other).step c = some second) :
    Opposite first second ∧ Opposite second first := by
  cases hkind : kind c with
  | backslash =>
      simp only [step, hkind] at houtside
      cases houtside
  | quote | opens | closes | plain =>
      simp only [step, hkind, Option.some.injEq] at hinside houtside
      subst hinside houtside
      exact ⟨trivial, trivial⟩

theorem Opposite.step {first second first' second' : Lex} {c : Char} (h : Opposite first second)
    (hfirst : first.step c = some first') (hsecond : second.step c = some second') :
    Opposite first' second' := by
  cases first with
  | escaped _ => exact h.elim
  | inside _ =>
      cases second with
      | outside _ => exact (step_opposite hfirst hsecond).1
      | inside _ | escaped _ => exact h.elim
  | outside _ =>
      cases second with
      | inside _ => exact (step_opposite hsecond hfirst).2
      | outside _ | escaped _ => exact h.elim

theorem Opposite.scan {first second first' second' : Lex} {text : Text}
    (h : Opposite first second) (hfirst : first.scan text = some first')
    (hsecond : second.scan text = some second') : Opposite first' second' := by
  induction text generalizing first second with
  | nil =>
      cases hfirst
      cases hsecond
      exact h
  | cons c text ih =>
      rw [Lex.scan, List.foldlM_cons, Option.bind_eq_bind, Option.bind_eq_some_iff] at hfirst hsecond
      obtain ⟨next, hnext, hfirst⟩ := hfirst
      obtain ⟨next', hnext', hsecond⟩ := hsecond
      exact ih (h.step hnext hnext') hfirst hsecond

theorem scan_cons {lex lex' : Lex} {c : Char} {text : Text} (h : lex.scan (c :: text) = some lex') :
    ∃ next, lex.step c = some next ∧ next.scan text = some lex' := by
  rwa [scan, List.foldlM_cons, Option.bind_eq_bind, Option.bind_eq_some_iff] at h

/-- A text that closes brackets that are open before it closes more than it opens. -/
theorem scan_shift_ne {depth other : ℤ} (hdepth : depth ≠ 0) {lex : Lex} {text : Text}
    (h : (lex.shift depth).scan text = some (outside other)) :
    lex.scan text ≠ some (outside other) := by
  intro hlex
  rw [scan_shift, hlex, Option.map_some, Option.some.injEq, shift, outside.injEq] at h
  omega

theorem opposite_inside_outside (depth other : ℤ) : Opposite (inside depth) (outside other) :=
  trivial

theorem Opposite.scan_ne {first second : Lex} (h : Opposite first second) {depth other : ℤ}
    {text : Text} (hfirst : first.scan text = some (outside depth)) :
    second.scan text ≠ some (outside other) :=
  fun hsecond => h.scan hfirst hsecond

/-- The rest of a text, once a bracket is open in it, is not balanced by itself. -/
theorem scan_rest_ne {lex : Lex} (hdepth : 1 ≤ lex.depth) {text : Text}
    (h : lex.scan text = some (outside 0)) : (outside 0).scan text ≠ some (outside 0) := by
  cases lex with
  | outside depth =>
      have hshift : (outside 0).shift depth = outside depth := by simp [shift]
      rw [← hshift] at h
      exact scan_shift_ne (Int.ne_of_gt hdepth) h
  | inside depth => exact (opposite_inside_outside depth 0).scan_ne h
  | escaped depth =>
      intro hrest
      cases text with
      | nil => cases h
      | cons c text =>
          obtain ⟨first, hfirst, h⟩ := scan_cons h
          obtain ⟨second, hsecond, hrest⟩ := scan_cons hrest
          obtain rfl := Option.some.inj hfirst
          -- a quote after a backslash does not end the string, but it begins one in the rest
          cases hkind : kind c with
          | backslash => simp [step, hkind] at hsecond
          | quote =>
              simp only [step, hkind, Option.some.injEq] at hsecond
              subst hsecond
              have hshift : (inside 0).shift depth = inside depth := by simp [shift]
              rw [← hshift] at h
              exact scan_shift_ne (Int.ne_of_gt hdepth) h hrest
          | opens | closes | plain =>
              simp only [step, hkind, Option.some.injEq] at hsecond
              subst hsecond
              exact (opposite_inside_outside depth _).scan_ne h hrest

end Lex

/-! ## What the machine knows of brackets and strings -/

/-- Of the symbols that count for brackets and strings none satisfies `p`. -/
theorem kind_eq_plain {p : Char → Bool}
    (h : ['"', '\\', '[', '{', ']', '}'].any p = false) {c : Char} (hc : p c = true) :
    kind c = .plain := by
  have hne : ∀ other ∈ ['"', '\\', '[', '{', ']', '}'], c ≠ other := by
    rintro other hother rfl
    exact List.any_eq_false.mp h c hother hc
  simp only [List.forall_mem_cons] at hne
  obtain ⟨hquote, hbackslash, harray, hobject, harray', hobject', -⟩ := hne
  simp [kind, hquote, hbackslash, harray, hobject, harray', hobject']

theorem kind_of_isBlank {c : Char} (h : isBlank c = true) : kind c = .plain :=
  kind_eq_plain rfl h

theorem kind_of_hexDigit {c : Char} {digit : ℕ} (h : hexDigit c = some digit) : kind c = .plain :=
  kind_eq_plain (p := fun c => (hexDigit c).isSome) rfl (by rw [h]; rfl)

theorem kind_of_next {part part' : NumberPart} {c : Char} (h : part.next c = some part') :
    kind c = .plain := by
  refine kind_eq_plain (p := fun c => (part.next c).isSome) ?_ (by rw [h]; rfl)
  cases part <;> rfl

theorem kind_of_mem_letters {word : Word} {c : Char} (h : c ∈ word.letters) : kind c = .plain := by
  refine kind_eq_plain (p := fun c => word.letters.contains c) ?_ (List.contains_iff_mem.mpr h)
  cases word <;> rfl

theorem kind_of_scalar {c : Char} {mode : Mode} (h : State.scalar c = some mode) :
    kind c = .plain :=
  kind_eq_plain (p := fun c => (State.scalar c).isSome) rfl (by rw [h]; rfl)

/-- A key belongs to an object that is open. -/
def Target.opens : Target → ℤ
  | value => 0
  | key _ => 1

namespace State

def lex (s : State) : Lex :=
  match s.mode with
  | .value => .outside s.stack.length
  | .number _ _ => .outside s.stack.length
  | .word _ _ => .outside s.stack.length
  | .done _ => .outside s.stack.length
  | .firstItem => .outside (s.stack.length + 1)
  | .nextItem _ => .outside (s.stack.length + 1)
  | .firstKey => .outside (s.stack.length + 1)
  | .key _ => .outside (s.stack.length + 1)
  | .colon _ _ => .outside (s.stack.length + 1)
  | .nextMember _ => .outside (s.stack.length + 1)
  | .string target _ => .inside (s.stack.length + target.opens)
  | .hex target _ _ _ => .inside (s.stack.length + target.opens)
  | .escape target _ => .escaped (s.stack.length + target.opens)

theorem lex_complete (stack : List Frame) (value : Value) :
    (complete stack value).lex = .outside stack.length := by
  cases stack with
  | nil => rfl
  | cons frame stack => cases frame <;> simp [complete, lex]

theorem lex_completeString (target : Target) (body : Str) (stack : List Frame) :
    (completeString target body stack).lex = .outside (stack.length + target.opens) := by
  cases target with
  | value =>
      rw [completeString, lex_complete]
      simp [Target.opens]
  | key members => rfl

/-! ### What a text is going to be -/

/-- Nothing of the text but blanks has been read, or what has been read begins an array or object,
or another value. -/
inductive Root
  | fresh
  | scalar
  | container
  deriving DecidableEq, Repr

def rootOf (value : Value) : Root := if value.isContainer then .container else .scalar

def root (s : State) : Root :=
  match s.stack, s.mode with
  | _ :: _, _ => .container
  | [], .value => .fresh
  | [], .number _ _ => .scalar
  | [], .word _ _ => .scalar
  | [], .string .value _ => .scalar
  | [], .escape .value _ => .scalar
  | [], .hex .value _ _ _ => .scalar
  | [], .done value => rootOf value
  | [], _ => .container

theorem root_complete (stack : List Frame) (value : Value) :
    (complete stack value).root = if stack.isEmpty then rootOf value else .container := by
  match stack with
  | [] => rfl
  | .array items :: stack => cases stack <;> rfl
  | .object members key :: stack => cases stack <;> rfl

/-! ### Steps -/

/-- A symbol changes the brackets and strings as it does in any text, and what has been read
decides what the text is going to be. -/
structure Follows (s : State) (c : Char) (t : State) : Prop where
  lex : s.lex.step c = some t.lex
  root : s.root ≠ .fresh → t.root = s.root

theorem Follows.blank {s : State} {c : Char} {depth : ℤ} (h : isBlank c = true)
    (hlex : s.lex = .outside depth) : Follows s c s where
  lex := by rw [hlex, Lex.step_outside (kind_of_isBlank h)]
  root := fun _ => rfl

/-- A bracket closes the array or object `value`. -/
theorem Follows.close {s : State} {c : Char} {stack : List Frame} {value : Value}
    (h : kind c = .closes) (hlex : s.lex = .outside (stack.length + 1))
    (hroot : s.root = .container) (hvalue : value.isContainer = true) :
    Follows s c (complete stack value) where
  lex := by rw [hlex, lex_complete, Lex.step_closes h]
  root := by
    intro _
    rw [root_complete, hroot, rootOf, if_pos hvalue, ite_self]

/-- A value begins with `c`. -/
theorem follows_start {stack : List Frame} {c : Char} {t : State} (h : start stack c = some t) :
    (Lex.outside stack.length).step c = some t.lex ∧
      t.root = if stack.isEmpty && !(c = '[' || c = '{') then .scalar else .container := by
  unfold start at h
  split_ifs at h with hquote harray hobject
  · obtain rfl := Option.some.inj h
    exact ⟨by simp [Lex.step, hquote, kind, lex, Target.opens],
      by cases stack <;> simp [root, hquote]⟩
  · obtain rfl := Option.some.inj h
    exact ⟨by simp [Lex.step, harray, kind, lex], by cases stack <;> simp [root, harray]⟩
  · obtain rfl := Option.some.inj h
    exact ⟨by simp [Lex.step, hobject, kind, lex], by cases stack <;> simp [root, hobject]⟩
  · obtain ⟨mode, hmode, rfl⟩ := Option.map_eq_some_iff.mp h
    have hplain := kind_of_scalar hmode
    rcases scalar_cases hmode with ⟨part, text, rfl⟩ | ⟨word, count, rfl⟩
    · exact ⟨Lex.step_outside hplain, by cases stack <;> simp [root, harray, hobject]⟩
    · exact ⟨Lex.step_outside hplain, by cases stack <;> simp [root, harray, hobject]⟩

theorem follows_after {s t : State} {c : Char} (h : s.after c = some t) : Follows s c t := by
  obtain ⟨mode, stack⟩ := s
  cases mode with
  | nextItem items =>
      have hroot : (State.mk (.nextItem items) stack).root = .container := by cases stack <;> rfl
      simp only [after] at h
      split_ifs at h with hblank hcomma hclose
      all_goals obtain rfl := Option.some.inj h
      · exact .blank hblank rfl
      · exact ⟨by simp [lex, Lex.step, hcomma, kind], fun _ => hroot.symm⟩
      · exact .close (by rw [hclose]; rfl) rfl hroot rfl
  | nextMember members =>
      have hroot : (State.mk (.nextMember members) stack).root = .container := by
        cases stack <;> rfl
      simp only [after] at h
      split_ifs at h with hblank hcomma hclose
      all_goals obtain rfl := Option.some.inj h
      · exact .blank hblank rfl
      · exact ⟨by simp [lex, Lex.step, hcomma, kind], fun _ => by cases stack <;> rfl⟩
      · exact .close (by rw [hclose]; rfl) rfl hroot rfl
  | done value =>
      simp only [after] at h
      split_ifs at h with hblank
      obtain rfl := Option.some.inj h
      exact .blank hblank rfl
  | value | firstItem | firstKey | key | colon | string | escape | hex | number | word => cases h

theorem follows_number {stack : List Frame} {part : NumberPart} {text : Text} {c : Char}
    {t : State} (h : (State.mk (.number part text) stack).step c = some t) :
    Follows ⟨.number part text, stack⟩ c t := by
  simp only [step] at h
  cases hnext : part.next c with
  | some part' =>
      rw [hnext] at h
      obtain rfl := Option.some.inj h
      exact ⟨Lex.step_outside (kind_of_next hnext), fun _ => by cases stack <;> rfl⟩
  | none =>
      simp only [hnext] at h
      split_ifs at h with hinfinity hcomplete
      · obtain rfl := Option.some.inj h
        simp only [Bool.and_eq_true, decide_eq_true_eq] at hinfinity
        exact ⟨Lex.step_outside (hinfinity.2 ▸ rfl), fun _ => by cases stack <;> rfl⟩
      · -- the number was complete before `c`
        have hnumber := follows_after h
        refine ⟨?_, fun _ => ?_⟩
        · rw [← hnumber.lex, lex_complete]
          rfl
        · have hroot : (complete stack (.number text)).root =
              (State.mk (.number part text) stack).root := by
            rw [root_complete]
            cases stack <;> rfl
          rw [← hroot]
          refine hnumber.root ?_
          rw [root_complete]
          cases stack <;> simp [rootOf, Value.isContainer]

theorem follows_step {s t : State} {c : Char} (h : s.step c = some t) : Follows s c t := by
  obtain ⟨mode, stack⟩ := s
  cases mode with
  | value =>
      simp only [step] at h
      split_ifs at h with hblank
      · obtain rfl := Option.some.inj h
        exact .blank hblank rfl
      · obtain ⟨hlex, hroot⟩ := follows_start h
        refine ⟨hlex, fun hfresh => ?_⟩
        cases stack with
        | nil => exact absurd rfl hfresh
        | cons frame stack => exact hroot
  | firstItem =>
      have hopen : (State.mk .firstItem stack).root = .container := by cases stack <;> rfl
      simp only [step] at h
      split_ifs at h with hblank hclose
      · obtain rfl := Option.some.inj h
        exact .blank hblank rfl
      · obtain rfl := Option.some.inj h
        exact .close (by rw [hclose]; rfl) rfl hopen rfl
      · obtain ⟨hlex, hroot⟩ := follows_start h
        exact ⟨hlex, fun _ => hroot.trans hopen.symm⟩
  | firstKey =>
      have hopen : (State.mk .firstKey stack).root = .container := by cases stack <;> rfl
      simp only [step] at h
      split_ifs at h with hblank hclose hquote
      all_goals obtain rfl := Option.some.inj h
      · exact .blank hblank rfl
      · exact .close (by rw [hclose]; rfl) rfl hopen rfl
      · exact ⟨by simp [lex, Lex.step, hquote, kind, Target.opens], fun _ => by cases stack <;> rfl⟩
  | key members =>
      simp only [step] at h
      split_ifs at h with hblank hquote
      all_goals obtain rfl := Option.some.inj h
      · exact .blank hblank rfl
      · exact ⟨by simp [lex, Lex.step, hquote, kind, Target.opens], fun _ => by cases stack <;> rfl⟩
  | colon members key =>
      simp only [step] at h
      split_ifs at h with hblank hcolon
      all_goals obtain rfl := Option.some.inj h
      · exact .blank hblank rfl
      · exact ⟨by simp [lex, Lex.step, hcolon, kind], fun _ => by cases stack <;> rfl⟩
  | string target body =>
      simp only [step] at h
      split_ifs at h with hquote hbackslash hcontrol
      all_goals obtain rfl := Option.some.inj h
      · -- the string is complete
        refine ⟨?_, fun _ => ?_⟩
        · rw [lex_completeString]
          simp [lex, Lex.step, hquote, kind]
        · cases target with
          | value =>
              rw [completeString, root_complete]
              cases stack <;> rfl
          | key members => cases stack <;> rfl
      · exact ⟨by simp [lex, Lex.step, hbackslash, kind],
          fun _ => by cases target <;> cases stack <;> rfl⟩
      · exact ⟨Lex.step_inside hquote hbackslash,
          fun _ => by cases target <;> cases stack <;> rfl⟩
  | escape target body =>
      simp only [step] at h
      split_ifs at h with hhex
      · obtain rfl := Option.some.inj h
        exact ⟨rfl, fun _ => by cases target <;> cases stack <;> rfl⟩
      · obtain ⟨code, -, rfl⟩ := Option.map_eq_some_iff.mp h
        exact ⟨rfl, fun _ => by cases target <;> cases stack <;> rfl⟩
  | hex target body left unit =>
      simp only [step] at h
      cases hdigit : hexDigit c with
      | none => simp [hdigit] at h
      | some digit =>
          -- a digit is neither a quote nor a bracket
          have hplain := kind_of_hexDigit hdigit
          simp only [hdigit] at h
          split_ifs at h with hlast
          all_goals
            obtain rfl := Option.some.inj h
            exact ⟨by simp [lex, Lex.step, hplain],
              fun _ => by cases target <;> cases stack <;> rfl⟩
  | number part text => exact follows_number h
  | word word count =>
      simp only [step] at h
      split_ifs at h with hletter hlast
      all_goals
        have hplain := kind_of_mem_letters (List.mem_of_getElem? (not_not.mp hletter))
        obtain rfl := Option.some.inj h
      · -- the last letter completes the value
        refine ⟨?_, fun _ => ?_⟩
        · rw [lex_complete]
          exact Lex.step_outside hplain
        · rw [root_complete]
          cases stack with
          | nil => cases word <;> rfl
          | cons frame stack => rfl
      · exact ⟨Lex.step_outside hplain, fun _ => by cases stack <;> rfl⟩
  | nextItem _ | nextMember _ | done _ => exact follows_after h

theorem lex_run {s t : State} {text : Text} (h : run s text = some t) :
    s.lex.scan text = some t.lex := by
  induction text generalizing s with
  | nil =>
      obtain rfl := Option.some.inj h
      rfl
  | cons c text ih =>
      obtain ⟨next, hnext, h⟩ := run_cons h
      rw [Lex.scan, List.foldlM_cons, (follows_step hnext).lex]
      exact ih h

theorem root_run {s t : State} {text : Text} (h : run s text = some t) (hroot : s.root ≠ .fresh) :
    t.root = s.root := by
  induction text generalizing s with
  | nil =>
      obtain rfl := Option.some.inj h
      rfl
  | cons c text ih =>
      obtain ⟨next, hnext, h⟩ := run_cons h
      have hstep := (follows_step hnext).root hroot
      rw [ih h (hstep ▸ hroot), hstep]

/-! ### The end of a text -/

theorem lex_finish {s : State} {value : Value} (h : s.finish = some value) :
    s.lex = .outside 0 := by
  obtain rfl | ⟨part, text, rfl, -⟩ := finish_cases h
  · rfl
  · rfl

theorem length_le_depth (s : State) : (s.stack.length : ℤ) ≤ s.lex.depth := by
  obtain ⟨mode, stack⟩ := s
  cases mode with
  | string target _ | escape target _ | hex target _ _ _ =>
      cases target <;> simp only [lex, Lex.depth, Target.opens] <;> omega
  | _ => simp only [lex, Lex.depth]; omega

/-- An array or object that has begun is complete or open. -/
theorem open_or_done {s : State} (h : s.root = .container) :
    1 ≤ s.lex.depth ∨ ∃ value, s = ⟨.done value, []⟩ := by
  obtain ⟨mode, stack⟩ := s
  cases stack with
  | cons frame stack =>
      left
      calc (1 : ℤ) ≤ ((frame :: stack).length : ℤ) := by simp only [List.length_cons]; omega
        _ ≤ _ := length_le_depth ⟨mode, frame :: stack⟩
  | nil =>
      cases mode with
      | done value => exact .inr ⟨value, rfl⟩
      | value | number _ _ | word _ _ => cases h
      | string target _ | escape target _ | hex target _ _ _ =>
          cases target with
          | value => cases h
          | key members => exact .inl (Int.le_refl _)
      | _ => exact .inl (Int.le_refl _)

theorem root_finish {s : State} {value : Value} (h : s.finish = some value) :
    s.root = rootOf value := by
  obtain rfl | ⟨part, text, rfl, rfl⟩ := finish_cases h
  · rfl
  · rfl

end State

/-! ## Part of a text -/

/-- Once a symbol that is not blank has been read, it is decided what the text is. -/
theorem root_ne_fresh {text : Text} {s : State} (h : run initial text = some s)
    (htext : text.all isBlank = false) : s.root ≠ .fresh := by
  induction text with
  | nil => cases htext
  | cons c text ih =>
      obtain ⟨next, hnext, h⟩ := run_cons h
      cases hblank : isBlank c with
      | true =>
          simp only [State.step, initial, hblank, if_true] at hnext
          obtain rfl := Option.some.inj hnext
          exact ih h (by simpa [hblank] using htext)
      | false =>
          simp only [State.step, initial, hblank] at hnext
          have hroot : next.root ≠ .fresh := by
            rw [(State.follows_start hnext).2]
            split_ifs <;> decide
          rw [State.root_run h hroot]
          exact hroot

/-- A JSON array or object is read from a part of its text and from no other: from all of it but
blanks at its ends.  Neither what is before another place of it nor the rest is a JSON text. -/
theorem loads_parts {first rest : Text} {value : Value} (h : loads (first ++ rest) = some value)
    (hvalue : value.isContainer = true) (hfirst : first.all isBlank = false) :
    (rest.all isBlank = true ∧ loads first = some value) ∨
      (rest.all isBlank = false ∧ loads first = none ∧ loads rest = none) := by
  obtain ⟨t, ht, hfinish⟩ := Option.bind_eq_some_iff.mp h
  rw [run_append] at ht
  obtain ⟨s, hs, ht⟩ := Option.bind_eq_some_iff.mp ht
  have hroot : s.root = .container := by
    rw [← State.root_run ht (root_ne_fresh hs hfirst), State.root_finish hfinish, State.rootOf,
      if_pos hvalue]
  rcases State.open_or_done hroot with hopen | ⟨value', rfl⟩
  · right
    have hbalanced : s.lex.scan rest = some (.outside 0) := by
      rw [State.lex_run ht, State.lex_finish hfinish]
    have hrest : ∀ t', run initial rest = some t' → t'.lex ≠ .outside 0 := by
      intro t' ht' hlex
      have hscan : (Lex.outside 0).scan rest = some t'.lex := State.lex_run ht'
      exact Lex.scan_rest_ne hopen hbalanced (hlex ▸ hscan)
    refine ⟨?_, ?_, ?_⟩
    · by_contra hblank
      rw [Bool.not_eq_false] at hblank
      exact hrest initial (run_value_blanks hblank) rfl
    · rw [loads, hs, Option.bind_some, Option.eq_none_iff_forall_ne_some]
      intro value' hvalue'
      rw [State.lex_finish hvalue'] at hopen
      exact absurd hopen (by decide)
    · rw [Option.eq_none_iff_forall_ne_some]
      intro value' hvalue'
      obtain ⟨t', ht', hfinish'⟩ := Option.bind_eq_some_iff.mp hvalue'
      exact hrest t' ht' (State.lex_finish hfinish')
  · left
    obtain ⟨hblank, rfl⟩ := run_done ht
    obtain rfl := Option.some.inj hfinish
    exact ⟨hblank, by rw [loads, hs]; rfl⟩

end Json
