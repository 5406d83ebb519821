import Mathlib.Data.List.Infix

/-!
# Backtracking regular expressions

Expressions made of single symbols, greedy stars of single symbols, and sequences of them, matched
by trying the longest text of each star first.  `first` hands every text that an expression can
take to a continuation, in the order of a backtracking matcher, until the continuation succeeds.

An expression with a wildcard at both ends that finds something takes the whole line, so that it
is found at one place of the line at most: the last one where what is between the wildcards matches
(`findAll_wildcards`).
-/

namespace Regex

variable {α β γ : Type*}

inductive Pattern (α : Type*)
  | empty
  | one (accepts : α → Bool)
  | star (accepts : α → Bool)
  | seq (before after : Pattern α)

/-- The symbols of a text, in this order. -/
def literal [DecidableEq α] : List α → Pattern α
  | [] => .empty
  | symbol :: text => .seq (.one fun other => other = symbol) (literal text)

/-- At least one symbol. -/
def plus (accepts : α → Bool) : Pattern α := .seq (.one accepts) (.star accepts)

/-! ## Matching -/

/-- The continuation gets a text of accepted symbols, the longest one first, and what is left. -/
def greedy (accepts : α → Bool) : List α → (List α → List α → Option β) → Option β
  | [], next => next [] []
  | symbol :: rest, next =>
      if accepts symbol then
        (greedy accepts rest fun text left => next (symbol :: text) left).orElse
          fun _ => next [] (symbol :: rest)
      else next [] (symbol :: rest)

/-- The continuation gets the text that the expression takes from the start of the input, and what
is left of it. -/
def Pattern.first : Pattern α → List α → (List α → List α → Option β) → Option β
  | .empty, input, next => next [] input
  | .one _, [], _ => none
  | .one accepts, symbol :: rest, next => if accepts symbol then next [symbol] rest else none
  | .star accepts, input, next => greedy accepts input next
  | .seq before after, input, next =>
      before.first input fun text left =>
        after.first left fun text' left' => next (text ++ text') left'

/-- The texts that the pattern stands for. -/
def Pattern.Takes : Pattern α → List α → Prop
  | .empty, text => text = []
  | .one accepts, text => ∃ symbol, text = [symbol] ∧ accepts symbol = true
  | .star accepts, text => ∀ symbol ∈ text, accepts symbol = true
  | .seq before after, text =>
      ∃ first second, text = first ++ second ∧ before.Takes first ∧ after.Takes second

/-- An expression with one group. -/
structure Expression (α : Type*) where
  before : Pattern α
  group : Pattern α
  after : Pattern α

namespace Expression

/-- A match at the start of the input: the text of the group, and what is left. -/
def search (expression : Expression α) (input : List α) : Option (List α × List α) :=
  expression.before.first input fun _ left =>
    expression.group.first left fun captured left =>
      expression.after.first left fun _ left => some (captured, left)

/-- The matches from the first one on, each from the end of the one before, for an expression that
does not match the empty text; `skip` symbols belong to the last match. -/
def findAllFrom (expression : Expression α) : ℕ → List α → List (List α)
  | _, [] => []
  | skip + 1, _ :: rest => findAllFrom expression skip rest
  | 0, symbol :: rest =>
      match expression.search (symbol :: rest) with
      | none => findAllFrom expression 0 rest
      | some (captured, left) =>
          captured :: findAllFrom expression (rest.length - left.length) rest

def findAll (expression : Expression α) (input : List α) : List (List α) :=
  expression.findAllFrom 0 input

/-- The expression between two wildcards. -/
def wildcards (accepts : α → Bool) (expression : Expression α) : Expression α where
  before := .seq (.star accepts) expression.before
  group := expression.group
  after := .seq expression.after (.star accepts)

end Expression

/-! ## Greedy stars -/

section Greedy

variable {accepts : α → Bool} {input : List α} {next : List α → List α → Option β}

theorem greedy_cons_accepted {symbol : α} {rest : List α} (h : accepts symbol = true) :
    greedy accepts (symbol :: rest) next =
      (greedy accepts rest fun text left => next (symbol :: text) left).orElse
        fun _ => next [] (symbol :: rest) := by
  rw [greedy, if_pos h]

theorem greedy_cons_refused {symbol : α} {rest : List α} (h : accepts symbol = false) :
    greedy accepts (symbol :: rest) next = next [] (symbol :: rest) := by
  rw [greedy, if_neg (by simp [h])]

theorem exists_of_greedy {result : β} (h : greedy accepts input next = some result) :
    ∃ text left, input = text ++ left ∧ (∀ symbol ∈ text, accepts symbol = true) ∧
      next text left = some result := by
  induction input generalizing next with
  | nil => exact ⟨[], [], rfl, by simp, h⟩
  | cons symbol rest ih =>
      cases haccepts : accepts symbol with
      | false =>
          rw [greedy_cons_refused haccepts] at h
          exact ⟨[], _, rfl, by simp, h⟩
      | true =>
          rw [greedy_cons_accepted haccepts] at h
          cases hrest : greedy accepts rest fun text left => next (symbol :: text) left with
          | none =>
              rw [hrest] at h
              exact ⟨[], _, rfl, by simp, h⟩
          | some other =>
              rw [hrest] at h
              obtain rfl : other = result := Option.some.inj h
              obtain ⟨text, left, hsplit, htext, hnext⟩ := ih hrest
              exact ⟨symbol :: text, left, by rw [hsplit]; rfl,
                List.forall_mem_cons.mpr ⟨haccepts, htext⟩, hnext⟩

theorem greedy_eq_none (h : ∀ text left, input = text ++ left →
    (∀ symbol ∈ text, accepts symbol = true) → next text left = none) :
    greedy accepts input next = none := by
  rw [Option.eq_none_iff_forall_ne_some]
  intro result hresult
  obtain ⟨text, left, hsplit, htext, hnext⟩ := exists_of_greedy hresult
  rw [h text left hsplit htext] at hnext
  cases hnext

/-- No text of accepted symbols is passed over. -/
theorem eq_none_of_greedy (h : greedy accepts input next = none) {text left : List α}
    (hinput : input = text ++ left) (htext : ∀ symbol ∈ text, accepts symbol = true) :
    next text left = none := by
  induction text generalizing input next with
  | nil =>
      cases input with
      | nil =>
          obtain rfl : left = [] := hinput.symm
          exact h
      | cons symbol rest =>
          obtain rfl : left = symbol :: rest := hinput.symm
          cases haccepts : accepts symbol with
          | false => rwa [greedy_cons_refused haccepts] at h
          | true =>
              rw [greedy_cons_accepted haccepts, Option.orElse_eq_or, Option.or_eq_none_iff] at h
              exact h.2
  | cons symbol text ih =>
      subst hinput
      rw [List.cons_append, greedy_cons_accepted (htext symbol List.mem_cons_self),
        Option.orElse_eq_or, Option.or_eq_none_iff] at h
      exact ih h.1 rfl fun other hmem => htext other (List.mem_cons_of_mem _ hmem)

/-- The longest text with which the continuation succeeds. -/
theorem greedy_eq_some {text left : List α} {result : β} (hinput : input = text ++ left)
    (htext : ∀ symbol ∈ text, accepts symbol = true) (hresult : next text left = some result)
    (hlongest : ∀ more left', left = more ++ left' → more ≠ [] → next (text ++ more) left' = none) :
    greedy accepts input next = some result := by
  induction text generalizing input next with
  | nil =>
      rw [List.nil_append] at hinput
      subst hinput
      cases input with
      | nil => exact hresult
      | cons symbol rest =>
          cases haccepts : accepts symbol with
          | false => rw [greedy_cons_refused haccepts, hresult]
          | true =>
              have hnone : (greedy accepts rest fun text left => next (symbol :: text) left) =
                  none := by
                refine greedy_eq_none fun more left' hsplit _ => ?_
                exact hlongest (symbol :: more) left' (by rw [hsplit]; rfl) (List.cons_ne_nil _ _)
              rw [greedy_cons_accepted haccepts, hnone, Option.orElse_none, hresult]
  | cons symbol text ih =>
      subst hinput
      have hrest : (greedy accepts (text ++ left) fun text left => next (symbol :: text) left) =
          some result :=
        ih rfl (fun other hmem => htext other (List.mem_cons_of_mem _ hmem)) hresult hlongest
      rw [List.cons_append, greedy_cons_accepted (htext symbol List.mem_cons_self), hrest]
      rfl

/-- A star takes all that it can when the continuation succeeds with that. -/
theorem greedy_takeWhile {result : β}
    (hresult : next (input.takeWhile accepts) (input.dropWhile accepts) = some result) :
    greedy accepts input next = some result := by
  induction input generalizing next with
  | nil => exact hresult
  | cons symbol rest ih =>
      cases haccepts : accepts symbol with
      | false =>
          rw [List.takeWhile_cons_of_neg (by simp [haccepts]),
            List.dropWhile_cons_of_neg (by simp [haccepts])] at hresult
          rw [greedy_cons_refused haccepts, hresult]
      | true =>
          rw [List.takeWhile_cons_of_pos haccepts, List.dropWhile_cons_of_pos haccepts] at hresult
          rw [greedy_cons_accepted haccepts, ih hresult]
          rfl

/-- A star at the front that may take whatever precedes a place where the continuation succeeds:
the last of these places is found. -/
theorem greedy_eq_getLast? {next : List α → Option β}
    (h : ∀ text left, input = text ++ left → (next left).isSome = true →
      ∀ symbol ∈ text, accepts symbol = true) :
    (greedy accepts input fun _ left => next left) = (input.tails.filterMap next).getLast? := by
  induction input with
  | nil =>
      cases hnext : next [] with
      | none => simp [greedy, hnext]
      | some result => simp [greedy, hnext]
  | cons symbol rest ih =>
      have hrest : (greedy accepts rest fun _ left => next left) =
          (rest.tails.filterMap next).getLast? := by
        refine ih fun text left hsplit hsome other hmem => ?_
        exact h (symbol :: text) left (by rw [hsplit]; rfl) hsome other
          (List.mem_cons_of_mem _ hmem)
      have hlast : ((symbol :: rest).tails.filterMap next).getLast? =
          (rest.tails.filterMap next).getLast?.orElse fun _ => next (symbol :: rest) := by
        rw [List.tails_cons, List.filterMap_cons]
        cases hnext : next (symbol :: rest) with
        | none => simp
        | some result =>
            rw [List.getLast?_cons]
            cases (rest.tails.filterMap next).getLast? <;> rfl
      rw [hlast]
      cases haccepts : accepts symbol with
      | true => rw [greedy_cons_accepted haccepts, hrest]
      | false =>
          -- the continuation fails wherever a refused symbol comes before
          have hnone : rest.tails.filterMap next = [] := by
            refine List.filterMap_eq_nil_iff.mpr fun left hmem => ?_
            obtain ⟨text, hsplit⟩ := (List.mem_tails left rest).mp hmem
            by_contra hsome
            have := h (symbol :: text) left (by rw [← hsplit]; rfl)
              (Option.isSome_iff_ne_none.mpr hsome) symbol List.mem_cons_self
            rw [haccepts] at this
            cases this
          rw [greedy_cons_refused haccepts, hnone]
          rfl

theorem greedy_map (f : β → γ) :
    (greedy accepts input fun text left => (next text left).map f) =
      (greedy accepts input next).map f := by
  induction input generalizing next with
  | nil => rfl
  | cons symbol rest ih =>
      cases haccepts : accepts symbol with
      | false => rw [greedy_cons_refused haccepts, greedy_cons_refused haccepts]
      | true =>
          rw [greedy_cons_accepted haccepts, greedy_cons_accepted haccepts, ih]
          cases greedy accepts rest fun text left => next (symbol :: text) left <;> rfl

end Greedy

/-! ## Patterns -/

section Patterns

variable {next : List α → List α → Option β}

theorem first_map (pattern : Pattern α) (input : List α) (next : List α → List α → Option β)
    (f : β → γ) :
    (pattern.first input fun text left => (next text left).map f) =
      (pattern.first input next).map f := by
  induction pattern generalizing input next with
  | empty => rfl
  | one accepts =>
      cases input with
      | nil => rfl
      | cons symbol rest =>
          rw [Pattern.first, Pattern.first]
          split <;> rfl
  | star accepts => exact greedy_map f
  | seq before after ihbefore ihafter =>
      rw [Pattern.first, Pattern.first, ← ihbefore]
      congr 1
      funext text left
      exact ihafter left fun text' left' => next (text ++ text') left'

/-- What a match takes is a text of the pattern. -/
theorem exists_of_first {pattern : Pattern α} {input : List α} {result : β}
    (h : pattern.first input next = some result) :
    ∃ text left, input = text ++ left ∧ pattern.Takes text ∧ next text left = some result := by
  induction pattern generalizing input next with
  | empty => exact ⟨[], input, rfl, rfl, h⟩
  | one accepts =>
      cases input with
      | nil => cases h
      | cons symbol rest =>
          rw [Pattern.first] at h
          split at h
          · rename_i haccepts
            exact ⟨[symbol], rest, rfl, ⟨symbol, rfl, haccepts⟩, h⟩
          · cases h
  | star accepts => exact exists_of_greedy h
  | seq before after ihbefore ihafter =>
      obtain ⟨text, left, rfl, htext, hbefore⟩ := ihbefore h
      obtain ⟨text', left', rfl, htext', hafter⟩ := ihafter hbefore
      exact ⟨text ++ text', left', (List.append_assoc ..).symm, ⟨text, text', rfl, htext, htext'⟩,
        hafter⟩

/-- When nothing is found, no text of the pattern has been passed over. -/
theorem eq_none_of_first {pattern : Pattern α} {input text left : List α}
    (h : pattern.first input next = none) (hinput : input = text ++ left)
    (htext : pattern.Takes text) : next text left = none := by
  induction pattern generalizing input next text left with
  | empty =>
      obtain rfl : text = [] := htext
      obtain rfl : input = left := hinput
      exact h
  | one accepts =>
      obtain ⟨symbol, rfl, haccepts⟩ := htext
      subst hinput
      rwa [List.singleton_append, Pattern.first, if_pos haccepts] at h
  | star accepts => exact eq_none_of_greedy h hinput htext
  | seq before after ihbefore ihafter =>
      obtain ⟨first, second, rfl, hfirst, hsecond⟩ := htext
      have hrest := ihbefore h (hinput.trans (List.append_assoc ..)) hfirst
      have hafter := ihafter hrest rfl hsecond
      exact hafter

theorem takes_literal [DecidableEq α] {text other : List α} :
    (literal text).Takes other ↔ other = text := by
  induction text generalizing other with
  | nil => exact Iff.rfl
  | cons symbol text ih =>
      constructor
      · rintro ⟨first, second, rfl, ⟨head, rfl, hhead⟩, hsecond⟩
        rw [decide_eq_true_eq] at hhead
        rw [ih.mp hsecond, hhead]
        rfl
      · rintro rfl
        exact ⟨[symbol], text, rfl, ⟨symbol, rfl, by simp⟩, ih.mpr rfl⟩

theorem first_one_cons {accepts : α → Bool} {symbol : α} {rest : List α}
    (h : accepts symbol = true) :
    (Pattern.one accepts).first (symbol :: rest) next = next [symbol] rest := by
  rw [Pattern.first, if_pos h]

theorem first_literal [DecidableEq α] (text left : List α)
    (next : List α → List α → Option β) :
    (literal text).first (text ++ left) next = next text left := by
  induction text generalizing next with
  | nil => rfl
  | cons symbol text ih =>
      rw [literal, Pattern.first, List.cons_append, first_one_cons (by simp), ih]
      rfl

theorem first_literal_eq_none [DecidableEq α] {text input : List α} (h : ¬text <+: input) :
    (literal text).first input next = none := by
  induction text generalizing input next with
  | nil => exact absurd (List.nil_prefix) h
  | cons symbol text ih =>
      cases input with
      | nil => rfl
      | cons other rest =>
          rw [literal, Pattern.first, Pattern.first]
          split
          · rename_i hsame
            rw [decide_eq_true_eq] at hsame
            subst hsame
            exact ih fun hprefix => h (List.cons_prefix_cons.mpr ⟨rfl, hprefix⟩)
          · rfl

/-- A star that ends an expression takes all it can. -/
theorem first_star_end (accepts : α → Bool) (input : List α) (f : List α → β) :
    ((Pattern.star accepts).first input fun _ left => some (f left)) =
      some (f (input.dropWhile accepts)) :=
  greedy_takeWhile rfl

end Patterns

/-! ## Lines -/

namespace Expression

variable (expression : Expression α) {accepts : α → Bool}

theorem findAllFrom_skip (skip : ℕ) (input : List α) :
    expression.findAllFrom skip input = expression.findAllFrom 0 (input.drop skip) := by
  induction skip generalizing input with
  | zero => rfl
  | succ skip ih =>
      cases input with
      | nil => rfl
      | cons symbol rest => exact ih rest

theorem findAll_cons_of_none {symbol : α} {rest : List α}
    (h : expression.search (symbol :: rest) = none) :
    expression.findAll (symbol :: rest) = expression.findAll rest := by
  rw [findAll, findAllFrom, h]
  rfl

theorem findAll_cons_of_some {symbol : α} {rest captured text left : List α}
    (h : expression.search (symbol :: rest) = some (captured, left))
    (hrest : rest = text ++ left) :
    expression.findAll (symbol :: rest) = captured :: expression.findAll left := by
  rw [findAll, findAllFrom, h]
  simp only [findAllFrom_skip _ (rest.length - left.length)]
  rw [hrest, List.length_append, Nat.add_sub_cancel, List.drop_left]
  rfl

/-- Nothing is found in a text when nothing matches at any place of it. -/
theorem findAll_eq_nil {input : List α}
    (h : ∀ left, left <:+ input → expression.search left = none) :
    expression.findAll input = [] := by
  induction input with
  | nil => rfl
  | cons symbol rest ih =>
      rw [expression.findAll_cons_of_none (h _ List.suffix_rfl)]
      exact ih fun left hsuffix => h left (hsuffix.trans (List.suffix_cons symbol rest))

/-- A match, with the wildcard that follows it. -/
def searchBefore (accepts : α → Bool) (input : List α) : Option (List α × List α) :=
  (expression.search input).map fun found => (found.1, found.2.dropWhile accepts)

theorem search_wildcards (input : List α) :
    (expression.wildcards accepts).search input =
      greedy accepts input fun _ left => expression.searchBefore accepts left := by
  have hinner : ∀ left : List α,
      expression.searchBefore accepts left =
        expression.before.first left fun _ left =>
          expression.group.first left fun captured left =>
            (Pattern.seq expression.after (.star accepts)).first left fun _ left =>
              some (captured, left) := by
    intro left
    rw [searchBefore, search, ← first_map]
    congr 1
    funext _ left
    rw [← first_map]
    congr 1
    funext captured left
    rw [← first_map, Pattern.first]
    congr 1
    funext _ left
    exact (first_star_end accepts left fun left => (captured, left)).symm
  simp only [hinner]
  rfl

theorem exists_of_search {input captured left : List α}
    (h : expression.search input = some (captured, left)) :
    ∃ before after, input = before ++ (captured ++ (after ++ left)) ∧
      expression.before.Takes before ∧ expression.group.Takes captured ∧
      expression.after.Takes after := by
  obtain ⟨before, afterBefore, rfl, hbefore, hgroup⟩ := exists_of_first h
  obtain ⟨group, afterGroup, rfl, htaken, hafter⟩ := exists_of_first hgroup
  obtain ⟨after, rest, rfl, htakenAfter, hend⟩ := exists_of_first hafter
  cases hend
  exact ⟨before, after, rfl, hbefore, htaken, htakenAfter⟩

/-- An expression that matches in some way is found. -/
theorem search_ne_none {before captured after : List α} (left : List α)
    (hbefore : expression.before.Takes before) (hgroup : expression.group.Takes captured)
    (hafter : expression.after.Takes after) :
    expression.search (before ++ (captured ++ (after ++ left))) ≠ none := by
  intro hnone
  have hend := eq_none_of_first (eq_none_of_first (eq_none_of_first hnone rfl hbefore) rfl hgroup)
    rfl hafter
  cases hend

theorem search_suffix {input captured left : List α}
    (h : expression.search input = some (captured, left)) : left <:+ input := by
  obtain ⟨before, after, rfl, -⟩ := expression.exists_of_search h
  exact ⟨before ++ (captured ++ after), by simp⟩

section Line

/-! A line whose symbols the wildcards accept, all but the last one. -/

variable {line : List α}

theorem accepts_of_split (hline : ∀ symbol ∈ line.dropLast, accepts symbol = true)
    {text left : List α} (hsplit : line = text ++ left) (hne : left ≠ []) :
    ∀ symbol ∈ text, accepts symbol = true := by
  subst hsplit
  intro symbol hmem
  refine hline symbol ?_
  rw [List.dropLast_append_of_ne_nil hne]
  exact List.mem_append_left _ hmem

/-- The trailing wildcard leaves nothing or the end of the line. -/
theorem dropWhile_line (hline : ∀ symbol ∈ line.dropLast, accepts symbol = true) {left : List α}
    (hleft : left <:+ line) :
    left.dropWhile accepts = [] ∨
      ∃ symbol, accepts symbol = false ∧ left.dropWhile accepts = [symbol] := by
  cases hdrop : left.dropWhile accepts with
  | nil => exact .inl rfl
  | cons symbol more =>
      have hsymbol : accepts symbol = false := by
        have := List.head_dropWhile_not (p := accepts) (l := left) (by simp [hdrop])
        simpa [hdrop] using this
      cases more with
      | nil => exact .inr ⟨symbol, hsymbol, rfl⟩
      | cons other more =>
          obtain ⟨start, hstart⟩ :=
            ((List.dropWhile_suffix accepts).trans hleft : left.dropWhile accepts <:+ line)
          have hsplit : line = (start ++ [symbol]) ++ other :: more := by
            rw [← hstart, hdrop, List.append_assoc]
            rfl
          have haccepts := accepts_of_split hline hsplit (List.cons_ne_nil _ _) symbol
            (List.mem_append_right _ List.mem_cons_self)
          rw [hsymbol] at haccepts
          cases haccepts

theorem search_wildcards_line (hline : ∀ symbol ∈ line.dropLast, accepts symbol = true)
    (hempty : expression.search [] = none) {input : List α} (hinput : input <:+ line) :
    (expression.wildcards accepts).search input =
      (input.tails.filterMap (expression.searchBefore accepts)).getLast? := by
  obtain ⟨start, rfl⟩ := hinput
  rw [search_wildcards]
  refine greedy_eq_getLast? fun text left hsplit hsome symbol hmem => ?_
  have hne : left ≠ [] := by
    rintro rfl
    rw [searchBefore, hempty] at hsome
    cases hsome
  have hwhole : start ++ input = (start ++ text) ++ left := by rw [hsplit, List.append_assoc]
  exact accepts_of_split hline hwhole hne symbol (List.mem_append_right _ hmem)

theorem findAll_wildcards_eq_nil (hline : ∀ symbol ∈ line.dropLast, accepts symbol = true)
    (hempty : expression.search [] = none) {input : List α} (hinput : input <:+ line)
    (h : ∀ left, left <:+ input → expression.search left = none) :
    (expression.wildcards accepts).findAll input = [] := by
  refine findAll_eq_nil _ fun left hleft => ?_
  have hnothing : left.tails.filterMap (expression.searchBefore accepts) = [] := by
    refine List.filterMap_eq_nil_iff.mpr fun other hmem => ?_
    have hother := ((List.mem_tails other left).mp hmem).trans hleft
    rw [searchBefore, h other hother]
    rfl
  rw [expression.search_wildcards_line hline hempty (hleft.trans hinput), hnothing]
  rfl

/-- The leading wildcard takes as much as it can. -/
theorem search_wildcards_eq_last (hline : ∀ symbol ∈ line.dropLast, accepts symbol = true)
    (hempty : expression.search [] = none) :
    (expression.wildcards accepts).search line =
      (line.tails.filterMap expression.search).getLast?.map fun found =>
        (found.1, found.2.dropWhile accepts) := by
  have hmap : line.tails.filterMap (expression.searchBefore accepts) =
      (line.tails.filterMap expression.search).map fun found =>
        (found.1, found.2.dropWhile accepts) := by
    rw [List.map_filterMap]
    rfl
  rw [expression.search_wildcards_line hline hempty List.suffix_rfl, hmap,
    List.getLast?_map]

/-- What the trailing wildcard leaves after a match is not the whole line. -/
theorem dropWhile_suffix_tail {symbol : α} {rest place left captured : List α}
    (hline : ∀ other ∈ (symbol :: rest).dropLast, accepts other = true)
    (hempty : expression.search [] = none)
    (hlast : ∀ other, accepts other = false → expression.search [other] = none)
    (hplace : place <:+ symbol :: rest) (hsome : expression.search place = some (captured, left)) :
    left.dropWhile accepts <:+ rest := by
  have hleft : left <:+ symbol :: rest := (expression.search_suffix hsome).trans hplace
  rcases dropWhile_line hline hleft with hnil | ⟨last, hrefused, hdrop⟩
  · rw [hnil]
    exact List.nil_suffix
  · have hsuffix := (List.dropWhile_suffix accepts).trans hleft
    rcases List.suffix_cons_iff.mp hsuffix with hall | hsuffix
    · -- the line is the one symbol that the wildcard refuses, and there is no match in it
      rw [hdrop] at hall
      cases hall
      rcases List.suffix_cons_iff.mp hplace with rfl | hplace
      · rw [hlast symbol hrefused] at hsome
        cases hsome
      · rw [List.suffix_nil.mp hplace, hempty] at hsome
        cases hsome
    · exact hsuffix

/-- **A line that is matched as a whole.**  Between wildcards that stop at the end of the line
only, the expression is found at the last place where it matches, and nowhere else. -/
theorem findAll_wildcards (hline : ∀ symbol ∈ line.dropLast, accepts symbol = true)
    (hempty : expression.search [] = none)
    (hlast : ∀ symbol, accepts symbol = false → expression.search [symbol] = none) :
    (expression.wildcards accepts).findAll line =
      ((line.tails.filterMap expression.search).getLast?.map Prod.fst).toList := by
  cases hfound : (line.tails.filterMap expression.search).getLast? with
  | none =>
      rw [List.getLast?_eq_none_iff, List.filterMap_eq_nil_iff] at hfound
      exact expression.findAll_wildcards_eq_nil hline hempty List.suffix_rfl
        fun left hleft => hfound left ((List.mem_tails left line).mpr hleft)
  | some found =>
      obtain ⟨captured, left⟩ := found
      obtain ⟨place, hplace, hsome⟩ := List.mem_filterMap.mp (List.mem_of_getLast? hfound)
      rw [List.mem_tails] at hplace
      have hleft : left <:+ line := (expression.search_suffix hsome).trans hplace
      have hwhole : (expression.wildcards accepts).search line =
          some (captured, left.dropWhile accepts) := by
        rw [expression.search_wildcards_eq_last hline hempty, hfound]
        rfl
      cases line with
      | nil =>
          rw [List.suffix_nil.mp hplace, hempty] at hsome
          cases hsome
      | cons symbol rest =>
          obtain ⟨text, htext⟩ :=
            expression.dropWhile_suffix_tail hline hempty hlast hplace hsome
          rw [findAll_cons_of_some _ hwhole htext.symm]
          refine congrArg (captured :: ·) (expression.findAll_wildcards_eq_nil hline hempty
            ((List.dropWhile_suffix accepts).trans hleft) fun other hother => ?_)
          -- what is left of the line is its end, or nothing
          rcases dropWhile_line hline hleft with hnil | ⟨last, hrefused, hdrop⟩
          · rw [hnil, List.suffix_nil] at hother
            rw [hother, hempty]
          · rw [hdrop] at hother
            rcases List.suffix_cons_iff.mp hother with rfl | hother
            · exact hlast last hrefused
            · rw [List.suffix_nil.mp hother, hempty]

end Line

end Expression

end Regex
