import Mathlib.Data.List.Basic

/-!
# Whole matches of regular expressions

Expressions made of single symbols, of runs of accepted symbols with bounds on their length, of
sequences and of alternatives.  `rests` are the ways in which an expression can match a start of
the input; a text matches as a whole if and only if it is one that the expression stands for
(`matchesWhole_iff`).
-/

namespace RegexMatch

variable {α : Type*}

inductive Expression (α : Type*)
  | one (accepts : α → Bool)
  | times (accepts : α → Bool) (low high : ℕ)
  | seq (before after : Expression α)
  | alt (first second : Expression α)

namespace Expression

/-- The texts that the expression stands for. -/
def Takes : Expression α → List α → Prop
  | one accepts, text => ∃ symbol, text = [symbol] ∧ accepts symbol = true
  | times accepts low high, text =>
      low ≤ text.length ∧ text.length ≤ high ∧ ∀ symbol ∈ text, accepts symbol = true
  | seq before after, text => ∃ first second, text = first ++ second ∧ before.Takes first ∧
      after.Takes second
  | alt first second, text => first.Takes text ∨ second.Takes text

/-- What is left of the input, for each text that the expression can take from its start. -/
def rests : Expression α → List α → List (List α)
  | one _, [] => []
  | one accepts, symbol :: rest => if accepts symbol then [rest] else []
  | times accepts low high, input =>
      ((List.range (high + 1)).filter fun count =>
        low ≤ count && count ≤ input.length && (input.take count).all accepts).map input.drop
  | seq before after, input => (before.rests input).flatMap after.rests
  | alt first second, input => first.rests input ++ second.rests input

/-- `std::regex_match` -/
def matchesWhole (expression : Expression α) (input : List α) : Bool :=
  (expression.rests input).any List.isEmpty

theorem mem_rests_iff (expression : Expression α) (input rest : List α) :
    rest ∈ expression.rests input ↔ ∃ text, input = text ++ rest ∧ expression.Takes text := by
  induction expression generalizing input rest with
  | one accepts =>
      cases input with
      | nil =>
          refine iff_of_false List.not_mem_nil ?_
          rintro ⟨text, happend, symbol, rfl, -⟩
          cases happend
      | cons symbol input =>
          rw [rests]
          constructor
          · intro h
            split at h
            · rename_i haccepts
              rw [List.mem_singleton.mp h]
              exact ⟨[symbol], rfl, symbol, rfl, haccepts⟩
            · cases h
          · rintro ⟨text, happend, symbol', rfl, haccepts⟩
            cases happend
            rw [if_pos haccepts]
            exact List.mem_singleton_self _
  | times accepts low high =>
      rw [rests, List.mem_map]
      constructor
      · rintro ⟨count, hcount, rfl⟩
        simp only [List.mem_filter, List.mem_range, Bool.and_eq_true, decide_eq_true_eq,
          List.all_eq_true] at hcount
        obtain ⟨hhigh, ⟨hlow, hlength⟩, hall⟩ := hcount
        have htake : (input.take count).length = count := by
          rw [List.length_take, Nat.min_eq_left hlength]
        exact ⟨input.take count, (List.take_append_drop count input).symm, by omega, by omega, hall⟩
      · rintro ⟨text, rfl, hlow, hhigh, hall⟩
        refine ⟨text.length, ?_, List.drop_left⟩
        simp only [List.mem_filter, List.mem_range, Bool.and_eq_true, decide_eq_true_eq,
          List.all_eq_true, List.take_left, List.length_append]
        exact ⟨by omega, ⟨hlow, by omega⟩, hall⟩
  | seq before after ihbefore ihafter =>
      rw [rests, List.mem_flatMap]
      constructor
      · rintro ⟨middle, hmiddle, hrest⟩
        obtain ⟨first, rfl, hfirst⟩ := (ihbefore input middle).mp hmiddle
        obtain ⟨second, rfl, hsecond⟩ := (ihafter middle rest).mp hrest
        exact ⟨first ++ second, (List.append_assoc _ _ _).symm, first, second, rfl, hfirst, hsecond⟩
      · rintro ⟨_, rfl, first, second, rfl, hfirst, hsecond⟩
        exact ⟨second ++ rest, (ihbefore _ _).mpr ⟨first, List.append_assoc _ _ _, hfirst⟩,
          (ihafter _ _).mpr ⟨second, rfl, hsecond⟩⟩
  | alt first second ihfirst ihsecond =>
      rw [rests, List.mem_append, ihfirst, ihsecond, ← exists_or]
      simp only [Takes, and_or_left]

theorem matchesWhole_iff {expression : Expression α} {input : List α} :
    expression.matchesWhole input = true ↔ expression.Takes input := by
  rw [matchesWhole, List.any_eq_true]
  constructor
  · rintro ⟨rest, hmem, hempty⟩
    obtain rfl := List.isEmpty_iff.mp hempty
    obtain ⟨text, rfl, htakes⟩ := (mem_rests_iff expression input []).mp hmem
    rwa [List.append_nil]
  · intro htakes
    exact ⟨[], (mem_rests_iff expression input []).mpr ⟨input, (List.append_nil _).symm, htakes⟩,
      rfl⟩

end Expression

end RegexMatch
