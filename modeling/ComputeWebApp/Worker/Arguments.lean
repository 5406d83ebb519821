import ComputeWebApp.Worker.Variant

/-!
# Arguments of a worker

`Variant::SerializeValues` writes the parameters of a worker into one text, and
`WorkerMultiProcess::Launch` makes two arguments of each parameter.  The text is what the arguments
are with a space between them (`serializeValues_eq`), so that it splits back into the arguments
unless there is a space in one of them or the last one is empty (`serialized_splits_iff`).
-/

namespace ComputeWebApp.Worker

open GeneralFormat Words

/-- A `std::map` from keys to variants. -/
structure VariantMap where
  entries : List (Text × Variant)
  sorted : (entries.map Prod.fst).Pairwise (· < ·)

namespace VariantMap

/-- `Variant::SerializeValues` -/
def serializeValues (values : VariantMap) (keyPrefix : Text) : Text :=
  values.entries.flatMap fun (key, value) =>
    (if values.entries.head?.map Prod.fst ≠ some key then [' '] else []) ++
      (keyPrefix ++ (key ++ ' ' :: value.print))

/-- The parameter arguments that `WorkerMultiProcess::Launch` builds. -/
def parameterArgs (values : VariantMap) : List Text :=
  values.entries.flatMap fun (key, value) => [key, value.print]

end VariantMap

/-- What a worker is told about the supplier or the aggregator. -/
structure Endpoint where
  type : Text
  info : Text

def cwaArgs (supplier aggregator : Endpoint) : List Text :=
  ["--cwa-sup-type".toList, supplier.type, "--cwa-sup-info".toList, supplier.info,
    "--cwa-agg-type".toList, aggregator.type, "--cwa-agg-info".toList, aggregator.info]

/-- The arguments that `WorkerMultiProcess::Launch` launches the command with, where `args` are the
ones of the definition. -/
def launchArgs (args : List Text) (values : VariantMap) (supplier aggregator : Endpoint) :
    List Text :=
  args ++ values.parameterArgs ++ cwaArgs supplier aggregator

namespace Variant

/-- It has a string with a space in it, or a variant without a value, which is written with
spaces. -/
def Spaced (variant : Variant) : Prop :=
  Within none variant ∨ ∃ text, Within (string text) variant ∧ ' ' ∈ text

/-- Nothing is written for it. -/
inductive Blank : Variant → Prop
  | string : Blank (string [])
  | nil : Blank (variants [])
  | single {value : Variant} : Blank value → Blank (variants [value])

/-! ## What is written -/

theorem space_notMem_toDigits (n : ℕ) : ' ' ∉ Nat.toDigits 10 n :=
  fun h => absurd (all_toDigits n ' ' h) (by decide)

theorem space_notMem_integer (value : ℤ) : ' ' ∉ (toString value).toList := by
  cases value with
  | ofNat n =>
      show ' ' ∉ (Nat.repr n).toList
      rw [Nat.toList_repr]
      exact space_notMem_toDigits n
  | negSucc n =>
      show ' ' ∉ ("-" ++ Nat.repr (n + 1)).toList
      rw [String.toList_append, Nat.toList_repr]
      intro h
      rcases List.mem_append.mp h with h | h
      · exact absurd h (by decide)
      · exact space_notMem_toDigits _ h

theorem integer_ne_nil (value : ℤ) : (toString value).toList ≠ [] := by
  cases value with
  | ofNat n =>
      show (Nat.repr n).toList ≠ []
      rw [Nat.toList_repr]
      exact Nat.toDigits_ne_nil
  | negSucc n =>
      show ("-" ++ Nat.repr (n + 1)).toList ≠ []
      rw [String.toList_append]
      exact List.append_ne_nil_of_left_ne_nil (List.cons_ne_nil _ _) _

theorem spaced_variants_iff {values : Variants} :
    Spaced (variants values) ↔ ∃ value ∈ values, Spaced value := by
  constructor
  · rintro ((_ | ⟨hmem, hnone⟩) | ⟨text, (_ | ⟨hmem, htext⟩), hspace⟩)
    · exact ⟨_, hmem, .inl hnone⟩
    · exact ⟨_, hmem, .inr ⟨text, htext, hspace⟩⟩
  · rintro ⟨value, hmem, hnone | ⟨text, htext, hspace⟩⟩
    · exact .inl (.item hmem hnone)
    · exact .inr ⟨text, .item hmem htext, hspace⟩

theorem not_spaced {variant : Variant} (hnone : ¬Within none variant)
    (hstring : ∀ text, ¬Within (string text) variant) : ¬Spaced variant := by
  rintro (h | ⟨text, h, -⟩)
  · exact hnone h
  · exact hstring text h

mutual

/-- Where the spaces of a text come from. -/
theorem space_mem_print_iff : ∀ variant : Variant, ' ' ∈ variant.print ↔ variant.Spaced
  | none => iff_of_true (by decide) (.inl .here)
  | integer value => iff_of_false (space_notMem_integer value) (not_spaced nofun nofun)
  | decimal value =>
      iff_of_false (fun h => absurd (value.all_text ' ' h) (by decide)) (not_spaced nofun nofun)
  | string text => by
      constructor
      · exact fun h => .inr ⟨text, .here, h⟩
      · rintro (h | ⟨text', h, hspace⟩)
        · cases h
        · cases h
          exact hspace
  | variants [] => by
      rw [spaced_variants_iff]
      simp [print]
  | variants (value :: values) => by
      rw [spaced_variants_iff, print, List.mem_append, space_mem_print_iff value,
        space_mem_printRest_iff values, List.exists_mem_cons_iff]

theorem space_mem_printRest_iff : ∀ values : Variants,
    ' ' ∈ printRest values ↔ ∃ value ∈ values, value.Spaced
  | [] => by simp [printRest]
  | value :: values => by
      rw [printRest, List.mem_cons, List.mem_append, space_mem_print_iff value,
        space_mem_printRest_iff values, List.exists_mem_cons_iff]
      exact or_iff_right (by decide)

end

theorem printRest_eq_nil_iff {values : Variants} : printRest values = [] ↔ values = [] := by
  cases values with
  | nil => exact iff_of_true rfl rfl
  | cons value values => exact iff_of_false (List.cons_ne_nil _ _) (List.cons_ne_nil _ _)

/-- Which variants are written as the empty text. -/
theorem print_eq_nil_iff : ∀ variant : Variant, variant.print = [] ↔ variant.Blank
  | none => iff_of_false (List.cons_ne_nil _ _) nofun
  | integer value => iff_of_false (integer_ne_nil value) nofun
  | decimal value => iff_of_false value.text_ne_nil nofun
  | string text => by
      constructor
      · rintro (rfl : text = [])
        exact .string
      · rintro ⟨⟩
        rfl
  | variants [] => iff_of_true rfl .nil
  | variants (value :: values) => by
      rw [print, List.append_eq_nil_iff, printRest_eq_nil_iff, print_eq_nil_iff value]
      constructor
      · rintro ⟨hblank, rfl⟩
        exact .single hblank
      · rintro ⟨⟩
        exact ⟨by assumption, rfl⟩

end Variant

namespace VariantMap

/-! ## One text and separate arguments -/

/-- After the first entry each entry follows a space. -/
theorem flatMap_entries (entries : List (Text × Variant)) (key : Text) (value : Variant) :
    key ++ ' ' :: value.print ++
        entries.flatMap (fun entry => ' ' :: (entry.1 ++ ' ' :: entry.2.print)) =
      join ' ' (((key, value) :: entries).flatMap fun entry => [entry.1, entry.2.print]) := by
  induction entries generalizing key value with
  | nil => simp [join_cons]
  | cons next entries ih =>
      have hne : ((next :: entries).flatMap fun entry => [entry.1, entry.2.print]) ≠ [] :=
        List.cons_ne_nil _ _
      show _ = join ' ' (key :: value.print ::
        (next :: entries).flatMap fun entry => [entry.1, entry.2.print])
      rw [join_cons (List.cons_ne_nil _ _), join_cons hne, ← ih next.1 next.2]
      simp

theorem serializeValues_eq (values : VariantMap) :
    values.serializeValues [] = join ' ' values.parameterArgs := by
  obtain ⟨entries, hsorted⟩ := values
  cases entries with
  | nil => rfl
  | cons entry entries =>
      obtain ⟨key, value⟩ := entry
      have hkeys : ∀ entry ∈ entries, some key ≠ some entry.1 := by
        intro other hmem heq
        have hlt := (List.pairwise_cons.mp hsorted).1 other.1 (List.mem_map_of_mem hmem)
        rw [← Option.some.inj heq] at hlt
        exact List.lt_irrefl key hlt
      rw [parameterArgs, ← flatMap_entries, serializeValues, List.flatMap_cons]
      refine congrArg₂ (· ++ ·) ?_ (List.flatMap_congr fun other hmem => ?_)
      · simp
      · simp [hkeys other hmem]

theorem getLast?_parameterArgs (values : VariantMap) :
    values.parameterArgs.getLast? = values.entries.getLast?.map fun entry => entry.2.print := by
  unfold parameterArgs
  rcases values.entries.eq_nil_or_concat with hnil | ⟨front, last, hconcat⟩
  · rw [hnil]
    rfl
  · rw [hconcat, List.concat_eq_append, List.flatMap_append, List.flatMap_singleton,
      List.getLast?_concat]
    simp

/-- No key and no string has a space, every value is there, and something is written for the value
of the last key. -/
structure Separable (values : VariantMap) : Prop where
  unspaced : ∀ entry ∈ values.entries, ' ' ∉ entry.1 ∧ ¬entry.2.Spaced
  last : ∀ entry, values.entries.getLast? = some entry → ¬entry.2.Blank

theorem words_serializeValues_iff (values : VariantMap) :
    words ' ' (values.serializeValues []) = values.parameterArgs ↔ values.Separable := by
  have hunspaced : (∀ arg ∈ values.parameterArgs, ' ' ∉ arg) ↔
      ∀ entry ∈ values.entries, ' ' ∉ entry.1 ∧ ¬entry.2.Spaced := by
    simp only [parameterArgs, List.forall_mem_flatMap, List.forall_mem_cons,
      Variant.space_mem_print_iff]
    simp
  have hlast : values.parameterArgs.getLast? ≠ some [] ↔
      ∀ entry, values.entries.getLast? = some entry → ¬entry.2.Blank := by
    rw [getLast?_parameterArgs]
    cases values.entries.getLast? with
    | none => exact iff_of_true nofun nofun
    | some entry => simp [Variant.print_eq_nil_iff]
  rw [serializeValues_eq, words_join_iff, hunspaced, hlast]
  exact ⟨fun h => ⟨h.1, h.2⟩, fun h => ⟨h.unspaced, h.last⟩⟩

/-- **Serialized parameters.**  The text splits back into the parameter arguments, and so the worker
is launched with the words of the text, if and only if the parameters are separable. -/
theorem serialized_splits_iff (values : VariantMap) (args : List Text)
    (supplier aggregator : Endpoint) :
    (words ' ' (values.serializeValues []) = values.parameterArgs ↔ values.Separable) ∧
      (launchArgs args values supplier aggregator =
          args ++ words ' ' (values.serializeValues []) ++ cwaArgs supplier aggregator ↔
        values.Separable) := by
  refine ⟨words_serializeValues_iff values, ?_⟩
  rw [launchArgs, List.append_left_inj, List.append_right_inj, eq_comm]
  exact words_serializeValues_iff values

/-- A string with a space, as the last parameter. -/
def endMessage : VariantMap where
  entries := [(['m'], .string ['a', ' ', 'b'])]
  sorted := List.pairwise_singleton _ _

/-- The worker gets the part of the string after the space as an argument of its own. -/
theorem serialized_string_with_space :
    words ' ' (endMessage.serializeValues []) ≠ endMessage.parameterArgs ∧
      words ' ' (endMessage.serializeValues []) = [['m'], ['a'], ['b']] :=
  ⟨by decide, rfl⟩

end VariantMap

end ComputeWebApp.Worker
