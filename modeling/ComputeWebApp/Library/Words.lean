import Mathlib.Data.List.Basic

/-!
# Words of a stream

The words that successive calls of `getline` read from a stream.  A call reads up to a delimiter or
the end of the stream and fails when it has read nothing, so that nothing follows a delimiter at
the end.  Joined texts split back into themselves if and only if no delimiter is in them and the
last one is not empty (`words_join_iff`).
-/

namespace Words

variable {α : Type*}

/-- The texts with a delimiter between them. -/
def join (delimiter : α) (texts : List (List α)) : List α := [delimiter].intercalate texts

section Join

variable {delimiter : α} {text : List α} {texts : List (List α)}

@[simp] theorem join_nil : join delimiter [] = [] := rfl

@[simp] theorem join_singleton : join delimiter [text] = text := by
  simp [join]

theorem join_cons (h : texts ≠ []) :
    join delimiter (text :: texts) = text ++ delimiter :: join delimiter texts := by
  obtain ⟨next, texts, rfl⟩ := List.exists_cons_of_ne_nil h
  simp [join, List.intercalate_cons_cons]

end Join

variable [DecidableEq α]

/-- The words that are read when the current call has read `word` so far. -/
def wordsFrom (delimiter : α) (word : List α) : List α → List (List α)
  | [] => if word = [] then [] else [word]
  | symbol :: rest =>
      if symbol = delimiter then word :: wordsFrom delimiter [] rest
      else wordsFrom delimiter (word ++ [symbol]) rest

/-- The words of a text. -/
def words (delimiter : α) (text : List α) : List (List α) := wordsFrom delimiter [] text

variable {delimiter : α} {word text rest : List α} {texts : List (List α)}

@[simp] theorem words_nil : words delimiter [] = [] := rfl

/-! ## Reading a text -/

/-- A text up to a delimiter belongs to the current word. -/
theorem wordsFrom_append_delimiter (h : delimiter ∉ text) :
    wordsFrom delimiter word (text ++ delimiter :: rest) =
      (word ++ text) :: words delimiter rest := by
  induction text generalizing word with
  | nil => simp [wordsFrom, words]
  | cons symbol text ih =>
      obtain ⟨hne, htext⟩ := List.ne_and_not_mem_of_not_mem_cons h
      rw [List.cons_append, wordsFrom, if_neg (Ne.symm hne), ih htext, List.append_assoc]
      rfl

theorem wordsFrom_of_notMem (h : delimiter ∉ text) :
    wordsFrom delimiter word text = if word ++ text = [] then [] else [word ++ text] := by
  induction text generalizing word with
  | nil => simp [wordsFrom]
  | cons symbol text ih =>
      obtain ⟨hne, htext⟩ := List.ne_and_not_mem_of_not_mem_cons h
      rw [wordsFrom, if_neg (Ne.symm hne), ih htext, List.append_assoc]
      rfl

theorem words_append_delimiter (h : delimiter ∉ text) :
    words delimiter (text ++ delimiter :: rest) = text :: words delimiter rest :=
  wordsFrom_append_delimiter h

theorem words_of_notMem (h : delimiter ∉ text) :
    words delimiter text = if text = [] then [] else [text] :=
  wordsFrom_of_notMem h

/-- No word has a delimiter. -/
theorem notMem_of_mem_wordsFrom (hword : delimiter ∉ word) {found : List α}
    (h : found ∈ wordsFrom delimiter word text) : delimiter ∉ found := by
  induction text generalizing word with
  | nil =>
      rw [wordsFrom] at h
      split at h
      · cases h
      · rw [List.mem_singleton.mp h]
        exact hword
  | cons symbol text ih =>
      rw [wordsFrom] at h
      split at h
      · rcases List.mem_cons.mp h with rfl | hrest
        · exact hword
        · exact ih List.not_mem_nil hrest
      · rename_i hne
        refine ih (fun hmem => ?_) h
        rcases List.mem_append.mp hmem with hmem | hmem
        · exact hword hmem
        · exact hne (List.mem_singleton.mp hmem).symm

theorem notMem_of_mem_words (h : word ∈ words delimiter text) : delimiter ∉ word :=
  notMem_of_mem_wordsFrom List.not_mem_nil h

/-! ## Joining and splitting -/

/-- Of joined texts without a delimiter everything is read but an empty text at the end. -/
theorem words_join (h : ∀ text ∈ texts, delimiter ∉ text) :
    words delimiter (join delimiter texts) =
      if texts.getLast? = some [] then texts.dropLast else texts := by
  induction texts with
  | nil => rfl
  | cons text texts ih =>
      have htext := h text List.mem_cons_self
      cases texts with
      | nil =>
          rw [join_singleton, words_of_notMem htext]
          simp
      | cons next texts =>
          rw [join_cons (List.cons_ne_nil next texts), words_append_delimiter htext,
            ih fun other hmem => h other (List.mem_cons_of_mem _ hmem), List.getLast?_cons_cons]
          split <;> rfl

/-- **Joined texts split back.** -/
theorem words_join_iff :
    words delimiter (join delimiter texts) = texts ↔
      (∀ text ∈ texts, delimiter ∉ text) ∧ texts.getLast? ≠ some [] := by
  constructor
  · intro h
    have hnotMem : ∀ text ∈ texts, delimiter ∉ text :=
      fun text hmem => notMem_of_mem_words (h.symm ▸ hmem)
    refine ⟨hnotMem, fun hlast => ?_⟩
    rw [words_join hnotMem, if_pos hlast] at h
    have hlength := congrArg List.length h
    rw [List.length_dropLast] at hlength
    have hpos : texts ≠ [] := by
      rintro rfl
      cases hlast
    have := List.length_pos_iff.mpr hpos
    omega
  · rintro ⟨hnotMem, hlast⟩
    rw [words_join hnotMem, if_neg hlast]

end Words
