import ComputeWebApp.Upload.GroupList
import ComputeWebApp.Upload.WriteServer

/-!
# A request that posts a value

`post_value` as a whole: the data has to exist, the text of the groups is parsed, the size of the
body has to be a multiple of the number of groups, and two items are put to the write queue.

The parser returns an empty list when every item of the text is a range that runs backwards (`5-3`).
Nothing is looked at between the parser and the division by the length of the list.  Of the
exceptions of the parser only its own is caught.  And the list of the attributes, two for each group,
may be too long for the memory when that of the groups is not.
-/

namespace ComputeWebApp.Api

open ByteStream

/-- The answer of `post_value`: `{"status": "ok"}`, or a message with its status code. -/
inductive Answer
  | ok
  | failed (message : String) (status : ℕ)
  deriving DecidableEq, Repr

/-- `post_value`: the answer and what has been put to the write queue, or the exception. -/
def postValue (limits : Python.Limits) (dataIds : List String) (dataId groupIds : String)
    (body : Bytes) : Except Exn (Answer × List QueueItem) :=
  if dataId ∉ dataIds then .ok (.failed "Data has not been posted" 400, [])
  else
    match extractIntegerListFromString limits groupIds with
    | .error (.extractionError message) => .ok (.failed ("ExtractionError : " ++ message) 500, [])
    | .error (.builtin exception) => .error exception
    | .ok groupIds =>
        if nonempty : groupIds = [] then .error .zeroDivisionError
        else
          match ValuePost.postValue ⟨groupIds, body, nonempty⟩ with
          | .error message => .ok (.failed message 500, [])
          | .ok (attributesItem, bodyItem) =>
              -- `attributes` has two entries for each group
              if Python.Within limits.listLength (2 * groupIds.length) then
                .ok (.ok, [⟨dataId, attributesItem.priority, attributesItem.item⟩,
                  ⟨dataId, bodyItem.priority, bodyItem.item⟩])
              else .error .memoryError

/-- **A safe end of `post_value`**: it does not raise, an error puts nothing, and otherwise the
attributes of one item announce the size of each part of the body of the other. -/
def SafelyPosted (dataId : String) (body : Bytes) :
    Except Exn (Answer × List QueueItem) → Prop
  | .error _ => False
  | .ok (.failed _ _, items) => items = []
  | .ok (.ok, items) => ∃ (groupIds : List ℕ) (partSize : ℕ) (nonempty : groupIds ≠ []),
      body.length = groupIds.length * partSize ∧
      items =
        [⟨dataId, 1, .attributes (groupIds.flatMap fun groupId =>
            [⟨groupName groupId, .uploaded true⟩, ⟨groupName groupId, .uploadedBytes partSize⟩])⟩,
          ⟨dataId, 10 + groupIds.head nonempty, .body groupIds body⟩]

/-- Every text between commas is a range that runs backwards. -/
def AllBackwards (groupIds : String) : Prop :=
  ∀ group ∈ groupIds.toList.splitOn ',',
    ∃ first last : Numeral, group = first.text ++ '-' :: last.text ∧ last.value < first.value

/-- The text is a list of groups whose number divides the size of the body, and the two attributes
of each of them are more than there is memory for. -/
def OverAttributes (limits : Python.Limits) (groupIds : String) (body : Bytes) : Prop :=
  ∃ items, Spells groupIds items ∧
    body.length % (items.flatMap GroupItem.integers).length = 0 ∧
    ¬Python.Within limits.listLength (2 * (items.flatMap GroupItem.integers).length)

/-! ## ASCII -/

theorem subset_of_mem_splitOn {separator : Char} {part text : List Char}
    (h : part ∈ text.splitOn separator) : part ⊆ text := by
  induction text generalizing part with
  | nil =>
      rw [List.splitOn_nil, List.mem_singleton] at h
      simp [h]
  | cons c text ih =>
      rw [List.splitOn_cons_eq_if_modifyHead] at h
      split at h
      · rcases List.mem_cons.mp h with rfl | h
        · exact List.nil_subset _
        · exact List.subset_cons_of_subset c (ih h)
      · cases hparts : text.splitOn separator with
        | nil => exact absurd hparts (List.splitOn_ne_nil separator text)
        | cons first rest =>
            rw [hparts, List.modifyHead_cons] at h
            rw [hparts] at ih
            rcases List.mem_cons.mp h with rfl | h
            · exact List.cons_subset_cons c (ih List.mem_cons_self)
            · exact List.subset_cons_of_subset c (ih (List.mem_cons_of_mem first h))

/-- Below 128 there is no digit that is not decimal. -/
theorem isOtherDigit_of_ascii : ∀ code < 128, isOtherDigit code = false := by decide

theorem not_misreadFirst_of_ascii {text : String} (hascii : ∀ c ∈ text.toList, c.toNat < 128) :
    ¬MisreadFirst text := by
  rintro ⟨items, group, after, hsplit, -, hdigits, part, hpart, c, hc, hother⟩
  have hgroup : group ∈ text.toList.splitOn ',' := by
    rw [hsplit]
    exact List.mem_append_right _ List.mem_cons_self
  have hmem : c ∈ text.toList :=
    subset_of_mem_splitOn hgroup (subset_of_mem_splitOn hpart hc)
  have hdigit := hdigits part hpart
  simp only [isdigit, Bool.and_eq_true, List.all_eq_true, Bool.or_eq_true] at hdigit
  rcases hdigit.2 c hc with hdecimal | hdecimal
  · rw [hother] at hdecimal
    cases hdecimal
  · rw [isOtherDigit_of_ascii _ (hascii c hmem)] at hdecimal
    cases hdecimal

/-! ## The list is empty -/

theorem GroupItem.integers_eq_nil {item : GroupItem} :
    item.integers = [] ↔ ∃ first last : Numeral,
      item.text = first.text ++ '-' :: last.text ∧ last.value < first.value := by
  constructor
  · intro hempty
    cases item with
    | single numeral => cases hempty
    | span first last =>
        rw [integers, List.range'_eq_nil_iff] at hempty
        exact ⟨first, last, rfl, by omega⟩
  · rintro ⟨first, last, htext, hlt⟩
    have hparts : item.text.splitOn '-' = [first.text, last.text] := by
      rw [htext]
      exact splitOn_span first last
    cases item with
    | single numeral =>
        rw [splitOn_single] at hparts
        exact absurd (congrArg List.length hparts) (by simp)
    | span first' last' =>
        rw [splitOn_span] at hparts
        injection hparts with hfirst hrest
        injection hrest with hlast
        rw [integers, List.range'_eq_nil_iff, Numeral.value, Numeral.value, hfirst, hlast]
        unfold Numeral.value at hlt
        omega

/-- The parser returns an empty list for the texts of backward ranges, and for no others. -/
theorem allBackwards_iff {text : String} {items : List GroupItem} (h : Spells text items) :
    AllBackwards text ↔ items.flatMap GroupItem.integers = [] := by
  rw [AllBackwards, spells_iff.mp h, List.flatMap_eq_nil_iff, List.forall_mem_map]
  exact forall₂_congr fun item _ => GroupItem.integers_eq_nil.symm

theorem AllBackwards.spells {text : String} (h : AllBackwards text) :
    ∃ items, Spells text items := by
  rcases items_or_first (text.toList.splitOn ',') with
    ⟨items, hsplit⟩ | ⟨items, group, after, hsplit, hnone⟩
  · exact ⟨items, spells_iff.mpr hsplit⟩
  · have hgroup : group ∈ text.toList.splitOn ',' := by
      rw [hsplit]
      exact List.mem_append_right _ List.mem_cons_self
    obtain ⟨first, last, htext, -⟩ := h group hgroup
    exact absurd ⟨.span first last, htext.symm⟩ hnone

/-! ## The request -/

section Request

variable {limits : Python.Limits} {dataIds : List String} {dataId groupIds : String} {body : Bytes}

theorem postValue_of_refused (h : dataId ∈ dataIds) {message : String}
    (hextract : extractIntegerListFromString limits groupIds = .error (.extractionError message)) :
    postValue limits dataIds dataId groupIds body =
      .ok (.failed ("ExtractionError : " ++ message) 500, []) := by
  rw [postValue, if_neg (not_not_intro h), hextract]

theorem postValue_of_raised (h : dataId ∈ dataIds) {exception : Exn}
    (hextract : extractIntegerListFromString limits groupIds = .error (.builtin exception)) :
    postValue limits dataIds dataId groupIds body = .error exception := by
  rw [postValue, if_neg (not_not_intro h), hextract]

theorem postValue_of_empty (h : dataId ∈ dataIds)
    (hextract : extractIntegerListFromString limits groupIds = .ok []) :
    postValue limits dataIds dataId groupIds body = .error .zeroDivisionError := by
  rw [postValue, if_neg (not_not_intro h), hextract]
  rfl

/-- With some group, the call is safe unless it makes too many attributes. -/
theorem safelyPosted_of_nonempty (h : dataId ∈ dataIds) {integers : List ℕ}
    (hextract : extractIntegerListFromString limits groupIds = .ok integers)
    (hne : integers ≠ []) :
    SafelyPosted dataId body (postValue limits dataIds dataId groupIds body) ↔
      (body.length % integers.length = 0 →
        Python.Within limits.listLength (2 * integers.length)) := by
  rw [postValue, if_neg (not_not_intro h), hextract]
  simp only [dif_neg hne, ValuePost.postValue]
  by_cases hsize : body.length % integers.length = 0
  · rw [if_neg (not_not_intro hsize)]
    by_cases hmemory : Python.Within limits.listLength (2 * integers.length)
    · simp only [if_pos hmemory]
      refine iff_of_true ⟨integers, body.length / integers.length, hne, ?_, rfl⟩ fun _ => hmemory
      exact (Nat.mul_div_cancel' (Nat.dvd_of_mod_eq_zero hsize)).symm
    · simp only [if_neg hmemory]
      exact iff_of_false id fun hall => hmemory (hall hsize)
  · rw [if_pos hsize]
    exact iff_of_true rfl fun hzero => absurd hzero hsize

theorem integers_of_extract {integers : List ℕ}
    (hextract : extractIntegerListFromString limits groupIds = .ok integers)
    (hlimits : ¬OverLimits limits groupIds) {items : List GroupItem} (h : Spells groupIds items) :
    items.flatMap GroupItem.integers = integers :=
  Except.ok.inj ((extract_of_spells h hlimits).symm.trans hextract)

/-- The attributes in terms of what the parser returns. -/
theorem overAttributes_iff (hlimits : ¬OverLimits limits groupIds) {items : List GroupItem}
    (h : Spells groupIds items) :
    OverAttributes limits groupIds body ↔
      body.length % (items.flatMap GroupItem.integers).length = 0 ∧
        ¬Python.Within limits.listLength (2 * (items.flatMap GroupItem.integers).length) := by
  constructor
  · rintro ⟨others, hothers, hover⟩
    rwa [integers_of_extract (extract_of_spells h hlimits) hlimits hothers] at hover
  · exact fun hover => ⟨items, h, hover⟩

end Request

/-- **`post_value` is safe**, for a text of ASCII characters, unless every text between commas is a
range that runs backwards, or items at its front are over the limits of the interpreter, or the
attributes are. -/
theorem post_value_safe_iff (limits : Python.Limits) {dataIds : List String}
    {dataId groupIds : String} (hdata : dataId ∈ dataIds)
    (hascii : ∀ c ∈ groupIds.toList, c.toNat < 128) (body : Bytes) :
    SafelyPosted dataId body (postValue limits dataIds dataId groupIds body) ↔
      ¬AllBackwards groupIds ∧ ¬OverLimits limits groupIds ∧
        ¬OverAttributes limits groupIds body := by
  by_cases hlimits : OverLimits limits groupIds
  · obtain ⟨exception, herror⟩ := hlimits.extract
    rw [postValue_of_raised hdata herror]
    exact iff_of_false id fun h => h.2.1 hlimits
  rcases extract_cases limits groupIds with ⟨items, hspells⟩ | hover | hmisread | herror
  · have hextract := extract_of_spells hspells hlimits
    rw [overAttributes_iff hlimits hspells, allBackwards_iff hspells]
    by_cases hempty : items.flatMap GroupItem.integers = []
    · rw [hempty] at hextract
      rw [postValue_of_empty hdata hextract]
      exact iff_of_false id fun h => h.1 hempty
    · rw [safelyPosted_of_nonempty hdata hextract hempty]
      simp only [hempty, hlimits, not_false_eq_true, true_and, not_and, not_not]
  · exact absurd hover hlimits
  · exact absurd hmisread (not_misreadFirst_of_ascii hascii)
  · -- the text is refused
    rw [postValue_of_refused hdata herror]
    have hnone : ¬∃ items, Spells groupIds items := by
      rintro ⟨items, hspells⟩
      rw [extract_of_spells hspells hlimits] at herror
      cases herror
    refine iff_of_true rfl ⟨fun hbackwards => hnone hbackwards.spells, hlimits, ?_⟩
    rintro ⟨items, hspells, -⟩
    exact hnone ⟨items, hspells⟩

/-- What the parser reads is a list that is not over the limits, and backwards only when it is
empty. -/
theorem forwards_of_extract {limits : Python.Limits} {groupIds : String} {body : Bytes}
    {integers : List ℕ} (hextract : extractIntegerListFromString limits groupIds = .ok integers)
    (hne : integers ≠ []) (hmemory : Python.Within limits.listLength (2 * integers.length)) :
    ¬AllBackwards groupIds ∧ ¬OverLimits limits groupIds ∧
      ¬OverAttributes limits groupIds body := by
  have hlimits : ¬OverLimits limits groupIds := by
    intro hover
    obtain ⟨exception, herror⟩ := hover.extract
    rw [hextract] at herror
    cases herror
  refine ⟨fun hbackwards => hne ?_, hlimits, ?_⟩
  · obtain ⟨items, hspells⟩ := hbackwards.spells
    rw [← integers_of_extract hextract hlimits hspells]
    exact (allBackwards_iff hspells).mp hbackwards
  · rintro ⟨items, hspells, -, hover⟩
    rw [integers_of_extract hextract hlimits hspells] at hover
    exact hover hmemory

/-- Two groups in a list with a backward range next to a forward one. -/
theorem post_value_safe_two_groups :
    SafelyPosted "fe05bcdcdc492801" [7, 8] (postValue Python.cpython ["fe05bcdcdc492801"]
      "fe05bcdcdc492801" "5-3,0-1" [7, 8]) := by
  have hascii : ("5-3,0-1".toList.all fun c => c.toNat < 128) = true := by decide
  have hextract : extractIntegerListFromString Python.cpython "5-3,0-1" = .ok [0, 1] := by decide
  exact (post_value_safe_iff Python.cpython List.mem_cons_self
    (fun c hc => of_decide_eq_true (List.all_eq_true.mp hascii c hc)) [7, 8]).mpr
      (forwards_of_extract hextract (by decide) (by decide))

/-- The groups `5-3` of an existing data: the remainder by the length of an empty list raises. -/
theorem post_value_divides_by_zero :
    ¬SafelyPosted "fe05bcdcdc492801" [7, 8]
      (postValue Python.cpython ["fe05bcdcdc492801"] "fe05bcdcdc492801" "5-3" [7, 8]) := by
  have hextract : extractIntegerListFromString Python.cpython "5-3" = .ok [] := by decide
  rw [postValue_of_empty (by decide) hextract]
  exact id

end ComputeWebApp.Api
