import Mathlib.Data.List.Nodup

/-!
# Dictionaries in the order of insertion

A dictionary is the list of its members, with each key once.  An assignment to a key that is there
keeps its place, and to a new one puts it at the end.

The functions on lists of members are also for lists with a key twice, where the first one counts.
-/

structure Dictionary (κ ν : Type*) where
  members : List (κ × ν)
  nodup : (members.map Prod.fst).Nodup

namespace Dictionary

variable {κ ν : Type*} [DecidableEq κ]

/-! ## Lists of members -/

def lookup (members : List (κ × ν)) (key : κ) : Option ν :=
  (members.find? fun member => member.1 = key).map Prod.snd

def insert (members : List (κ × ν)) (key : κ) (value : ν) : List (κ × ν) :=
  if members.any fun member => member.1 = key then
    members.map fun member => if member.1 = key then (key, value) else member
  else members ++ [(key, value)]

section Members

variable {members rest : List (κ × ν)} {member : κ × ν} {key key' : κ} {value : ν}

@[simp] theorem lookup_nil : lookup ([] : List (κ × ν)) key = none := rfl

theorem lookup_cons :
    lookup (member :: members) key =
      if member.1 = key then some member.2 else lookup members key := by
  by_cases h : member.1 = key <;> simp [lookup, h]

theorem lookup_eq_none_iff : lookup members key = none ↔ key ∉ members.map Prod.fst := by
  rw [lookup, Option.map_eq_none_iff, List.find?_eq_none]
  constructor
  · intro h hmem
    obtain ⟨member, hmember, hkey⟩ := List.mem_map.mp hmem
    exact h member hmember (decide_eq_true hkey)
  · intro h member hmember hkey
    exact h (List.mem_map.mpr ⟨member, hmember, of_decide_eq_true hkey⟩)

theorem lookup_eq_some_iff (h : (members.map Prod.fst).Nodup) :
    lookup members key = some value ↔ (key, value) ∈ members := by
  induction members with
  | nil => simp
  | cons member members ih =>
      obtain ⟨hmember, hmembers⟩ := List.nodup_cons.mp h
      obtain ⟨first, second⟩ := member
      rw [lookup_cons, List.mem_cons, Prod.mk.injEq]
      by_cases hkey : first = key
      · subst hkey
        have hnot : (first, value) ∉ members := fun hmem =>
          hmember (List.mem_map.mpr ⟨_, hmem, rfl⟩)
        simp [hnot, eq_comm]
      · rw [if_neg hkey, ih hmembers]
        simp [Ne.symm hkey]

theorem lookup_append :
    lookup (members ++ rest) key = (lookup members key).or (lookup rest key) := by
  induction members with
  | nil => simp
  | cons member members ih =>
      rw [List.cons_append, lookup_cons, lookup_cons, ih]
      split_ifs <;> simp

/-- Only the members with some keys. -/
theorem lookup_filter (p : κ → Bool) :
    lookup (members.filter fun member => p member.1) key =
      if p key = true then lookup members key else none := by
  induction members with
  | nil => simp
  | cons member members ih =>
      by_cases hp : p member.1 = true
      · rw [List.filter_cons, if_pos hp, lookup_cons, lookup_cons, ih]
        by_cases hkey : member.1 = key
        · simp [hkey, hkey ▸ hp]
        · simp [hkey]
      · rw [List.filter_cons, if_neg hp, ih, lookup_cons]
        by_cases hkey : member.1 = key
        · simp [hkey ▸ hp]
        · simp [hkey]

theorem insert_of_mem (h : key ∈ members.map Prod.fst) :
    insert members key value =
      members.map fun member => if member.1 = key then (key, value) else member := by
  refine if_pos ?_
  obtain ⟨member, hmember, rfl⟩ := List.mem_map.mp h
  exact List.any_eq_true.mpr ⟨member, hmember, decide_eq_true rfl⟩

theorem insert_of_notMem (h : key ∉ members.map Prod.fst) :
    insert members key value = members ++ [(key, value)] := by
  refine if_neg fun hany => h ?_
  obtain ⟨member, hmember, hkey⟩ := List.any_eq_true.mp hany
  exact List.mem_map.mpr ⟨member, hmember, of_decide_eq_true hkey⟩

/-- An assignment keeps the keys that are there in their places. -/
theorem keys_insert (members : List (κ × ν)) (key : κ) (value : ν) :
    (insert members key value).map Prod.fst =
      if key ∈ members.map Prod.fst then members.map Prod.fst
      else members.map Prod.fst ++ [key] := by
  by_cases h : key ∈ members.map Prod.fst
  · rw [insert_of_mem h, if_pos h, List.map_map]
    refine List.map_congr_left fun member _ => ?_
    by_cases hkey : member.1 = key <;> simp [hkey]
  · rw [insert_of_notMem h, if_neg h, List.map_append]
    rfl

theorem lookup_replace :
    lookup (members.map fun member => if member.1 = key then (key, value) else member) key' =
      if key' = key then (lookup members key).map fun _ => value else lookup members key' := by
  induction members with
  | nil => simp
  | cons member members ih =>
      rw [List.map_cons, lookup_cons, lookup_cons, lookup_cons, ih]
      by_cases hmember : member.1 = key
      · subst hmember
        by_cases hkey : key' = member.1
        · simp [hkey]
        · simp [hkey, Ne.symm hkey]
      · by_cases hkey : key' = key
        · simp [hkey, hmember]
        · simp [hkey, hmember]

theorem lookup_insert :
    lookup (insert members key value) key' =
      if key' = key then some value else lookup members key' := by
  by_cases h : key ∈ members.map Prod.fst
  · obtain ⟨old, hold⟩ := Option.ne_none_iff_exists'.mp (mt lookup_eq_none_iff.mp (not_not.mpr h))
    rw [insert_of_mem h, lookup_replace, hold]
    rfl
  · rw [insert_of_notMem h, lookup_append, lookup_cons]
    by_cases hkey : key' = key
    · subst hkey
      rw [lookup_eq_none_iff.mpr h]
      simp
    · simp [hkey, Ne.symm hkey]

end Members

/-! ## Dictionaries -/

/-- `dictionary[key]` -/
def get? (dictionary : Dictionary κ ν) (key : κ) : Option ν := lookup dictionary.members key

/-- `dictionary[key] = value` -/
def set (dictionary : Dictionary κ ν) (key : κ) (value : ν) : Dictionary κ ν where
  members := insert dictionary.members key value
  nodup := by
    rw [keys_insert]
    split_ifs with h
    · exact dictionary.nodup
    · exact List.nodup_append.mpr ⟨dictionary.nodup, List.nodup_singleton key, by
        rintro other hother _ (_ | ⟨_, ⟨⟩⟩) rfl
        exact h hother⟩

/-- `dict()` -/
def empty : Dictionary κ ν := ⟨[], List.nodup_nil⟩

variable {dictionary : Dictionary κ ν} {key key' : κ} {value : ν}

@[simp] theorem get?_empty : (empty : Dictionary κ ν).get? key = none := rfl

theorem get?_set :
    (dictionary.set key value).get? key' =
      if key' = key then some value else dictionary.get? key' :=
  lookup_insert

@[simp] theorem get?_set_self : (dictionary.set key value).get? key = some value := by
  rw [get?_set, if_pos rfl]

theorem get?_set_of_ne (h : key' ≠ key) :
    (dictionary.set key value).get? key' = dictionary.get? key' := by
  rw [get?_set, if_neg h]

/-- Members that are assigned one after the other. -/
theorem get?_foldl_set {members : List (κ × ν)} (h : (members.map Prod.fst).Nodup) :
    (members.foldl (fun d member => d.set member.1 member.2) dictionary).get? key =
      (lookup members key).or (dictionary.get? key) := by
  induction members generalizing dictionary with
  | nil => rfl
  | cons member members ih =>
      obtain ⟨hmember, hmembers⟩ := List.nodup_cons.mp h
      rw [List.foldl_cons, ih hmembers, lookup_cons, get?_set]
      by_cases hkey : member.1 = key
      · subst hkey
        rw [lookup_eq_none_iff.mpr hmember, if_pos rfl, if_pos rfl]
        rfl
      · rw [if_neg hkey, if_neg (Ne.symm hkey)]

end Dictionary
