import Mathlib.Data.Set.Basic

/-!
# Kept answers

A server that keeps answers under keys.  It answers a request with an answer that it has kept under
the key of the request, or with the answer of its own, and afterwards it keeps nothing but what it
kept before and this answer.  What it drops is left open.

All answers are right when requests with one key have one answer (`Run.eq_map`).
-/

namespace Memo

variable {ρ κ β : Type*} {key : ρ → κ} {answer : ρ → Option β} {allowed : Set ρ}
  {kept kept' : κ → β → Prop} {request : ρ} {requests : List ρ} {result : Option β}
  {results : List (Option β)}

/-- Every answer is kept under the key of a request that it answers. -/
def Valid (key : ρ → κ) (answer : ρ → Option β) (allowed : Set ρ) (kept : κ → β → Prop) : Prop :=
  ∀ k value, kept k value → ∃ request ∈ allowed, key request = k ∧ answer request = some value

/-- Requests with one key have one answer. -/
def Determined (key : ρ → κ) (answer : ρ → Option β) (allowed : Set ρ) : Prop :=
  ∀ first ∈ allowed, ∀ second ∈ allowed, key first = key second → answer first = answer second

/-- One request is answered with `result`. -/
structure Step (key : ρ → κ) (answer : ρ → Option β) (kept kept' : κ → β → Prop) (request : ρ)
    (result : Option β) : Prop where
  result : result = answer request ∨ ∃ value, kept (key request) value ∧ result = some value
  kept : ∀ k value, kept' k value → kept k value ∨ key request = k ∧ answer request = some value

/-- Requests are answered one after the other. -/
inductive Run (key : ρ → κ) (answer : ρ → Option β) :
    (κ → β → Prop) → List ρ → List (Option β) → Prop
  | nil {kept : κ → β → Prop} : Run key answer kept [] []
  | cons {kept kept' : κ → β → Prop} {request : ρ} {requests : List ρ} {result : Option β}
      {results : List (Option β)} :
      Step key answer kept kept' request result → Run key answer kept' requests results →
      Run key answer kept (request :: requests) (result :: results)

theorem Valid.empty (h : ∀ k value, ¬kept k value) : Valid key answer allowed kept :=
  fun k value hkept => absurd hkept (h k value)

theorem Step.valid (h : Step key answer kept kept' request result) (hrequest : request ∈ allowed)
    (hvalid : Valid key answer allowed kept) : Valid key answer allowed kept' := by
  intro k value hkept
  rcases h.kept k value hkept with hold | hnew
  · exact hvalid k value hold
  · exact ⟨request, hrequest, hnew⟩

/-- A kept answer is the one of an earlier request with the same key. -/
theorem Step.eq_answer (h : Step key answer kept kept' request result)
    (hdetermined : Determined key answer allowed) (hrequest : request ∈ allowed)
    (hvalid : Valid key answer allowed kept) : result = answer request := by
  rcases h.result with hown | ⟨value, hkept, hresult⟩
  · exact hown
  · obtain ⟨earlier, hearlier, hkey, hanswer⟩ := hvalid _ value hkept
    calc
      result = some value := hresult
      _ = answer earlier := hanswer.symm
      _ = answer request := hdetermined earlier hearlier request hrequest hkey

theorem Run.eq_map (h : Run key answer kept requests results)
    (hdetermined : Determined key answer allowed)
    (hrequests : ∀ request ∈ requests, request ∈ allowed)
    (hvalid : Valid key answer allowed kept) : results = requests.map answer := by
  induction h with
  | nil => rfl
  | cons hstep _ ih =>
      obtain ⟨hrequest, hrest⟩ := List.forall_mem_cons.mp hrequests
      rw [List.map_cons, hstep.eq_answer hdetermined hrequest hvalid,
        ih hrest (hstep.valid hrequest hvalid)]

end Memo
