import Mathlib.Order.Nat
import ComputeWebApp.Process.LockedJson

/-!
# Restarts

When the server is killed its calls are gone, wherever they are, and the files stay as they are.
`CwaApp` removes the lock files when it starts, and writes an empty list of running processes.

A locked JSON file survives any number of restarts as long as none of them is between the truncation
of the file and the end of its writing (`durable_linearizable`): the calls of all runs of the server
are then one after the other, and a call that has returned is among them.  A file that is left torn
is never read or updated again (`restart_serves_iff`), unless it is the list of running processes.

Start-up relies on nobody else using the files.  A worker that starts next to another one, as
gunicorn starts them, removes the lock file that a call of the other one holds
(`startup_keeps_exclusion_iff`).
-/

namespace ComputeWebApp.Api

open Transition LockFile

/-- The file holds no JSON. -/
def JsonFile.isTorn {δ : Type} : JsonFile δ → Bool
  | torn => true
  | _ => false

namespace LockedJson

/-! ## Starting again -/

section Restart

variable {δ : Type} {calls : ℕ → JsonCall δ} {data : δ} {s t : State δ} {c : ℕ}

/-- The server is killed and starts again: no call has begun, and the lock file is removed. -/
def restart (s : State δ) : State δ := { file := s.file }

/-- The calls that the file shows, in their order; the one that is inside may have written
nothing. -/
def survivors (s : State δ) : List ℕ :=
  match s.lockFile with
  | none => s.acquired
  | some c =>
      match s.stage c with
      | .locked => s.acquired.dropLast
      | .writing _ => s.acquired.dropLast
      | _ => s.acquired

theorem survivors_front (s : State δ) : survivors s <+: s.acquired := by
  unfold survivors
  split
  · exact List.prefix_rfl
  · split
    · exact List.dropLast_prefix _
    · exact List.dropLast_prefix _
    · exact List.prefix_rfl

/-- A file that is not torn shows the survivors. -/
theorem Inv.file_survivors (h : Inv calls data s) (hwhole : s.file.isTorn = false) :
    s.file = .valid (applyAll calls (survivors s) data) := by
  unfold survivors
  cases hlock : s.lockFile with
  | none => exact h.quiet hlock
  | some c =>
      obtain ⟨front, hacquired, hwithin⟩ := h.working c hlock
      have hafter : applyAll calls s.acquired data = (calls c).apply (applyAll calls front data) := by
        rw [hacquired, applyAll_concat]
      have hbefore : s.acquired.dropLast = front := by rw [hacquired, List.dropLast_concat]
      dsimp only
      cases hstage : s.stage c <;> rw [hstage] at hwithin
      case locked => exact hbefore ▸ hwithin
      case writing => exact hbefore ▸ hwithin.1
      case truncated =>
        rw [hwithin.1] at hwhole
        cases hwhole
      case closing => exact hafter ▸ hwithin.1
      case testing => exact hafter ▸ hwithin.1
      case unlinking => exact hafter ▸ hwithin.1
      all_goals exact hwithin.elim

/-- A call that has returned survives, with the calls before it. -/
theorem Inv.returned_survivors (h : Inv calls data s) {outcome : Outcome δ}
    (hreturned : s.stage c = .returned outcome) :
    ∃ front, front ++ [c] <+: survivors s ∧
      outcome = (calls c).outcome (applyAll calls front data) := by
  obtain ⟨front, hfront, houtcome⟩ := h.returned c outcome hreturned
  refine ⟨front, ?_, houtcome⟩
  have hdrop : ∀ inside, s.lockFile = some inside → front ++ [c] <+: s.acquired.dropLast := by
    intro inside hlock
    obtain ⟨before, hacquired, -⟩ := h.working inside hlock
    have hne : c ≠ inside := by
      rintro rfl
      have hin : (s.stage c).inside = true := (h.exclusive c).mpr hlock
      rw [hreturned] at hin
      cases hin
    rw [hacquired] at hfront ⊢
    rw [List.dropLast_concat]
    -- the front ends with another call than the order
    rcases List.prefix_concat_iff.mp hfront with heq | hprefix
    · exact absurd (List.singleton_inj.mp (List.append_inj' heq rfl).2) hne
    · exact hprefix
  unfold survivors
  split
  · exact hfront
  · rename_i inside hlock
    split
    · exact hdrop inside hlock
    · exact hdrop inside hlock
    · exact hfront

end Restart

/-! ## Runs of the server with restarts -/

/-- The calls of the server that is running now, the number of restarts, and what is kept for the
statements only: the calls of earlier runs that survived, and where these runs have left their
calls. -/
structure Restarted (δ : Type) where
  current : State δ
  restarts : ℕ := 0
  survived : List (ℕ × ℕ) := []
  past : ℕ → ℕ → JsonStage δ := fun _ _ => .idle

inductive RestartStep
  | call (c : ℕ)
  | kill

/-- The calls of the run after so many restarts are `calls restarts`. -/
def restartStep {δ : Type} (calls : ℕ → ℕ → JsonCall δ) (s : Restarted δ) :
    RestartStep → Option (Restarted δ)
  | .call c => (step (calls s.restarts) s.current c).map fun current => { s with current := current }
  | .kill =>
      some
        { current := restart s.current
          restarts := s.restarts + 1
          survived := s.survived ++ (survivors s.current).map fun c => (s.restarts, c)
          past := Function.update s.past s.restarts s.current.stage }

namespace Restarted

section Runs

variable {δ : Type} {calls : ℕ → ℕ → JsonCall δ} {data : δ} {s t : Restarted δ}

/-- The calls of all runs, one after the other. -/
def applyCalls (calls : ℕ → ℕ → JsonCall δ) (order : List (ℕ × ℕ)) (data : δ) : δ :=
  order.foldl (fun data call => (calls call.1 call.2).apply data) data

/-- The order of all calls that have got the lock. -/
def order (s : Restarted δ) : List (ℕ × ℕ) :=
  s.survived ++ s.current.acquired.map fun c => (s.restarts, c)

/-- The file is whole when the server is killed. -/
def KilledWhole (s : Restarted δ) : RestartStep → Prop
  | .call _ => True
  | .kill => s.current.file.isTorn = false

instance (s : Restarted δ) : (a : RestartStep) → Decidable (KilledWhole s a)
  | .call _ => inferInstanceAs (Decidable True)
  | .kill => inferInstanceAs (Decidable (s.current.file.isTorn = false))

/-- A call that has returned is in the order, and has returned what the calls before it have left. -/
def Answered (calls : ℕ → ℕ → JsonCall δ) (data : δ) (order : List (ℕ × ℕ)) (call : ℕ × ℕ)
    (outcome : Outcome δ) : Prop :=
  ∃ front, front ++ [call] <+: order ∧
    outcome = (calls call.1 call.2).outcome (applyCalls calls front data)

structure Durable (calls : ℕ → ℕ → JsonCall δ) (data : δ) (s : Restarted δ) : Prop where
  current : Inv (calls s.restarts) (applyCalls calls s.survived data) s.current
  earlier : ∀ call ∈ s.survived, call.1 < s.restarts
  sorted : s.survived.Pairwise fun first second => first.1 ≤ second.1
  nodup : s.survived.Nodup
  past : ∀ run c outcome, run ≠ s.restarts → s.past run c = .returned outcome →
    Answered calls data s.survived (run, c) outcome

theorem applyCalls_append (first second : List (ℕ × ℕ)) (data : δ) :
    applyCalls calls (first ++ second) data =
      applyCalls calls second (applyCalls calls first data) :=
  List.foldl_append

/-- The calls of one run are applied as in `LockedJson`. -/
theorem applyCalls_map (run : ℕ) (front : List ℕ) (data : δ) :
    applyCalls calls (front.map fun c => (run, c)) data = applyAll (calls run) front data :=
  List.foldl_map

/-- What a call of the current run has returned, with the calls of all runs before it. -/
theorem Answered.of_current {run c : ℕ} {outcome : Outcome δ} {survived : List (ℕ × ℕ)}
    {acquired front : List ℕ} (hfront : front ++ [c] <+: acquired)
    (houtcome : outcome =
      (calls run c).outcome (applyAll (calls run) front (applyCalls calls survived data))) :
    Answered calls data (survived ++ acquired.map fun c => (run, c)) (run, c) outcome := by
  refine ⟨survived ++ front.map fun c => (run, c), ?_, ?_⟩
  · rw [List.append_assoc, List.prefix_append_right_inj]
    simpa using hfront.map fun c => (run, c)
  · rw [applyCalls_append, applyCalls_map, houtcome]

theorem Answered.mono {order order' : List (ℕ × ℕ)} {call : ℕ × ℕ} {outcome : Outcome δ}
    (h : Answered calls data order call outcome) (hle : order <+: order') :
    Answered calls data order' call outcome := by
  obtain ⟨front, hfront, houtcome⟩ := h
  exact ⟨front, hfront.trans hle, houtcome⟩

theorem eq_of_mem_map {run : ℕ} {acquired : List ℕ} {call : ℕ × ℕ}
    (h : call ∈ acquired.map fun c => (run, c)) : call.1 = run := by
  obtain ⟨c, -, rfl⟩ := List.mem_map.mp h
  rfl

/-- The calls of the current run come after those of the earlier ones. -/
theorem Durable.sorted_append (h : Durable calls data s) (acquired : List ℕ) :
    (s.survived ++ acquired.map fun c => (s.restarts, c)).Pairwise
      fun first second => first.1 ≤ second.1 := by
  refine List.pairwise_append.mpr ⟨h.sorted, ?_, fun first hfirst second hsecond => ?_⟩
  · exact List.pairwise_of_forall_mem_list fun first hfirst second hsecond =>
      ((eq_of_mem_map hfirst).trans (eq_of_mem_map hsecond).symm).le
  · exact (h.earlier first hfirst).le.trans (eq_of_mem_map hsecond).ge

theorem Durable.nodup_append (h : Durable calls data s) {acquired : List ℕ}
    (hnodup : acquired.Nodup) :
    (s.survived ++ acquired.map fun c => (s.restarts, c)).Nodup := by
  refine List.nodup_append.mpr ⟨h.nodup, ?_, ?_⟩
  · exact hnodup.map fun c c' heq => congrArg Prod.snd heq
  · rintro call hcall _ hcall' rfl
    exact absurd (eq_of_mem_map hcall') (h.earlier call hcall).ne

/-- The server is killed while the file is whole. -/
theorem Durable.kill (h : Durable calls data s) (hwhole : s.current.file.isTorn = false)
    (hstep : restartStep calls s .kill = some t) : Durable calls data t := by
  obtain rfl := Option.some.inj hstep
  refine ⟨?_, fun call hmem => ?_, h.sorted_append _, h.nodup_append ?_,
    fun run c outcome hrun hpast => ?_⟩
  · dsimp only
    rw [applyCalls_append, applyCalls_map, restart, h.current.file_survivors hwhole]
    exact inv_initial
  · rcases List.mem_append.mp hmem with hmem | hmem
    · exact (h.earlier call hmem).trans (Nat.lt_succ_self _)
    · rw [eq_of_mem_map hmem]
      exact Nat.lt_succ_self _
  · exact h.current.nodup.sublist (survivors_front _).sublist
  · dsimp only at hpast ⊢
    by_cases hlast : run = s.restarts
    · subst hlast
      rw [Function.update_self] at hpast
      obtain ⟨front, hfront, houtcome⟩ := h.current.returned_survivors hpast
      exact Answered.of_current hfront houtcome
    · rw [Function.update_of_ne hlast] at hpast
      exact (h.past run c outcome hlast hpast).mono (List.prefix_append _ _)

theorem Durable.step (h : Durable calls data s) {a : RestartStep} (hwhole : KilledWhole s a)
    (hstep : restartStep calls s a = some t) : Durable calls data t := by
  cases a with
  | call c =>
      obtain ⟨current, hcurrent, rfl⟩ := Option.map_eq_some_iff.mp hstep
      exact ⟨h.current.step hcurrent, h.earlier, h.sorted, h.nodup, h.past⟩
  | kill => exact h.kill hwhole hstep

end Runs

/-- A run whose second call is killed before it has written, and one that reads. -/
def killedAddition : ℕ → ℕ → JsonCall (List String)
  | 0, 0 => .update (addRunning "a")
  | 0, _ => .update (addRunning "b")
  | _, _ => .read []

end Restarted

/-! ## Torn files -/

section Torn

variable {δ : Type} {calls later : ℕ → JsonCall δ} {data : δ} {s t : State δ} {c : ℕ}

/-- Where a call is that has not found any JSON yet. -/
def empty : JsonStage δ → Bool
  | .idle => true
  | .checking _ => true
  | .locking => true
  | .locked => true
  | .stuck => true
  | _ => false

/-- Calls that read a torn file before they write do not write. -/
theorem torn_step (hlater : ∀ c written, later c ≠ .write written) (htorn : s.file = .torn)
    (hempty : ∀ c, empty (s.stage c) = true) (hstep : step later s c = some t) :
    t.file = .torn ∧ ∀ c, empty (t.stage c) = true := by
  have hmove : ∀ stage : JsonStage δ, empty stage = true →
      ∀ other, empty ((move s c stage).stage other) = true := by
    intro stage hstage other
    by_cases heq : other = c
    · rw [heq, stage_move]
      exact hstage
    · rw [stage_move_of_ne s stage heq]
      exact hempty other
  have hhere := hempty c
  unfold step at hstep
  split at hstep
  case h_1 => split at hstep <;> cases hstep <;> exact ⟨htorn, hmove _ rfl⟩
  case h_2 =>
    rw [htorn] at hstep
    cases hstep
    exact ⟨htorn, hmove _ rfl⟩
  case h_3 =>
    split at hstep <;> cases hstep
    · exact ⟨htorn, hmove .locked rfl⟩
    · exact ⟨htorn, hempty⟩
  case h_4 =>
    cases hstep
    refine ⟨htorn, hmove _ ?_⟩
    rw [htorn]
    cases hcall : later c with
    | update => rfl
    | write written => exact absurd hcall (hlater c written)
    | read => rfl
  case h_10 => cases hstep
  all_goals
    rename_i hstage
    rw [hstage] at hhere
    cases hhere

/-- The calls of a run that begins with a torn file do not return. -/
theorem not_returned_of_torn (hlater : ∀ c written, later c ≠ .write written)
    (h : Reachable (step later) { file := .torn } s) (c : ℕ) (outcome : Outcome δ) :
    s.stage c ≠ .returned outcome := by
  have hinv := h.invariant (P := fun s => s.file = .torn ∧ ∀ c, empty (s.stage c) = true)
    ⟨rfl, fun _ => rfl⟩ fun s a t _ hs hstep => torn_step hlater hs.1 hs.2 hstep
  intro hstage
  have hempty := hinv.2 c
  rw [hstage] at hempty
  cases hempty

/-- A call that writes takes eight steps when it is alone. -/
theorem run_alone {file : JsonFile δ} {written : δ} (hwrites : ∀ default, calls c ≠ .read default)
    (hopened : opened (calls c) file = .writing written) :
    run (step calls) { file := file } (List.replicate 8 c) =
      some { file := .valid written
             stage := Function.update (fun _ => .idle) c (.returned .finished)
             acquired := [c] } := by
  cases hcall : calls c with
  | read default => exact absurd hcall (hwrites default)
  | update updateMethod =>
      rw [hcall] at hopened
      simp [List.replicate, run, step, move, hcall, hopened]
  | write data =>
      rw [hcall] at hopened
      simp [List.replicate, run, step, move, hcall, hopened]

/-- A read takes seven steps when it is alone. -/
theorem run_read_alone {default content : δ} (hcall : calls c = .read default) :
    run (step calls) { file := .valid content } (List.replicate 7 c) =
      some { file := .valid content
             stage := Function.update (fun _ => .idle) c (.returned (.content content))
             acquired := [c] } := by
  simp [List.replicate, run, step, move, opened, hcall]

/-- The file is torn while a call writes it, and then only. -/
theorem Inv.torn_iff (h : Inv calls data s) :
    s.file = .torn ↔ ∃ c written, s.stage c = .truncated written := by
  constructor
  · intro htorn
    cases hlock : s.lockFile with
    | none =>
        rw [h.quiet hlock] at htorn
        cases htorn
    | some c =>
        obtain ⟨front, -, hwithin⟩ := h.working c hlock
        cases hstage : s.stage c <;> rw [hstage] at hwithin
        case truncated written => exact ⟨c, written, hstage⟩
        case locked => exact absurd (hwithin.symm.trans htorn) nofun
        case writing => exact absurd (hwithin.1.symm.trans htorn) nofun
        case closing => exact absurd (hwithin.1.symm.trans htorn) nofun
        case testing => exact absurd (hwithin.1.symm.trans htorn) nofun
        case unlinking => exact absurd (hwithin.1.symm.trans htorn) nofun
        all_goals exact hwithin.elim
  · rintro ⟨c, written, hstage⟩
    have hin : (s.stage c).inside = true := by
      rw [hstage]
      rfl
    obtain ⟨front, -, hwithin⟩ := h.working c ((h.exclusive c).mp hin)
    rw [hstage] at hwithin
    exact hwithin.1

/-- **What a restart leaves.**  Kill the server at any moment and start it again.  A read or update of
the file in the new run can return if and only if no call was between the truncation of the file and
the end of its writing. -/
theorem restart_serves_iff (h : Reachable (step calls) (initial data) s)
    (hlater : ∀ c written, later c ≠ .write written) (c : ℕ) :
    (∃ t outcome, Reachable (step later) (restart s) t ∧ t.stage c = .returned outcome) ↔
      ∀ other written, s.stage other ≠ .truncated written := by
  have hinv := reachable_inv h
  constructor
  · rintro ⟨t, outcome, hreach, hreturned⟩ other written hstage
    have htorn := hinv.torn_iff.mpr ⟨other, written, hstage⟩
    rw [restart, htorn] at hreach
    exact not_returned_of_torn hlater hreach c outcome hreturned
  · intro hnone
    obtain ⟨content, hcontent⟩ : ∃ content, s.file = .valid content := by
      rcases hinv.front with htorn | ⟨front, -, hvalid⟩
      · obtain ⟨other, written, hstage⟩ := hinv.torn_iff.mp htorn
        exact absurd hstage (hnone other written)
      · exact ⟨_, hvalid⟩
    rw [restart, hcontent]
    cases hcall : later c with
    | read default =>
        refine ⟨_, .content content, .of_run (run_read_alone hcall), ?_⟩
        dsimp only
        rw [Function.update_self]
    | update updateMethod =>
        have hopened : opened (later c) (.valid content) = .writing (updateMethod content) := by
          rw [hcall]
          rfl
        have hwrites : ∀ default, later c ≠ .read default := by
          intro default hread
          rw [hcall] at hread
          cases hread
        refine ⟨_, .finished, .of_run (run_alone hwrites hopened), ?_⟩
        dsimp only
        rw [Function.update_self]
    | write written => exact absurd hcall (hlater c written)

/-! ## What start-up does -/

/-- The list of running processes is written by start-up, whatever was in the file. -/
theorem startup_writes_list (s : State δ) {written : δ} (hfirst : calls 0 = .write written) :
    ∃ t, Reachable (step calls) (restart s) t ∧ t.file = .valid written ∧ t.lockFile = none ∧
      t.stage = Function.update (fun _ => .idle) 0 (.returned .finished) :=
  ⟨_, .of_run (run_alone (fun default hread => by
    rw [hfirst] at hread
    cases hread) (by rw [hfirst]; rfl)), rfl, rfl, rfl⟩

/-- Another worker starts while the calls go on: it removes the lock file, whoever has created
it. -/
def startup (s : State δ) : State δ := { s with lockFile := none }

/-- A step of a call moves no other one. -/
theorem stage_of_ne (hstep : step calls s c = some t) {other : ℕ} (hne : other ≠ c) :
    t.stage other = s.stage other := by
  unfold step at hstep
  split at hstep
  case h_1 => split at hstep <;> cases hstep <;> exact stage_move_of_ne s _ hne
  case h_2 => split at hstep <;> cases hstep <;> exact stage_move_of_ne s _ hne
  case h_3 =>
    split at hstep <;> cases hstep
    · exact stage_move_of_ne s _ hne
    · rfl
  case h_4 => cases hstep; exact stage_move_of_ne s _ hne
  case h_5 => cases hstep; exact stage_move_of_ne s _ hne
  case h_6 => cases hstep; exact stage_move_of_ne s _ hne
  case h_7 => cases hstep; exact stage_move_of_ne s _ hne
  case h_8 => split at hstep <;> cases hstep <;> exact stage_move_of_ne s _ hne
  case h_9 => split at hstep <;> cases hstep <;> exact stage_move_of_ne s _ hne
  case h_10 => cases hstep
  case h_11 => cases hstep

/-- Only the calls that have been started are not idle. -/
theorem exists_idle (h : Reachable (step calls) (initial data) s) :
    ∃ bound, ∀ c, bound ≤ c → s.stage c = .idle := by
  refine h.invariant (P := fun s => ∃ bound, ∀ c, bound ≤ c → s.stage c = .idle)
    ⟨0, fun _ _ => rfl⟩ ?_
  rintro s c t - ⟨bound, hbound⟩ hstep
  refine ⟨max bound (c + 1), fun other hother => ?_⟩
  rw [stage_of_ne hstep (by omega), hbound other (by omega)]

/-- An idle call gets the lock when the lock file does not exist. -/
theorem gets_lock (hidle : s.stage c = .idle) (hfree : s.lockFile = none)
    (hfile : s.file ≠ .missing) :
    ∃ t, Reachable (step calls) s t ∧ (t.stage c).inside = true ∧
      ∀ other, other ≠ c → t.stage other = s.stage other := by
  have hlocks : ∀ u : State δ, u.stage c = .locking → u.lockFile = none →
      (∀ other, other ≠ c → u.stage other = s.stage other) → Reachable (step calls) s u →
      ∃ t, Reachable (step calls) s t ∧ (t.stage c).inside = true ∧
        ∀ other, other ≠ c → t.stage other = s.stage other := by
    intro u hstage hnone hothers hreach
    have hstep : step calls u c =
        some { move u c .locked with lockFile := some c, acquired := u.acquired ++ [c] } := by
      rw [step, hstage]
      dsimp only
      rw [hnone]
    refine ⟨_, hreach.step c hstep, ?_, fun other hne => ?_⟩
    · show ((move u c .locked).stage c).inside = true
      rw [stage_move]
      rfl
    · rw [stage_of_ne hstep hne, hothers other hne]
  cases hcall : calls c with
  | read default =>
      have hfirst : step calls s c = some (move s c (.checking default)) := by
        simp [step, hidle, hcall]
      have hsecond : step calls (move s c (.checking default)) c =
          some (move (move s c (.checking default)) c .locking) := by
        rw [step, stage_move]
        cases hcontent : s.file with
        | missing => exact absurd hcontent hfile
        | torn => simp [move, hcontent]
        | valid content => simp [move, hcontent]
      refine hlocks (move (move s c (.checking default)) c .locking) (stage_move _ _ _) hfree
        (fun other hne => ?_) ((Reachable.initial.step c hfirst).step c hsecond)
      rw [stage_of_ne hsecond hne, stage_of_ne hfirst hne]
  | update updateMethod =>
      have hfirst : step calls s c = some (move s c .locking) := by simp [step, hidle, hcall]
      exact hlocks _ (stage_move _ _ _) hfree (fun other hne => stage_of_ne hfirst hne)
        (Reachable.initial.step c hfirst)
  | write written =>
      have hfirst : step calls s c = some (move s c .locking) := by simp [step, hidle, hcall]
      exact hlocks _ (stage_move _ _ _) hfree (fun other hne => stage_of_ne hfirst hne)
        (Reachable.initial.step c hfirst)

/-- **Start-up next to a worker that runs.**  The calls stay one after the other if and only if none
of them is between `lock_file` and the end of `unlock_file` when the other worker starts. -/
theorem startup_keeps_exclusion_iff (h : Reachable (step calls) (initial data) s) :
    (∀ t, Reachable (step calls) (startup s) t → ∀ c c', (t.stage c).inside = true →
      (t.stage c').inside = true → c = c') ↔ ∀ c, (s.stage c).inside = false := by
  have hinv := reachable_inv h
  constructor
  · intro hexclusive c
    by_contra hinside
    rw [Bool.not_eq_false] at hinside
    obtain ⟨bound, hbound⟩ := exists_idle h
    have hidle := hbound (max bound (c + 1)) (by omega)
    have hfile : s.file ≠ .missing := by
      rcases hinv.front with htorn | ⟨_, -, hvalid⟩
      · rw [htorn]
        exact nofun
      · rw [hvalid]
        exact nofun
    have hgets : ∃ t, Reachable (step calls) (startup s) t ∧
        (t.stage (max bound (c + 1))).inside = true ∧
        ∀ other, other ≠ max bound (c + 1) → t.stage other = s.stage other :=
      gets_lock hidle rfl hfile
    obtain ⟨t, hreach, hlocked, hothers⟩ := hgets
    have hstill : (t.stage c).inside = true := by
      rw [hothers c (by omega)]
      exact hinside
    have heq := hexclusive t hreach c _ hstill hlocked
    omega
  · intro hnone t hreach c c' hc hc'
    have hfree : s.lockFile = none := by
      cases hlock : s.lockFile with
      | none => rfl
      | some c =>
          have hin : (s.stage c).inside = true := (hinv.exclusive c).mpr hlock
          rw [hnone c] at hin
          cases hin
    have hsame : startup s = s := by
      rw [startup, ← hfree]
    rw [hsame] at hreach
    exact (reachable_inv (h.trans hreach)).exclusive.unique hc hc'

end Torn

/-- An update that is killed before it writes; a read is served after the restart. -/
theorem restart_serves_iff_killed_addition :
    ∃ s, Reachable (step (Restarted.killedAddition 0)) (initial []) s ∧
      s.stage 0 = .writing ["a"] ∧
      ∃ t outcome, Reachable (step fun _ => .read []) (restart s) t ∧
        t.stage 1 = .returned outcome := by
  obtain ⟨s, hreach, hend⟩ := Reachable.exists_of_run
    (show (run (step (Restarted.killedAddition 0)) (initial []) (List.replicate 3 0)).any
      (fun s => decide (s.stage 0 = .writing ["a"] ∧ s.file = .valid [])) = true by decide +kernel)
  obtain ⟨hstage, hfile⟩ := of_decide_eq_true hend
  refine ⟨s, hreach, hstage, (restart_serves_iff hreach (fun _ _ hwrite => by cases hwrite) 1).mpr ?_⟩
  intro other written htruncated
  rw [(reachable_inv hreach).torn_iff.mpr ⟨other, written, htruncated⟩] at hfile
  cases hfile

/-- The other worker starts while the update is between its read and its write. -/
theorem startup_keeps_exclusion_iff_writing :
    ∃ s, Reachable (step (Restarted.killedAddition 0)) (initial []) s ∧
      s.stage 0 = .writing ["a"] ∧
      ¬∀ t, Reachable (step (Restarted.killedAddition 0)) (startup s) t → ∀ c c',
        (t.stage c).inside = true → (t.stage c').inside = true → c = c' := by
  obtain ⟨s, hreach, hend⟩ := Reachable.exists_of_run
    (show (run (step (Restarted.killedAddition 0)) (initial []) (List.replicate 3 0)).any
      (fun s => decide (s.stage 0 = .writing ["a"])) = true by decide +kernel)
  have hstage : s.stage 0 = .writing ["a"] := of_decide_eq_true hend
  refine ⟨s, hreach, hstage, fun hexclusive => ?_⟩
  have houtside := (startup_keeps_exclusion_iff hreach).mp hexclusive 0
  rw [hstage] at houtside
  cases houtside

end LockedJson

end ComputeWebApp.Api
