import ComputeWebApp.Library.OrderedMap
import ComputeWebApp.Library.Transition

/-!
# Registration on a socket server

`DatasetSocketServer`: its io thread runs one accept handler after the other.  A handler hands
out `next_client_id`, tests `stop_registering_`, inserts the client into `client_sockets_`,
tests and calls `on_client_registered_` and counts, each of them one step in which the owner of
the server may act in between.  Connections are named by numbers, and `client_sockets_` maps a
client id to its connection.

`next_client_id` is a static `uint32_t` of the process, shared by its servers.  It wraps around,
and an id can be handed out again: an insertion then replaces the connection of the former
client (`Overwrites`).
-/

namespace ComputeWebApp.Data

open OrderedMap

/-- `next_client_id++`. -/
def countRegistration (nextClientId : ℕ) : ℕ := (nextClientId + 1) % 2 ^ 32

/-- Where the accept handler is; `c` is the connection and `id` its client id. -/
inductive HandlerStage
  | accepting
  | testing (c id : ℕ)
  | inserting (c id : ℕ)
  | calling (c id : ℕ)
  | counting (c : ℕ)
  deriving DecidableEq, Repr

/-- The connection of the handler. -/
def HandlerStage.client : HandlerStage → Option ℕ
  | accepting => none
  | testing c _ => some c
  | inserting c _ => some c
  | calling c _ => some c
  | counting c => some c

/-- The connection of a handler that has not tested the callback. -/
def HandlerStage.unanswered : HandlerStage → Option ℕ
  | testing c _ => some c
  | inserting c _ => some c
  | calling c _ => some c
  | _ => none

/-- The id that a handler has handed out, until it has called the callback. -/
def HandlerStage.offered : HandlerStage → Option ℕ
  | testing _ id => some id
  | inserting _ id => some id
  | calling _ id => some id
  | _ => none

/-- The id that is inserted next. -/
def HandlerStage.insertingId : HandlerStage → Option ℕ
  | inserting _ id => some id
  | _ => none

/-- `callback` says that `on_client_registered_` is set, `clientIds` are the ids that were sent to
the accepted connections, and `inserted` are the connections that were inserted into
`client_sockets_`. -/
structure SocketServer where
  clientSockets : Std.TreeMap ℕ ℕ := ∅
  stopRegistering : Bool := false
  callback : Bool := false
  handler : HandlerStage := .accepting
  accepted : List ℕ := []
  clientIds : ℕ → ℕ := fun _ => 0
  inserted : List ℕ := []

/-- What a step of the handler does outside the server. -/
inductive HandlerEffect
  | silent
  | called (c id : ℕ)
  | counted
  deriving DecidableEq, Repr

namespace SocketServer

/-- A new connection `c`, up to its push/pull socket. -/
def accept (server : SocketServer) (nextClientId c : ℕ) : Option SocketServer :=
  if server.handler = .accepting ∧ c ∉ server.accepted then
    some { server with
      handler := .testing c nextClientId
      accepted := c :: server.accepted
      clientIds := Function.update server.clientIds c nextClientId }
  else none

def insertClient (server : SocketServer) (c id : ℕ) : SocketServer :=
  { server with
    clientSockets := server.clientSockets.insert id c
    inserted := c :: server.inserted }

/-- The next step of the handler. -/
def handle (server : SocketServer) : Option (SocketServer × HandlerEffect) :=
  match server.handler with
  | .accepting => none
  | .testing c id =>
      some ({ server with
        handler := if server.stopRegistering = true then .calling c id else .inserting c id },
        .silent)
  | .inserting c id => some ({ server.insertClient c id with handler := .calling c id }, .silent)
  | .calling c id =>
      some ({ server with handler := .counting c },
        if server.callback = true then .called c id else .silent)
  | .counting _ => some ({ server with handler := .accepting }, .counted)

def stopRegistration (server : SocketServer) : SocketServer :=
  { server with stopRegistering := true }

def setRegistrationCallback (server : SocketServer) : SocketServer :=
  { server with callback := true }

def eraseClient (server : SocketServer) (id : ℕ) : SocketServer :=
  { server with clientSockets := server.clientSockets.erase id }

/-- The connection is in the map. -/
def Holds (server : SocketServer) (c : ℕ) : Prop :=
  ∃ id : ℕ, server.clientSockets[id]? = some c

/-- The handler of the connection has completed. -/
def Registered (server : SocketServer) (c : ℕ) : Prop :=
  c ∈ server.accepted ∧ server.handler.client ≠ some c

instance (server : SocketServer) (c : ℕ) : Decidable (server.Registered c) :=
  inferInstanceAs (Decidable (_ ∧ _))

/-- The next insertion replaces a client that is in the map. -/
def Overwrites (server : SocketServer) : Prop :=
  ∃ id ∈ server.handler.insertingId, id ∈ server.clientSockets

instance (server : SocketServer) : Decidable server.Overwrites :=
  inferInstanceAs (Decidable (∃ id ∈ server.handler.insertingId, id ∈ server.clientSockets))

theorem getElem?_insertClient (server : SocketServer) (c id key : ℕ) :
    (server.insertClient c id).clientSockets[key]? =
      if id = key then some c else server.clientSockets[key]? := by
  simp [insertClient, Std.TreeMap.getElem?_insert]

theorem getElem?_eraseClient (server : SocketServer) (id key : ℕ) :
    (server.eraseClient id).clientSockets[key]? =
      if id = key then none else server.clientSockets[key]? := by
  simp [eraseClient, Std.TreeMap.getElem?_erase]

theorem holds_insertClient (server : SocketServer) (c id : ℕ) :
    (server.insertClient c id).Holds c :=
  ⟨id, by rw [getElem?_insertClient, if_pos rfl]⟩

/-- An insertion under a new id keeps the other clients. -/
theorem Holds.insertClient {server : SocketServer} {other : ℕ} (h : server.Holds other) (c : ℕ)
    {id : ℕ} (hnew : id ∉ server.clientSockets) : (server.insertClient c id).Holds other := by
  obtain ⟨key, hkey⟩ := h
  refine ⟨key, ?_⟩
  rw [getElem?_insertClient, if_neg, hkey]
  rintro rfl
  exact hnew (mem_of_getElem? hkey)

theorem accept_eq_some {server server' : SocketServer} {nextClientId c : ℕ}
    (h : server.accept nextClientId c = some server') :
    server.handler = .accepting ∧ c ∉ server.accepted ∧
      server' = { server with
        handler := .testing c nextClientId
        accepted := c :: server.accepted
        clientIds := Function.update server.clientIds c nextClientId } := by
  unfold accept at h
  split at h
  · rename_i haccept
    cases h
    exact ⟨haccept.1, haccept.2, rfl⟩
  · cases h

/-- The steps of the handler. -/
theorem handle_cases {server server' : SocketServer} {effect : HandlerEffect}
    (h : server.handle = some (server', effect)) :
    (∃ c id, server.handler = .testing c id ∧ effect = .silent ∧
      server' = { server with
        handler := if server.stopRegistering = true then .calling c id else .inserting c id }) ∨
    (∃ c id, server.handler = .inserting c id ∧ effect = .silent ∧
      server' = { server.insertClient c id with handler := .calling c id }) ∨
    (∃ c id, server.handler = .calling c id ∧
      effect = (if server.callback = true then .called c id else .silent) ∧
      server' = { server with handler := .counting c }) ∨
    (∃ c, server.handler = .counting c ∧ effect = .counted ∧
      server' = { server with handler := .accepting }) := by
  unfold handle at h
  split at h
  · cases h
  · rename_i c id hhandler
    cases h
    exact .inl ⟨c, id, hhandler, rfl, rfl⟩
  · rename_i c id hhandler
    cases h
    exact .inr (.inl ⟨c, id, hhandler, rfl, rfl⟩)
  · rename_i c id hhandler
    cases h
    exact .inr (.inr (.inl ⟨c, id, hhandler, rfl, rfl⟩))
  · rename_i c hhandler
    cases h
    exact .inr (.inr (.inr ⟨c, hhandler, rfl, rfl⟩))

end SocketServer

/-- `next_client_id` after registrations elsewhere in the process. -/
theorem run_countRegistration {σ α : Type*} {step : ℕ × σ → α → Option (ℕ × σ)} {other : α}
    (hother : ∀ nextClientId s, step (nextClientId, s) other =
        some (countRegistration nextClientId, s))
    (s : σ) :
    ∀ (registrations nextClientId : ℕ), nextClientId < 2 ^ 32 →
      Transition.run step (nextClientId, s) (List.replicate registrations other) =
        some ((nextClientId + registrations) % 2 ^ 32, s) := by
  intro registrations
  induction registrations with
  | zero =>
      intro nextClientId hlt
      rw [Nat.add_zero, Nat.mod_eq_of_lt hlt]
      rfl
  | succ registrations ih =>
      intro nextClientId hlt
      have hsum : (countRegistration nextClientId + registrations) % 2 ^ 32 =
          (nextClientId + (registrations + 1)) % 2 ^ 32 := by
        rw [countRegistration]
        omega
      rw [List.replicate_succ, Transition.run, hother, Option.bind_some,
        ih (countRegistration nextClientId) (Nat.mod_lt _ (by decide)), hsum]

end ComputeWebApp.Data
