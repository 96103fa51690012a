import Mobilink.Library.Recency
import Mobilink.Server.Registry

/-! Runs of the session registry against the log of open sessions in order of opening: which
session owns the public host, and when that is the most recently opened one. -/
namespace Mobilink.Server
open Mobilink.Core Recency

/-- A call that can change the registry. `openSession` comes with the id it draws. -/
inductive RegistryCall where
  | openSession (drawn : SessionId) (port : UInt16)
  | registerSession (session : Session)
  | closeSession (id : SessionId)

namespace RegistryCall

def perform (r : InMemorySessionRegistry) : RegistryCall → InMemorySessionRegistry
  | .openSession drawn port => (r.openSession drawn port).1
  | .registerSession session => (r.registerSession session).1
  | .closeSession id => (r.closeSession id).1

def performAll (r : InMemorySessionRegistry) (calls : List RegistryCall) :
    InMemorySessionRegistry := calls.foldl perform r

/-- What a call asks of the log of open sessions. -/
def request (baseUrl : String) : RegistryCall → Call Session SessionId
  | .openSession drawn port => .opens ⟨drawn, port, baseUrl⟩
  | .registerSession session => .opens session
  | .closeSession id => .closes id

/-- The caller gets no error. -/
def succeeds (r : InMemorySessionRegistry) : RegistryCall → Bool
  | .openSession drawn port => (r.openSession drawn port).2.isSome
  | .registerSession session => (r.registerSession session).2.isOk
  | .closeSession id => (r.closeSession id).2.isOk

variable {r : InMemorySessionRegistry}

/-- A call fails and changes nothing, registers a session, or closes one. -/
theorem perform_cases (h : r.Healthy) (call : RegistryCall) :
    (call.succeeds r = false ∧ call.perform r = r) ∨
    (∃ session, call.request r.publicBaseUrl = .opens session ∧ call.succeeds r = true ∧
      session.id ∉ r.sessions.value ∧ call.perform r =
        { r with
          sessions := r.sessions.store (r.sessions.value.insert session.id session)
          current := r.current.store (some session.id) }) ∨
    ∃ id, call = .closeSession id ∧ call.succeeds r = true ∧ id ∈ r.sessions.value ∧
      call.perform r = { r with
        sessions := r.sessions.store (r.sessions.value.erase id)
        current := r.current.store (if r.current.value = some id then none else r.current.value) } := by
  cases call with
  | openSession drawn port =>
    rw [succeeds, perform, request]
    by_cases hid : drawn ∈ r.sessions.value
    · rw [InMemorySessionRegistry.openSession_duplicate h port hid]
      exact Or.inl ⟨rfl, rfl⟩
    · rw [InMemorySessionRegistry.openSession_new h port hid]
      exact Or.inr (Or.inl ⟨⟨drawn, port, r.publicBaseUrl⟩, rfl, rfl, hid, rfl⟩)
  | registerSession session =>
    rw [succeeds, perform, request]
    by_cases hid : session.id ∈ r.sessions.value
    · rw [InMemorySessionRegistry.registerSession_duplicate h hid]
      exact Or.inl ⟨rfl, rfl⟩
    · rw [InMemorySessionRegistry.registerSession_new h hid]
      exact Or.inr (Or.inl ⟨session, rfl, rfl, hid, rfl⟩)
  | closeSession id =>
    rw [succeeds, perform]
    by_cases hid : id ∈ r.sessions.value
    · rw [InMemorySessionRegistry.closeSession_found h hid]
      exact Or.inr (Or.inr ⟨id, rfl, rfl, hid, rfl⟩)
    · rw [InMemorySessionRegistry.closeSession_missing h hid]
      exact Or.inl ⟨rfl, rfl⟩

end RegistryCall

open RegistryCall

/-- The sessions still open after a sequence of calls, newest first, read off the calls alone. -/
def openSessions (url : String) (calls : List RegistryCall) : Log Session.id :=
  Log.after Session.id (calls.map (request (InMemorySessionRegistry.new url).publicBaseUrl))

/-- The registry's map holds the log's sessions and its owner slot is the log's slot. -/
structure Holds (baseUrl : String) (r : InMemorySessionRegistry) (s : Slotted Session.id) :
    Prop where
  healthy : r.Healthy
  base : r.publicBaseUrl = baseUrl
  sessions : ∀ id, r.sessions.value.lookup id = s.log.find? id
  current : r.current.value = s.slot

namespace Holds

variable {baseUrl : String} {r : InMemorySessionRegistry} {s : Slotted Session.id}

theorem mem_iff (h : Holds baseUrl r s) (id : SessionId) :
    id ∈ r.sessions.value ↔ s.log.find? id ≠ none := by
  rw [← h.sessions id, ne_eq, Finmap.lookup_eq_none, not_not]

theorem activeSession (h : Holds baseUrl r s) : r.activeSession = s.owner := by
  rw [InMemorySessionRegistry.activeSession_eq h.healthy, h.current, Slotted.owner]
  congr 1
  funext id
  exact h.sessions id

theorem register (h : Holds baseUrl r s) (session : Session) :
    Holds baseUrl (r.registerSession session).1 (s.apply (.opens session)) := by
  by_cases hid : session.id ∈ r.sessions.value
  · have hs : s.log.find? session.id ≠ none := (h.mem_iff _).mp hid
    rw [InMemorySessionRegistry.registerSession_duplicate h.healthy hid, Slotted.apply, if_neg hs]
    exact h
  · have hs : s.log.find? session.id = none := by
      rw [← h.sessions, Finmap.lookup_eq_none]
      exact hid
    rw [InMemorySessionRegistry.registerSession_new h.healthy hid, Slotted.apply, if_pos hs]
    refine ⟨⟨h.healthy.sessions, h.healthy.current⟩, h.base, ?_, rfl⟩
    intro id
    rw [Mutex.value_store, Log.find?_opened _ _ hs]
    split_ifs with he
    · rw [← he, Finmap.lookup_insert]
    · rw [Finmap.lookup_insert_of_ne _ (fun hc => he hc.symm), h.sessions]

theorem close (h : Holds baseUrl r s) (hs : s.Current) (id : SessionId) :
    Holds baseUrl (r.closeSession id).1 (s.apply (.closes id)) := by
  by_cases hid : id ∈ r.sessions.value
  · rw [InMemorySessionRegistry.closeSession_found h.healthy hid, Slotted.apply]
    refine ⟨⟨h.healthy.sessions, h.healthy.current⟩, h.base, ?_, ?_⟩
    · intro j
      rw [Mutex.value_store, Log.find?_closed]
      split_ifs with he
      · rw [← he, Finmap.lookup_erase]
      · rw [Finmap.lookup_erase_ne (fun hc => he hc.symm), h.sessions]
    · rw [Mutex.value_store, h.current]
  · -- Closing an unknown id changes neither side: the slot only ever names an open session.
    have hf : s.log.find? id = none := by
      rw [← h.sessions, Finmap.lookup_eq_none]
      exact hid
    rw [InMemorySessionRegistry.closeSession_missing h.healthy hid, Slotted.apply,
      if_neg (Slotted.slot_ne_of_missing hs hf)]
    refine ⟨h.healthy, h.base, ?_, h.current⟩
    intro j
    rw [Log.find?_closed]
    split_ifs with he
    · rw [← he, h.sessions, hf]
    · exact h.sessions j

theorem perform (h : Holds baseUrl r s) (hs : s.Current) (call : RegistryCall) :
    Holds baseUrl (call.perform r) (s.apply (call.request baseUrl)) := by
  cases call with
  | openSession drawn port =>
    have hr := h.register (.new drawn port r.publicBaseUrl)
    rw [h.base] at hr
    unfold RegistryCall.perform RegistryCall.request InMemorySessionRegistry.openSession
    rw [h.base]
    exact hr
  | registerSession session => exact h.register session
  | closeSession id => exact h.close hs id

end Holds

/-- Every run of the registry is a run of the log with its slot. -/
theorem holds_performAll (url : String) (calls : List RegistryCall) :
    Holds (InMemorySessionRegistry.new url).publicBaseUrl (performAll (.new url) calls)
      (Slotted.after Session.id
        (calls.map (request (InMemorySessionRegistry.new url).publicBaseUrl))) := by
  induction calls using List.reverseRecOn with
  | nil => exact ⟨InMemorySessionRegistry.healthy_new url, rfl, fun _ => rfl, rfl⟩
  | append_singleton past call ih =>
    have h := ih.perform (Slotted.current_after _) call
    rw [List.map_append, List.map_singleton, Slotted.after_append]
    simpa only [performAll, List.foldl_append, List.foldl_cons, List.foldl_nil] using h

/-- The host belongs to the most recently opened session among those still open. -/
def OwnerIsNewest (r : InMemorySessionRegistry) (log : Log Session.id) : Prop :=
  r.activeSession = log.newest ∧ (r.activeSession = none ↔ log.items = [])

theorem ownerIsNewest_iff (url : String) (calls : List RegistryCall) :
    OwnerIsNewest (performAll (.new url) calls) (openSessions url calls) ↔
      (Slotted.after Session.id
        (calls.map (request (InMemorySessionRegistry.new url).publicBaseUrl))).owner =
        (openSessions url calls).newest := by
  unfold OwnerIsNewest
  rw [(holds_performAll url calls).activeSession]
  constructor
  · exact fun h => h.1
  · intro h
    refine ⟨h, ?_⟩
    rw [h]
    exact List.head?_eq_none_iff

/-- The newest open session owns the host in every state of a run exactly when the run never
closes the newest open session while an older one is open. -/
theorem activeSession_newest_throughout_iff (url : String) (calls : List RegistryCall) :
    (∀ past, past <+: calls → OwnerIsNewest (performAll (.new url) past) (openSessions url past)) ↔
      ∀ past id, past ++ [.closeSession id] <+: calls →
        ¬ ((openSessions url past).newest.map Session.id = some id ∧
          2 ≤ (openSessions url past).items.length) := by
  simp only [ownerIsNewest_iff]
  refine Iff.trans (Slotted.owner_eq_newest_throughout_iff Session.id _ calls) ?_
  constructor
  · intro h past id hp
    exact h past (.closeSession id) hp
  · intro h past call hp
    cases call with
    | openSession drawn port => exact id
    | registerSession session => exact id
    | closeSession id => exact h past id hp

/-- Two sessions are opened and the newer one is closed: the older one is open, and nobody owns
the host. -/
theorem activeSession_none_with_open_session :
    let older : SessionId := ⟨⟨Vector.replicate 16 1⟩⟩
    let newer : SessionId := ⟨⟨Vector.replicate 16 2⟩⟩
    let calls : List RegistryCall :=
      [.openSession older 3000, .openSession newer 4000, .closeSession newer]
    let url := "https://my-vps.com"
    (performAll (.new url) calls).activeSession = none ∧
      (openSessions url calls).newest = some ⟨older, 3000, url⟩ ∧
      ¬ OwnerIsNewest (performAll (.new url) calls) (openSessions url calls) := by
  intro older newer calls url
  have howner : (performAll (.new url) calls).activeSession = none := by decide
  have hnewest : (openSessions url calls).newest = some ⟨older, 3000, url⟩ := by decide
  refine ⟨howner, hnewest, ?_⟩
  intro h
  have hsame := h.1
  rw [howner, hnewest] at hsame
  exact absurd hsame (by simp)

end Mobilink.Server
