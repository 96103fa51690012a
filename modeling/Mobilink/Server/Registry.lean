import Mathlib.Data.Finmap
import Mobilink.Core.Message
import Mobilink.Library.Ascii
import Mobilink.Library.Mutex

/-! The in-memory session registry: all open sessions behind one lock, the session that owns the
public host behind another. Every operation returns the registry it leaves behind. -/
namespace Mobilink.Server
open Mobilink.Core

inductive SessionError where
  | duplicateId
  | notFound
  deriving DecidableEq

structure InMemorySessionRegistry where
  sessions : Mutex (Finmap fun _ : SessionId => Session)
  /-- Session that currently owns the public host, if any. -/
  current : Mutex (Option SessionId)
  publicBaseUrl : String

namespace InMemorySessionRegistry

def new (publicBaseUrl : String) : InMemorySessionRegistry :=
  ⟨.new ∅, .new none, String.ofList (Ascii.trimEndMatches '/' publicBaseUrl.toList)⟩

def getSession (r : InMemorySessionRegistry) (id : SessionId) : Option Session := do
  let sessions ← r.sessions.lock
  sessions.lookup id

/-- The lock on `current` is released before the session is looked up. -/
def activeSession (r : InMemorySessionRegistry) : Option Session := do
  let current ← r.current.lock
  let id ← current
  r.getSession id

def registerSession (r : InMemorySessionRegistry) (session : Session) :
    InMemorySessionRegistry × Except SessionError Session :=
  match r.sessions.lock with
  | none => (r, .error .duplicateId)
  | some sessions =>
    if session.id ∈ sessions then (r, .error .duplicateId)
    else
      let r := { r with sessions := r.sessions.store (sessions.insert session.id session) }
      -- A poisoned `current` is reported as a duplicate, with the session left in the map.
      match r.current.lock with
      | none => (r, .error .duplicateId)
      | some _ => ({ r with current := r.current.store (some session.id) }, .ok session)

def openSession (r : InMemorySessionRegistry) (drawn : SessionId) (port : UInt16) :
    InMemorySessionRegistry × Option Session :=
  let out := r.registerSession (Session.new drawn port r.publicBaseUrl)
  (out.1, out.2.toOption)

def closeSession (r : InMemorySessionRegistry) (id : SessionId) :
    InMemorySessionRegistry × Except SessionError Unit :=
  match r.sessions.lock with
  | none => (r, .error .notFound)
  | some sessions =>
    match sessions.lookup id with
    | none => (r, .error .notFound)
    | some _ =>
      let r := { r with sessions := r.sessions.store (sessions.erase id) }
      match r.current.lock with
      | none => (r, .error .notFound)
      | some current =>
        (if current = some id then { r with current := r.current.store none } else r, .ok ())

/-- Neither lock is poisoned. No operation poisons one. -/
structure Healthy (r : InMemorySessionRegistry) : Prop where
  sessions : r.sessions.poisoned = false
  current : r.current.poisoned = false

variable {r : InMemorySessionRegistry}

theorem healthy_new (url : String) : (new url).Healthy := ⟨rfl, rfl⟩

theorem getSession_eq (h : r.Healthy) (id : SessionId) :
    r.getSession id = r.sessions.value.lookup id := by
  unfold getSession
  rw [Mutex.lock_eq_some h.sessions]
  rfl

theorem activeSession_eq (h : r.Healthy) :
    r.activeSession = r.current.value.bind r.sessions.value.lookup := by
  unfold activeSession
  rw [Mutex.lock_eq_some h.current]
  change r.current.value.bind r.getSession = _
  rw [show r.getSession = fun id => r.sessions.value.lookup id from funext (getSession_eq h)]

theorem registerSession_new (h : r.Healthy) {session : Session}
    (hid : session.id ∉ r.sessions.value) :
    r.registerSession session =
      ({ r with
          sessions := r.sessions.store (r.sessions.value.insert session.id session)
          current := r.current.store (some session.id) }, .ok session) := by
  unfold registerSession
  rw [Mutex.lock_eq_some h.sessions]
  simp only [hid, if_false]
  rw [Mutex.lock_eq_some h.current]

theorem registerSession_duplicate (h : r.Healthy) {session : Session}
    (hid : session.id ∈ r.sessions.value) :
    r.registerSession session = (r, .error .duplicateId) := by
  unfold registerSession
  rw [Mutex.lock_eq_some h.sessions]
  simp only [hid, if_true]

theorem openSession_new (h : r.Healthy) {drawn : SessionId} (port : UInt16)
    (hid : drawn ∉ r.sessions.value) :
    r.openSession drawn port =
      ({ r with
          sessions := r.sessions.store
            (r.sessions.value.insert drawn ⟨drawn, port, r.publicBaseUrl⟩)
          current := r.current.store (some drawn) }, some ⟨drawn, port, r.publicBaseUrl⟩) := by
  have hr := registerSession_new h (show (Session.new drawn port r.publicBaseUrl).id ∉ _ from hid)
  unfold openSession
  rw [hr]
  rfl

theorem openSession_duplicate (h : r.Healthy) {drawn : SessionId} (port : UInt16)
    (hid : drawn ∈ r.sessions.value) : r.openSession drawn port = (r, none) := by
  have hr := registerSession_duplicate h
    (show (Session.new drawn port r.publicBaseUrl).id ∈ _ from hid)
  unfold openSession
  rw [hr]
  rfl

theorem closeSession_missing (h : r.Healthy) {id : SessionId} (hid : id ∉ r.sessions.value) :
    r.closeSession id = (r, .error .notFound) := by
  unfold closeSession
  rw [Mutex.lock_eq_some h.sessions]
  simp only [Finmap.lookup_eq_none.mpr hid]

/-- The owner slot is cleared exactly when it names the closed session. -/
theorem closeSession_found (h : r.Healthy) {id : SessionId} (hid : id ∈ r.sessions.value) :
    r.closeSession id =
      ({ r with
          sessions := r.sessions.store (r.sessions.value.erase id)
          current := r.current.store
            (if r.current.value = some id then none else r.current.value) }, .ok ()) := by
  obtain ⟨s, hs⟩ := Finmap.mem_iff.mp hid
  have hcur := Mutex.lock_eq_some h.current
  unfold closeSession
  rw [Mutex.lock_eq_some h.sessions]
  simp only [hs, hcur]
  split_ifs with hc
  · rfl
  · simp [Mutex.store]

end InMemorySessionRegistry
end Mobilink.Server
