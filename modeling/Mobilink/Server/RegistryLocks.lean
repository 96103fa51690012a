import Mathlib.Data.Fintype.EquivFin
import Mobilink.Library.Locks
import Mobilink.Server.RegistryRuns

/-! The registry called from many tasks at once: every operation as the accesses it makes and the
guards it holds, and what the two locks guarantee in any interleaving. -/
namespace Mobilink.Server
open Mobilink.Core Locks RegistryCall

/-- The two mutexes, in the order in which a task that needs both takes them. -/
inductive RegistryLock where
  | sessions
  | current
  deriving DecidableEq

namespace RegistryLock

def rank : RegistryLock → ℕ
  | .sessions => 0
  | .current => 1

instance : Fintype RegistryLock := ⟨{.sessions, .current}, fun lock => by cases lock <;> decide⟩

instance : Preorder RegistryLock := Preorder.lift rank

theorem sessions_lt_current : RegistryLock.sessions < RegistryLock.current := Nat.zero_lt_one

end RegistryLock

inductive RegistryAnswer where
  | session (session : Option Session)
  | registered (result : Except SessionError Session)
  | closed (result : Except SessionError Unit)

/-- What is left of an operation on the registry. -/
abbrev RegistryCode := Program InMemorySessionRegistry RegistryLock RegistryAnswer

namespace RegistryCode

def getSession (id : SessionId) : RegistryCode :=
  .acquire .sessions <| .read fun r =>
    .release .sessions <| .returned <| .session <| r.sessions.lock.bind fun sessions =>
      sessions.lookup id

/-- The guard on `current` lives in one statement: it is dropped before `sessions` is locked. -/
def activeSession : RegistryCode :=
  .acquire .current <| .read fun r =>
    .release .current <|
      match r.current.lock.bind fun current => current with
      | none => .returned (.session none)
      | some id => getSession id

/-- `answer` is what the caller makes of the result. -/
def registerSession (session : Session)
    (answer : Except SessionError Session → RegistryAnswer) : RegistryCode :=
  .acquire .sessions <| .read fun r =>
    match r.sessions.lock with
    | none => .release .sessions <| .returned <| answer <| .error .duplicateId
    | some sessions =>
      if session.id ∈ sessions then
        .release .sessions <| .returned <| answer <| .error .duplicateId
      else
        .write (fun r =>
          { r with sessions := r.sessions.store (r.sessions.value.insert session.id session) }) <|
        .acquire .current <| .read fun r =>
          match r.current.lock with
          | none =>
            .release .current <| .release .sessions <| .returned <| answer <| .error .duplicateId
          | some _ =>
            .write (fun r => { r with current := r.current.store (some session.id) }) <|
            .release .current <| .release .sessions <| .returned <| answer <| .ok session

def openSession (drawn : SessionId) (port : UInt16) : RegistryCode :=
  .read fun r =>
    registerSession (Session.new drawn port r.publicBaseUrl) fun result =>
      .session result.toOption

/-- Removing from the map tells at once whether the session was there. -/
def closeSession (id : SessionId) : RegistryCode :=
  .acquire .sessions <| .read fun r =>
    match r.sessions.lock with
    | none => .release .sessions <| .returned <| .closed <| .error .notFound
    | some _ =>
      .access (fun r => { r with sessions := r.sessions.store (r.sessions.value.erase id) }) fun r =>
        match r.sessions.value.lookup id with
        | none => .release .sessions <| .returned <| .closed <| .error .notFound
        | some _ =>
          .acquire .current <| .read fun r =>
            match r.current.lock with
            | none => .release .current <| .release .sessions <| .returned <| .closed <|
                .error .notFound
            | some current =>
              if current = some id then
                .write (fun r => { r with current := r.current.store none }) <|
                .release .current <| .release .sessions <| .returned <| .closed <| .ok ()
              else .release .current <| .release .sessions <| .returned <| .closed <| .ok ()

end RegistryCode

inductive RegistryOperation where
  | change (call : RegistryCall)
  | getSession (id : SessionId)
  | activeSession

namespace RegistryOperation

def code : RegistryOperation → RegistryCode
  | .change (.openSession drawn port) => RegistryCode.openSession drawn port
  | .change (.registerSession session) => RegistryCode.registerSession session .registered
  | .change (.closeSession id) => RegistryCode.closeSession id
  | .getSession id => RegistryCode.getSession id
  | .activeSession => RegistryCode.activeSession

/-- The operation in one piece. -/
def perform (r : InMemorySessionRegistry) :
    RegistryOperation → InMemorySessionRegistry × RegistryAnswer
  | .change (.openSession drawn port) =>
    ((r.openSession drawn port).1, .session (r.openSession drawn port).2)
  | .change (.registerSession session) =>
    ((r.registerSession session).1, .registered (r.registerSession session).2)
  | .change (.closeSession id) => ((r.closeSession id).1, .closed (r.closeSession id).2)
  | .getSession id => (r, .session (r.getSession id))
  | .activeSession => (r, .session r.activeSession)

end RegistryOperation

/-! ### The code and the operations -/

namespace RegistryCode

variable (r : InMemorySessionRegistry)

theorem runAlone_getSession (id : SessionId) :
    (getSession id).runAlone r = (r, .session (r.getSession id)) := rfl

theorem runAlone_activeSession : activeSession.runAlone r = (r, .session r.activeSession) := by
  simp only [activeSession, Program.read, Program.runAlone, InMemorySessionRegistry.activeSession]
  cases hlock : r.current.lock with
  | none => rfl
  | some current =>
    cases current with
    | none => rfl
    | some id => rfl

theorem runAlone_registerSession (session : Session)
    (answer : Except SessionError Session → RegistryAnswer) :
    (registerSession session answer).runAlone r =
      ((r.registerSession session).1, answer (r.registerSession session).2) := by
  simp only [registerSession, Program.read, Program.write, Program.runAlone, id_eq,
    InMemorySessionRegistry.registerSession]
  cases hlock : r.sessions.lock with
  | none => rfl
  | some sessions =>
    have hvalue := Mutex.value_of_lock hlock
    simp only
    split_ifs with hid
    · rfl
    · simp only [Program.runAlone, hvalue]
      cases hcurrent : r.current.lock <;> rfl

theorem runAlone_closeSession (id : SessionId) :
    (closeSession id).runAlone r = ((r.closeSession id).1, .closed (r.closeSession id).2) := by
  simp only [closeSession, Program.read, Program.write, Program.runAlone, id_eq,
    InMemorySessionRegistry.closeSession]
  cases hlock : r.sessions.lock with
  | none => rfl
  | some sessions =>
    have hvalue := Mutex.value_of_lock hlock
    simp only [Program.runAlone, hvalue]
    cases hfound : sessions.lookup id with
    | none =>
      have hsame : sessions.erase id = sessions := by
        apply Finmap.ext_lookup
        intro id'
        by_cases he : id' = id
        · rw [he, Finmap.lookup_erase, hfound]
        · rw [Finmap.lookup_erase_ne he]
      have hstore : r.sessions.store (sessions.erase id) = r.sessions := by
        rw [hsame, ← hvalue]
        rfl
      simp only [Program.runAlone, hstore]
    | some session =>
      simp only [Program.runAlone]
      cases hcurrent : r.current.lock with
      | none => rfl
      | some current =>
        simp only
        split_ifs with hid <;> rfl

/-! ### What an operation does with the locks -/

variable {r}

@[simp] theorem ordered_release_sessions (answer : RegistryAnswer) :
    (.release .sessions (.returned answer) : RegistryCode).Ordered {.sessions} := by
  simp [Program.Ordered]

@[simp] theorem ordered_release_both (answer : RegistryAnswer) :
    (.release .current (.release .sessions (.returned answer)) : RegistryCode).Ordered
      {.current, .sessions} := by
  simp [Program.Ordered]

theorem ordered_getSession (id : SessionId) : (getSession id).Ordered ∅ := by
  simp [getSession, Program.read, Program.Ordered]

theorem ordered_activeSession : activeSession.Ordered ∅ := by
  simp only [activeSession, Program.read, Program.Ordered]
  refine ⟨by simp, fun r => ⟨by simp, ?_⟩⟩
  rw [insert_empty_eq, sdiff_self]
  cases r.current.lock.bind fun current => current with
  | none => rfl
  | some id => exact ordered_getSession id

theorem ordered_registerSession (session : Session)
    (answer : Except SessionError Session → RegistryAnswer) :
    (registerSession session answer).Ordered ∅ := by
  refine ⟨by simp, fun r => ?_⟩
  rw [insert_empty_eq]
  beta_reduce
  cases r.sessions.lock with
  | none => simp
  | some sessions =>
    simp only
    split_ifs with hid
    · simp
    · refine fun _ => ⟨by simpa using RegistryLock.sessions_lt_current, fun r => ?_⟩
      beta_reduce
      cases r.current.lock with
      | none => simp
      | some current => exact fun _ => ordered_release_both _

theorem ordered_closeSession (id : SessionId) : (closeSession id).Ordered ∅ := by
  refine ⟨by simp, fun r => ?_⟩
  rw [insert_empty_eq]
  beta_reduce
  cases r.sessions.lock with
  | none => simp
  | some sessions =>
    intro r
    simp only
    cases r.sessions.value.lookup id with
    | none => simp
    | some session =>
      refine ⟨by simpa using RegistryLock.sessions_lt_current, fun r => ?_⟩
      beta_reduce
      cases r.current.lock with
      | none => simp
      | some current =>
        simp only
        split_ifs with hid
        · exact fun _ => ordered_release_both _
        · simp

theorem encloses_getSession (id : SessionId) : (getSession id).Encloses .sessions := by
  refine ⟨_, rfl, fun r => ?_⟩
  simp [Program.EndsWith]

theorem encloses_registerSession (session : Session)
    (answer : Except SessionError Session → RegistryAnswer) :
    (registerSession session answer).Encloses .sessions := by
  refine ⟨_, rfl, fun r => ?_⟩
  beta_reduce
  cases r.sessions.lock with
  | none => simp [Program.EndsWith]
  | some sessions =>
    simp only
    split_ifs with hid
    · simp [Program.EndsWith]
    · refine fun _ => ⟨by simp, fun r => ?_⟩
      beta_reduce
      cases r.current.lock <;> simp [Program.EndsWith, Program.write]

theorem encloses_closeSession (id : SessionId) : (closeSession id).Encloses .sessions := by
  refine ⟨_, rfl, fun r => ?_⟩
  beta_reduce
  cases r.sessions.lock with
  | none => simp [Program.EndsWith]
  | some sessions =>
    intro r
    simp only
    cases r.sessions.value.lookup id with
    | none => simp [Program.EndsWith]
    | some session =>
      refine ⟨by simp, fun r => ?_⟩
      beta_reduce
      cases r.current.lock with
      | none => simp [Program.EndsWith]
      | some current =>
        simp only
        split_ifs <;> simp [Program.EndsWith, Program.write]

end RegistryCode

namespace RegistryOperation

/-- The code computes the operation. -/
theorem runAlone_code (r : InMemorySessionRegistry) (op : RegistryOperation) :
    op.code.runAlone r = op.perform r := by
  cases op with
  | change call =>
    cases call with
    | openSession drawn port =>
      exact RegistryCode.runAlone_registerSession r (Session.new drawn port r.publicBaseUrl)
        fun result => .session result.toOption
    | registerSession session => exact RegistryCode.runAlone_registerSession r _ _
    | closeSession id => exact RegistryCode.runAlone_closeSession r id
  | getSession id => exact RegistryCode.runAlone_getSession r id
  | activeSession => exact RegistryCode.runAlone_activeSession r

theorem ordered_code (op : RegistryOperation) : op.code.Ordered ∅ := by
  cases op with
  | change call =>
    cases call with
    | openSession drawn port => exact fun r => RegistryCode.ordered_registerSession _ _
    | registerSession session => exact RegistryCode.ordered_registerSession _ _
    | closeSession id => exact RegistryCode.ordered_closeSession id
  | getSession id => exact RegistryCode.ordered_getSession id
  | activeSession => exact RegistryCode.ordered_activeSession

/-- A registry that some calls, one after the other, leave behind. -/
def Sequential (url : String) (r : InMemorySessionRegistry) : Prop :=
  ∃ calls, r = performAll (.new url) calls

theorem Sequential.perform {url : String} {r : InMemorySessionRegistry} (h : Sequential url r)
    (call : RegistryCall) : Sequential url (call.perform r) := by
  obtain ⟨calls, rfl⟩ := h
  exact ⟨calls ++ [call], by rw [performAll, performAll, List.foldl_append]; rfl⟩

theorem keeps_code (url : String) (op : RegistryOperation) :
    op.code.Keeps .sessions (Sequential url) none := by
  have hregister : ∀ session answer,
      (RegistryCode.registerSession session answer).Keeps .sessions (Sequential url) none := by
    intro session answer
    apply Program.keeps_of_encloses (RegistryCode.encloses_registerSession session answer)
    intro r hr
    rw [RegistryCode.runAlone_registerSession]
    exact hr.perform (.registerSession session)
  have hget : ∀ id, (RegistryCode.getSession id).Keeps .sessions (Sequential url) none := fun id =>
    Program.keeps_of_encloses (RegistryCode.encloses_getSession id) fun r hr => hr
  cases op with
  | change call =>
    cases call with
    | openSession drawn port => exact fun r => ⟨rfl, hregister _ _⟩
    | registerSession session => exact hregister session .registered
    | closeSession id =>
      apply Program.keeps_of_encloses (RegistryCode.encloses_closeSession id)
      intro r hr
      rw [RegistryCode.runAlone_closeSession]
      exact hr.perform (.closeSession id)
  | getSession id => exact hget id
  | activeSession =>
    simp only [code, RegistryCode.activeSession, Program.read, Program.Keeps]
    refine fun r => ⟨rfl, by simp, ?_⟩
    cases r.current.lock.bind fun current => current with
    | none => trivial
    | some id => exact hget id

end RegistryOperation

variable {ι : Type*} [DecidableEq ι]

/-- Any number of tasks that call a new registry. -/
def registryTasks (ι : Type*) [DecidableEq ι] (url : String) :
    Transition.System (State ι InMemorySessionRegistry RegistryLock RegistryAnswer)
      (Event ι RegistryOperation) :=
  Locks.system RegistryOperation.code (.new url)

variable {url : String} {s : State ι InMemorySessionRegistry RegistryLock RegistryAnswer}

/-- Whenever nobody holds `sessions`, the registry is as if calls had been made one by one. -/
theorem sequential_of_free (hs : (registryTasks ι url).Reachable s)
    (hfree : s.holder .sessions = none) : ∃ calls, s.shared = performAll (.new url) calls :=
  holds_of_free (RegistryOperation.keeps_code url) ⟨[], rfl⟩ hs hfree

/-- The tasks never block each other for good, and whoever finds `sessions` free finds the owner of
the host, if there is one, among the open sessions. -/
theorem registry_locks (hs : (registryTasks ι url).Reachable s) :
    ((∃ i, s.Unfinished i) →
      ∃ i, s.Unfinished i ∧ ((registryTasks ι url).step s (.advance i)).isSome = true) ∧
      (s.holder .sessions = none →
        ∀ id, s.shared.current.value = some id → id ∈ s.shared.sessions.value) := by
  constructor
  · exact exists_step RegistryOperation.ordered_code hs
  · intro hfree
    obtain ⟨calls, hcalls⟩ := sequential_of_free hs hfree
    rw [hcalls]
    exact (sound_performAll url calls).owner

/-- A task has put its session into the map and waits for the owner slot, which a reader has locked;
at the end it has given both locks back. -/
theorem registry_locks_contended :
    let drawn : SessionId := ⟨⟨Vector.replicate 16 1⟩⟩
    let tasks := registryTasks ℕ "https://my-vps.com"
    let waiting : List (Event ℕ RegistryOperation) :=
      .start 0 (.change (.openSession drawn 3000)) :: List.replicate 4 (.advance 0) ++
        [.start 1 .activeSession, .advance 1]
    let finished := waiting ++ List.replicate 2 (.advance 1) ++ List.replicate 5 (.advance 0)
    ∃ s t, tasks.run tasks.init waiting = some s ∧ tasks.run tasks.init finished = some t ∧
      s.holder .sessions = some 0 ∧ s.holder .current = some 1 ∧
      (∃ i, s.Unfinished i ∧ (tasks.step s (.advance i)).isSome = true) ∧
      t.shared.current.value = some drawn ∧ drawn ∈ t.shared.sessions.value := by
  intro drawn tasks waiting finished
  obtain ⟨s, hs⟩ := Option.isSome_iff_exists.mp
    (show (tasks.run tasks.init waiting).isSome = true by decide)
  obtain ⟨t, ht⟩ := Option.isSome_iff_exists.mp
    (show (tasks.run tasks.init finished).isSome = true by decide)
  have hwaiting : (tasks.run tasks.init waiting).map (fun s =>
      (s.holder .sessions, s.holder .current, (s.callers 0).map Program.isReturned)) =
      some (some 0, some 1, some false) := by decide
  have hfinished : (tasks.run tasks.init finished).map (fun t =>
      (t.holder .sessions, t.shared.current.value)) = some (none, some drawn) := by decide
  simp only [hs, Option.map_some, Option.some.injEq, Prod.mk.injEq] at hwaiting
  simp only [ht, Option.map_some, Option.some.injEq, Prod.mk.injEq] at hfinished
  obtain ⟨hsessions, hcurrent, hcaller⟩ := hwaiting
  obtain ⟨p, hp, hunfinished⟩ := Option.map_eq_some_iff.mp hcaller
  have hstep := (registry_locks (s := s) ⟨waiting, hs⟩).1 ⟨0, p, hp, hunfinished⟩
  have howner := (registry_locks (s := t) ⟨finished, ht⟩).2 hfinished.1 drawn hfinished.2
  exact ⟨s, t, hs, ht, hsessions, hcurrent, hstep, hfinished.2, howner⟩

end Mobilink.Server
