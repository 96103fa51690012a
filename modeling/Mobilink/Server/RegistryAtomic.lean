import Mobilink.Library.TwoPhase
import Mobilink.Server.RegistryLocks

/-! The registry's locks are taken in two phases, so that what its callers see is what they would see
if every operation were one step, and `active_session` two. -/
namespace Mobilink.Server
open Mobilink.Core Locks

/-- The mutex behind each lock. -/
abbrev RegistryLock.Guarded : RegistryLock → Type
  | .sessions => Mutex (Finmap fun _ : SessionId => Session)
  | .current => Mutex (Option SessionId)

/-- The base URL is read without a lock. Nothing ever changes it. -/
def registryParts (baseUrl : String) : Parts InMemorySessionRegistry RegistryLock.Guarded where
  part
    | .sessions => InMemorySessionRegistry.sessions
    | .current => InMemorySessionRegistry.current
  Valid r := r.publicBaseUrl = baseUrl
  ext {s t} hs ht h := by
    have hsessions : s.sessions = t.sessions := h .sessions
    have hcurrent : s.current = t.current := h .current
    cases s
    cases t
    simp_all
  exists_mix held {s t} hs _ := by
    refine ⟨⟨if .sessions ∈ held then s.sessions else t.sessions,
      if .current ∈ held then s.current else t.current, s.publicBaseUrl⟩, hs, ?_, ?_⟩
    · intro l hl
      cases l <;> exact if_pos hl
    · intro l hl
      cases l <;> exact if_neg hl

namespace RegistryCode

variable {baseUrl : String}

/-- A read under the lock of the sessions, and one under that of the owner slot. -/
theorem confines_read_sessions {held : Finset RegistryLock} (h : .sessions ∈ held)
    {next : InMemorySessionRegistry → RegistryCode}
    (hnext : ∀ r r', r.sessions = r'.sessions → next r = next r') :
    (registryParts baseUrl).Confines held id next :=
  Parts.confines_read _ fun r r' _ _ hsame => hnext r r' (hsame .sessions h)

theorem confines_read_current {held : Finset RegistryLock} (h : .current ∈ held)
    {next : InMemorySessionRegistry → RegistryCode}
    (hnext : ∀ r r', r.current = r'.current → next r = next r') :
    (registryParts baseUrl).Confines held id next :=
  Parts.confines_read _ fun r r' _ _ hsame => hnext r r' (hsame .current h)

/-- A write under each of the two locks. -/
theorem confines_write_sessions {held : Finset RegistryLock} (h : .sessions ∈ held)
    (write : Mutex (Finmap fun _ : SessionId => Session) →
      Mutex (Finmap fun _ : SessionId => Session))
    {next : InMemorySessionRegistry → RegistryCode}
    (hnext : ∀ r r', r.sessions = r'.sessions → next r = next r') :
    (registryParts baseUrl).Confines held (fun r => { r with sessions := write r.sessions })
      next := by
  constructor
  · exact fun _ hr => hr
  · exact fun r r' _ _ hsame => hnext r r' (hsame .sessions h)
  · intro r r' _ _ hsame l hl
    cases l with
    | sessions => exact congrArg write (hsame .sessions h)
    | current => exact hsame .current hl
  · intro r _ l hl
    cases l with
    | sessions => exact absurd h hl
    | current => rfl

theorem confines_write_current {held : Finset RegistryLock} (h : .current ∈ held)
    (write : Mutex (Option SessionId) → Mutex (Option SessionId)) (next : RegistryCode) :
    (registryParts baseUrl).Confines held (fun r => { r with current := write r.current })
      fun _ => next := by
  constructor
  · exact fun _ hr => hr
  · exact fun _ _ _ _ _ => rfl
  · intro r r' _ _ hsame l hl
    cases l with
    | sessions => exact hsame .sessions hl
    | current => exact congrArg write (hsame .current h)
  · intro r _ l hl
    cases l with
    | sessions => rfl
    | current => exact absurd h hl

/-- Giving back the last lock, or the last two. -/
theorem twoPhase_release_sessions (answer : RegistryAnswer) (released : Bool) :
    (.release .sessions (.returned answer) : RegistryCode).TwoPhase (registryParts baseUrl)
      {.sessions} released := by
  have hlast : ({RegistryLock.sessions} : Finset RegistryLock).erase .sessions = ∅ := by decide
  exact ⟨Finset.mem_singleton_self _, hlast⟩

theorem twoPhase_release_both (answer : RegistryAnswer) (released : Bool) :
    (.release .current (.release .sessions (.returned answer)) : RegistryCode).TwoPhase
      (registryParts baseUrl) {.current, .sessions} released := by
  have hfirst : ({.current, .sessions} : Finset RegistryLock).erase .current = {.sessions} := by
    decide
  refine ⟨by decide, ?_⟩
  rw [hfirst]
  exact twoPhase_release_sessions answer _

theorem twoPhase_getSession (id : SessionId) :
    (getSession id).TwoPhase (registryParts baseUrl) ∅ false := by
  refine ⟨rfl, rfl, confines_read_sessions (by decide) ?_, fun r _ => twoPhase_release_sessions _ _⟩
  intro r r' hsame
  rw [hsame]

theorem twoPhase_activeSession : activeSession.TwoPhase (registryParts baseUrl) ∅ false := by
  refine ⟨rfl, rfl, confines_read_current (by decide) ?_, fun r _ => ⟨by decide, ?_⟩⟩
  · intro r r' hsame
    rw [hsame]
  · have hempty : (insert RegistryLock.current (∅ : Finset RegistryLock)).erase .current = ∅ := by
      decide
    rw [hempty]
    cases r.current.lock.bind fun current => current with
    | none => rfl
    | some id => exact twoPhase_getSession id

theorem twoPhase_registerSession (session : Session)
    (answer : Except SessionError Session → RegistryAnswer) :
    (registerSession session answer).TwoPhase (registryParts baseUrl) ∅ false := by
  refine ⟨rfl, rfl, confines_read_sessions (by decide) ?_, fun r _ => ?_⟩
  · intro r r' hsame
    rw [hsame]
  · rw [insert_empty_eq]
    beta_reduce
    cases r.sessions.lock with
    | none => exact twoPhase_release_sessions _ _
    | some sessions =>
      dsimp only
      split_ifs with hid
      · exact twoPhase_release_sessions _ _
      · refine ⟨rfl, ?_, fun r _ => ⟨rfl, rfl, confines_read_current (by decide) ?_, fun r _ => ?_⟩⟩
        · exact confines_write_sessions (by decide)
            (fun m => m.store (m.value.insert session.id session)) fun _ _ _ => rfl
        · intro r r' hsame
          rw [hsame]
        · beta_reduce
          cases r.current.lock with
          | none => exact twoPhase_release_both _ _
          | some current =>
            refine ⟨rfl, ?_, fun r _ => twoPhase_release_both _ _⟩
            exact confines_write_current (by decide) (fun m => m.store (some session.id)) _

theorem twoPhase_closeSession (id : SessionId) :
    (closeSession id).TwoPhase (registryParts baseUrl) ∅ false := by
  refine ⟨rfl, rfl, confines_read_sessions (by decide) ?_, fun r _ => ?_⟩
  · intro r r' hsame
    rw [hsame]
  · rw [insert_empty_eq]
    beta_reduce
    cases r.sessions.lock with
    | none => exact twoPhase_release_sessions _ _
    | some sessions =>
      refine ⟨rfl, ?_, fun r _ => ?_⟩
      · refine confines_write_sessions (by decide) (fun m => m.store (m.value.erase id)) ?_
        intro r r' hsame
        rw [hsame]
      · beta_reduce
        cases r.sessions.value.lookup id with
        | none => exact twoPhase_release_sessions _ _
        | some session =>
          refine ⟨rfl, rfl, confines_read_current (by decide) ?_, fun r _ => ?_⟩
          · intro r r' hsame
            rw [hsame]
          · beta_reduce
            cases r.current.lock with
            | none => exact twoPhase_release_both _ _
            | some current =>
              dsimp only
              split_ifs with hid
              · refine ⟨rfl, ?_, fun r _ => twoPhase_release_both _ _⟩
                exact confines_write_current (by decide) (fun m => m.store none) _
              · exact twoPhase_release_both _ _

theorem twoPhase_openSession (drawn : SessionId) (port : UInt16) :
    (RegistryCode.openSession drawn port).TwoPhase (registryParts baseUrl) ∅ false := by
  refine ⟨rfl, Parts.confines_read _ ?_, fun r _ => twoPhase_registerSession _ _⟩
  intro r r' hr hr' _
  have hbase : r.publicBaseUrl = r'.publicBaseUrl := Eq.trans hr (Eq.symm hr')
  rw [hbase]

end RegistryCode

theorem RegistryOperation.twoPhase_code (baseUrl : String) (op : RegistryOperation) :
    op.code.TwoPhase (registryParts baseUrl) ∅ false := by
  cases op with
  | change call =>
    cases call with
    | openSession drawn port => exact RegistryCode.twoPhase_openSession drawn port
    | registerSession session => exact RegistryCode.twoPhase_registerSession session _
    | closeSession id => exact RegistryCode.twoPhase_closeSession id
  | getSession id => exact RegistryCode.twoPhase_getSession id
  | activeSession => exact RegistryCode.twoPhase_activeSession

/-! ### Operations in one step, and `active_session` in two -/

/-- What is left of an operation. Only `active_session` can be in the middle. -/
inductive RegistryTask where
  | called (op : RegistryOperation)
  | found (id : SessionId)
  | returned (answer : RegistryAnswer)

namespace RegistryTask

def isReturned : RegistryTask → Bool
  | .returned _ => true
  | _ => false

def step (r : InMemorySessionRegistry) :
    RegistryTask → Option (InMemorySessionRegistry × RegistryTask)
  | .called .activeSession =>
    some (r, match r.current.lock.bind fun current => current with
      | none => .returned (.session none)
      | some id => .found id)
  | .called op => some ((op.perform r).1, .returned (op.perform r).2)
  | .found id => some (r, .returned (.session (r.getSession id)))
  | .returned _ => none

end RegistryTask

structure AtomicRegistry (ι : Type*) where
  registry : InMemorySessionRegistry
  tasks : ι → Option RegistryTask

variable {ι : Type*}

namespace AtomicRegistry

variable [DecidableEq ι]

def withTask (u : AtomicRegistry ι) (i : ι) (out : InMemorySessionRegistry × RegistryTask) :
    AtomicRegistry ι :=
  ⟨out.1, Function.update u.tasks i (some out.2)⟩

def step (u : AtomicRegistry ι) : Event ι RegistryOperation → Option (AtomicRegistry ι)
  | .start i op =>
    if (u.tasks i).all RegistryTask.isReturned then
      some (u.withTask i (u.registry, .called op))
    else none
  | .advance i => (u.tasks i).bind fun task => (task.step u.registry).map (u.withTask i)

end AtomicRegistry

def atomicRegistry (ι : Type*) [DecidableEq ι] (url : String) :
    Transition.System (AtomicRegistry ι) (Event ι RegistryOperation) :=
  ⟨⟨.new url, fun _ => none⟩, AtomicRegistry.step⟩

/-- The code that a task still has to run. -/
inductive Runs (baseUrl : String) : RegistryCode → RegistryTask → Prop where
  | called (op : RegistryOperation) : Runs baseUrl op.code (.called op)
  | opening (drawn : SessionId) (port : UInt16) :
    Runs baseUrl (RegistryCode.registerSession (Session.new drawn port baseUrl) fun result =>
      .session result.toOption) (.called (.change (.openSession drawn port)))
  | found (id : SessionId) : Runs baseUrl (RegistryCode.getSession id) (.found id)
  | returned (answer : RegistryAnswer) : Runs baseUrl (.returned answer) (.returned answer)

namespace Runs

variable {baseUrl : String} {r r' : InMemorySessionRegistry} {p p' : RegistryCode}
  {task : RegistryTask}

theorem isReturned_eq (h : Runs baseUrl p task) : p.isReturned = task.isReturned := by
  cases h with
  | called op =>
    cases op with
    | change call => cases call <;> rfl
    | _ => rfl
  | _ => rfl

/-- A section that is a whole operation. -/
theorem eq_of_encloses (h : p.Encloses .sessions) (hp : p.TwoPhase (registryParts baseUrl) ∅ false)
    (hr : r.publicBaseUrl = baseUrl) (hout : p.atomically r = some (r', p')) :
    r'.publicBaseUrl = baseUrl ∧ r' = (p.runAlone r).1 ∧ p' = .returned (p.runAlone r).2 := by
  rw [Program.atomically_of_encloses h hp hr] at hout
  obtain ⟨rfl, rfl⟩ := Prod.mk.inj (Option.some.inj hout)
  exact ⟨Program.valid_runAlone hp hr, rfl, rfl⟩

theorem eq_returned {answer : RegistryAnswer} (h : Runs baseUrl (.returned answer) task) :
    task = .returned answer := by
  have hreturned := h.isReturned_eq
  generalize hp : (.returned answer : RegistryCode) = p at h
  cases h with
  | returned answer' => rw [Program.returned.inj hp]
  | _ => exact absurd hreturned (by simp [Program.isReturned, RegistryTask.isReturned])

theorem atomically_active (r : InMemorySessionRegistry) :
    RegistryCode.activeSession.atomically r =
      some (r, match r.current.lock.bind fun current => current with
        | none => .returned (.session none)
        | some id => RegistryCode.getSession id) := by
  have hempty : ({RegistryLock.current} : Finset RegistryLock).erase .current = ∅ := by decide
  rw [RegistryCode.activeSession, Program.read, Program.atomically, Program.finish, Program.finish,
    if_pos hempty]
  rfl

/-- A section is one step of the task, or nothing that the task sees. -/
theorem step (h : Runs baseUrl p task) (hr : r.publicBaseUrl = baseUrl)
    (hp : p.atomically r = some (r', p')) :
    r'.publicBaseUrl = baseUrl ∧ ((r' = r ∧ Runs baseUrl p' task) ∨
      ∃ task', task.step r = some (r', task') ∧ Runs baseUrl p' task') := by
  cases h with
  | called op =>
    cases op with
    | change call =>
      cases call with
      | openSession drawn port =>
        obtain ⟨rfl, rfl⟩ := Prod.mk.inj (Option.some.inj hp)
        refine ⟨hr, Or.inl ⟨rfl, ?_⟩⟩
        beta_reduce
        rw [hr]
        exact .opening drawn port
      | registerSession session =>
        obtain ⟨hr', rfl, rfl⟩ := eq_of_encloses (RegistryCode.encloses_registerSession session _)
          (RegistryCode.twoPhase_registerSession session _) hr hp
        refine ⟨hr', Or.inr ?_⟩
        rw [RegistryCode.runAlone_registerSession]
        exact ⟨_, rfl, .returned _⟩
      | closeSession id =>
        obtain ⟨hr', rfl, rfl⟩ := eq_of_encloses (RegistryCode.encloses_closeSession id)
          (RegistryCode.twoPhase_closeSession id) hr hp
        refine ⟨hr', Or.inr ?_⟩
        rw [RegistryCode.runAlone_closeSession]
        exact ⟨_, rfl, .returned _⟩
    | getSession id =>
      obtain ⟨hr', rfl, rfl⟩ := eq_of_encloses (RegistryCode.encloses_getSession id)
        (RegistryCode.twoPhase_getSession id) hr hp
      exact ⟨hr', Or.inr ⟨_, rfl, .returned _⟩⟩
    | activeSession =>
      rw [RegistryOperation.code, atomically_active] at hp
      obtain ⟨rfl, rfl⟩ := Prod.mk.inj (Option.some.inj hp)
      refine ⟨hr, Or.inr ⟨_, rfl, ?_⟩⟩
      cases r.current.lock.bind fun current => current with
      | none => exact .returned _
      | some id => exact .found id
  | opening drawn port =>
    obtain ⟨hr', rfl, rfl⟩ := eq_of_encloses (RegistryCode.encloses_registerSession _ _)
      (RegistryCode.twoPhase_registerSession _ _) hr hp
    refine ⟨hr', Or.inr ?_⟩
    rw [RegistryCode.runAlone_registerSession, ← hr]
    exact ⟨_, rfl, .returned _⟩
  | found id =>
    obtain ⟨hr', rfl, rfl⟩ := eq_of_encloses (RegistryCode.encloses_getSession id)
      (RegistryCode.twoPhase_getSession id) hr hp
    exact ⟨hr', Or.inr ⟨_, rfl, .returned _⟩⟩
  | returned answer => exact absurd hp (by simp [Program.atomically])

end Runs

/-- Both have the same registry, and every task runs the code that it still has to run. -/
structure Tracks (baseUrl : String)
    (t : AtomicState ι InMemorySessionRegistry RegistryLock RegistryAnswer) (u : AtomicRegistry ι) :
    Prop where
  registry : t.shared = u.registry
  valid : u.registry.publicBaseUrl = baseUrl
  tasks : ∀ i, Option.Rel (Runs baseUrl) (t.callers i) (u.tasks i)

namespace Tracks

variable {baseUrl url : String}
  {t t' : AtomicState ι InMemorySessionRegistry RegistryLock RegistryAnswer} {u : AtomicRegistry ι}

theorem all_isReturned (h : Tracks baseUrl t u) (i : ι) :
    (u.tasks i).all RegistryTask.isReturned = (t.callers i).all Program.isReturned := by
  rcases hp : t.callers i, hi : u.tasks i, h.tasks i with ⟨_, _, hrel⟩
  cases hrel with
  | none => rfl
  | some hruns => exact hruns.isReturned_eq.symm

variable [DecidableEq ι]

theorem withTask (h : Tracks baseUrl t u) (i : ι) {r : InMemorySessionRegistry} {p : RegistryCode}
    {task : RegistryTask} (hr : r.publicBaseUrl = baseUrl) (hp : Runs baseUrl p task) :
    Tracks baseUrl (t.withCaller i (r, p)) (u.withTask i (r, task)) := by
  refine ⟨rfl, hr, fun j => ?_⟩
  dsimp only [AtomicState.withCaller, AtomicRegistry.withTask]
  by_cases hj : j = i
  · rw [hj, Function.update_self, Function.update_self]
    exact .some hp
  · rw [Function.update_of_ne hj, Function.update_of_ne hj]
    exact h.tasks j

/-- A task that sees nothing of a section stays where it is. -/
theorem withCaller (h : Tracks baseUrl t u) {i : ι} {p : RegistryCode} {task : RegistryTask}
    (hi : u.tasks i = some task) (hp : Runs baseUrl p task) :
    Tracks baseUrl (t.withCaller i (t.shared, p)) u := by
  have hsame : u.withTask i (u.registry, task) = u := by
    rw [AtomicRegistry.withTask, ← hi, Function.update_eq_self]
  rw [h.registry, ← hsame]
  exact h.withTask i h.valid hp

theorem step {e : Event ι RegistryOperation} (h : Tracks baseUrl t u)
    (hstep : atomicStep RegistryOperation.code t e = some t') :
    ∃ fs u', (atomicRegistry ι url).run u fs = some u' ∧
      fs.filterMap Event.call? = e.call?.toList ∧ Tracks baseUrl t' u' := by
  cases e with
  | start i op =>
    simp only [atomicStep] at hstep
    split_ifs at hstep with hreturned
    rw [← Option.some.inj hstep, h.registry]
    refine ⟨[.start i op], _, ?_, rfl, h.withTask i h.valid (.called op)⟩
    rw [Transition.System.run_singleton]
    exact if_pos ((h.all_isReturned i).trans hreturned)
  | advance i =>
    obtain ⟨p, hp, hstep⟩ := Option.bind_eq_some_iff.mp hstep
    obtain ⟨⟨r, p'⟩, hout, rfl⟩ := Option.map_eq_some_iff.mp hstep
    obtain ⟨task, hi, hruns⟩ : ∃ task, u.tasks i = some task ∧ Runs baseUrl p task := by
      have hrel := h.tasks i
      rw [hp] at hrel
      generalize htask : u.tasks i = o at hrel
      cases hrel with
      | some hruns => exact ⟨_, rfl, hruns⟩
    have hvalid : t.shared.publicBaseUrl = baseUrl := by rw [h.registry, h.valid]
    obtain ⟨hr, ⟨hsame, hruns'⟩ | ⟨task', htask, hruns'⟩⟩ := hruns.step hvalid hout
    · rw [hsame]
      exact ⟨[], u, rfl, rfl, h.withCaller hi hruns'⟩
    · refine ⟨[.advance i], _, ?_, rfl, h.withTask i hr hruns'⟩
      rw [Transition.System.run_singleton]
      change (u.tasks i).bind _ = _
      rw [hi, Option.bind_some, ← h.registry, htask, Option.map_some]

end Tracks

theorem simulation_tracks (ι : Type*) [DecidableEq ι] (url : String) :
    Transition.Simulation (atomicSystem RegistryOperation.code (.new url)) (atomicRegistry ι url)
      Event.call? Event.call? (Tracks (InMemorySessionRegistry.new url).publicBaseUrl) := by
  constructor
  · exact ⟨rfl, rfl, fun i => .none⟩
  · intro t u e t' _ h hstep
    exact h.step hstep

/-- The registry with its locks against the one whose operations are single steps. -/
def Matches [DecidableEq ι] (url : String)
    (s : State ι InMemorySessionRegistry RegistryLock RegistryAnswer) (u : AtomicRegistry ι) : Prop :=
  ∃ t, (atomicSystem RegistryOperation.code (.new url)).Reachable t ∧
    (∃ held, Matched (registryParts (InMemorySessionRegistry.new url).publicBaseUrl) held s t) ∧
      Tracks (InMemorySessionRegistry.new url).publicBaseUrl t u

theorem simulation_matches (ι : Type*) [DecidableEq ι] (url : String) :
    Transition.Simulation (registryTasks ι url) (atomicRegistry ι url) Event.call? Event.call?
      (Matches url) := by
  have hbase : (registryParts (InMemorySessionRegistry.new url).publicBaseUrl).Valid (.new url) := rfl
  exact (Locks.simulation (RegistryOperation.twoPhase_code _) hbase).trans (simulation_tracks ι url)

namespace Matches

variable [DecidableEq ι] {url : String}
  {s : State ι InMemorySessionRegistry RegistryLock RegistryAnswer} {u : AtomicRegistry ι}

theorem answer (h : Matches url s u) {i : ι} {answer : RegistryAnswer}
    (hi : s.callers i = some (.returned answer)) : u.tasks i = some (.returned answer) := by
  obtain ⟨t, -, ⟨held, hmatched⟩, htracks⟩ := h
  have hrel := htracks.tasks i
  rw [hmatched.answer hi] at hrel
  generalize htask : u.tasks i = o at hrel
  cases hrel with
  | some hruns => rw [hruns.eq_returned]

theorem waiting (h : Matches url s u) {i : ι} (hi : s.callers i = none) : u.tasks i = none := by
  obtain ⟨t, -, ⟨held, hmatched⟩, htracks⟩ := h
  have hrel := htracks.tasks i
  rw [(hmatched.waiting i hi).1] at hrel
  generalize htask : u.tasks i = o at hrel
  cases hrel with
  | none => rfl

theorem registry (h : Matches url s u) (hfree : ∀ lock, s.holder lock = none) :
    s.shared = u.registry := by
  obtain ⟨t, -, ⟨held, hmatched⟩, htracks⟩ := h
  exact (hmatched.shared_eq hfree).trans htracks.registry

end Matches

/-- Called in any order from any tasks, the registry with its two locks behaves as one on which every
operation is a single step, and `active_session` two: the same calls have the same answers at every
moment, and when nobody holds a lock, the registry is the same. -/
theorem registry_sections (ι : Type*) [DecidableEq ι] (url : String) :
    ∃ R, Transition.Simulation (registryTasks ι url) (atomicRegistry ι url) Event.call? Event.call? R ∧
      ∀ s u, R s u →
        (∀ i answer, s.callers i = some (.returned answer) → u.tasks i = some (.returned answer)) ∧
          ((∀ lock, s.holder lock = none) → s.shared = u.registry) :=
  ⟨Matches url, simulation_matches ι url, fun _ _ h => ⟨fun _ _ => h.answer, h.registry⟩⟩

end Mobilink.Server
