import Mathlib.Tactic.Abel
import Mobilink.Library.LockBounds
import Mobilink.Server.RegistryAtomic

/-! Every call of the registry returns, whatever the scheduler does, and then each has been performed
once. -/
namespace Mobilink.Server
open Mobilink.Core Locks

/-! ### How many steps an operation takes -/

namespace RegistryCode

theorem within_release_sessions (answer : RegistryAnswer) (n : ℕ) :
    (.release .sessions (.returned answer) : RegistryCode).Within (n + 1) := trivial

theorem within_release_both (answer : RegistryAnswer) (n : ℕ) :
    (.release .current (.release .sessions (.returned answer)) : RegistryCode).Within (n + 2) :=
  trivial

theorem within_getSession (id : SessionId) : (getSession id).Within 3 :=
  fun _ => within_release_sessions _ _

theorem within_activeSession : activeSession.Within 6 := by
  intro r
  beta_reduce
  cases r.current.lock.bind fun current => current with
  | none => trivial
  | some id => exact within_getSession id

theorem within_registerSession (session : Session)
    (answer : Except SessionError Session → RegistryAnswer) :
    (registerSession session answer).Within 8 := by
  intro r
  beta_reduce
  cases r.sessions.lock with
  | none => exact within_release_sessions _ _
  | some sessions =>
    dsimp only
    split_ifs with hid
    · exact within_release_sessions _ _
    · refine fun _ r => ?_
      beta_reduce
      cases r.current.lock with
      | none => exact within_release_both _ _
      | some current => exact fun _ => within_release_both _ _

theorem within_closeSession (id : SessionId) : (closeSession id).Within 8 := by
  intro r
  beta_reduce
  cases r.sessions.lock with
  | none => exact within_release_sessions _ _
  | some sessions =>
    intro r
    dsimp only
    cases r.sessions.value.lookup id with
    | none => exact within_release_sessions _ _
    | some session =>
      refine fun r => ?_
      beta_reduce
      cases r.current.lock with
      | none => exact within_release_both _ _
      | some current =>
        dsimp only
        split_ifs with hid
        · exact fun _ => within_release_both _ _
        · exact within_release_both _ _

end RegistryCode

theorem RegistryOperation.within_code (op : RegistryOperation) : op.code.Within 9 := by
  cases op with
  | change call =>
    cases call with
    | openSession drawn port => exact fun r => RegistryCode.within_registerSession _ _
    | registerSession session => exact (RegistryCode.within_registerSession _ _).mono (by omega)
    | closeSession id => exact (RegistryCode.within_closeSession id).mono (by omega)
  | getSession id => exact (RegistryCode.within_getSession id).mono (by omega)
  | activeSession => exact RegistryCode.within_activeSession.mono (by omega)

/-! ### What has been performed -/

def RegistryOperation.change? : RegistryOperation → Option RegistryCall
  | .change call => some call
  | _ => none

variable {ι : Type*}

/-- The calls among the events that may change the registry. -/
def changes (es : List (Event ι RegistryOperation)) : List RegistryCall :=
  (es.filterMap Event.call?).filterMap fun call => call.2.change?

theorem changes_append (es : List (Event ι RegistryOperation)) (e : Event ι RegistryOperation) :
    changes (es ++ [e]) = changes es ++ (e.call?.bind fun call => call.2.change?).toList := by
  rw [changes, List.filterMap_append, List.filterMap_append, changes]
  cases e with
  | advance i => rfl
  | start i op => cases op <;> rfl

/-- The change that a task has still to make. -/
def RegistryTask.owed : RegistryTask → Multiset RegistryCall
  | .called (.change call) => {call}
  | _ => 0

namespace AtomicRegistry

def owed (u : AtomicRegistry ι) (i : ι) : Multiset RegistryCall := (u.tasks i).elim 0 RegistryTask.owed

/-- Some of the changes that were asked for have been made one by one, and the others are owed. -/
def Accounts (url : String) (asked : List RegistryCall) (u : AtomicRegistry ι) : Prop :=
  ∃ (calls : List RegistryCall) (S : Finset ι),
    u.registry = RegistryCall.performAll (.new url) calls ∧ (∀ i ∉ S, u.tasks i = none) ∧
      (calls : Multiset RegistryCall) + ∑ i ∈ S, u.owed i = asked

variable [DecidableEq ι]

theorem owed_withTask (u : AtomicRegistry ι) (i : ι) (out : InMemorySessionRegistry × RegistryTask) :
    (u.withTask i out).owed = Function.update u.owed i out.2.owed := by
  funext j
  by_cases hj : j = i
  · simp [hj, owed, withTask]
  · simp [hj, owed, withTask]

/-- A task makes the changes `made`. -/
theorem Accounts.withTask {url : String} {asked asked' : List RegistryCall}
    {u : AtomicRegistry ι} (h : Accounts url asked u) (i : ι) {r : InMemorySessionRegistry}
    {task : RegistryTask} (made : List RegistryCall)
    (hr : r = RegistryCall.performAll u.registry made)
    (howed : (asked' : Multiset RegistryCall) + u.owed i = asked + (made + task.owed)) :
    Accounts url asked' (u.withTask i (r, task)) := by
  obtain ⟨calls, S, hregistry, hnone, hsum⟩ := h
  refine ⟨calls ++ made, insert i S, ?_, ?_, ?_⟩
  · rw [AtomicRegistry.withTask, hr, hregistry, RegistryCall.performAll, RegistryCall.performAll,
      RegistryCall.performAll, List.foldl_append]
  · intro j hj
    obtain ⟨hji, hjS⟩ := not_or.mp fun hmem => hj (Finset.mem_insert.mpr hmem)
    exact (Function.update_of_ne hji _ _).trans (hnone j hjS)
  · have hbefore : ∑ j ∈ S, u.owed j = u.owed i + ∑ j ∈ S \ {i}, u.owed j := by
      apply Finset.sum_eq_add_sum_sdiff_singleton
      intro hi
      rw [owed, hnone i hi, Option.elim_none]
    rw [owed_withTask, Finset.sum_update_of_mem (Finset.mem_insert_self i S),
      Finset.insert_sdiff_of_mem S (Finset.mem_singleton_self i), ← Multiset.coe_add]
    rw [← hsum, hbefore] at howed
    apply add_right_cancel (b := u.owed i)
    rw [howed]
    abel

theorem Accounts.step {url : String} {es : List (Event ι RegistryOperation)}
    {u u' : AtomicRegistry ι} {e : Event ι RegistryOperation} (h : Accounts url (changes es) u)
    (hstep : u.step e = some u') : Accounts url (changes (es ++ [e])) u' := by
  rw [changes_append]
  cases e with
  | start i op =>
    simp only [AtomicRegistry.step] at hstep
    split_ifs at hstep with hreturned
    rw [← Option.some.inj hstep]
    have hnothing : u.owed i = 0 := by
      rw [owed]
      cases htask : u.tasks i with
      | none => rfl
      | some task =>
        rw [htask] at hreturned
        cases task with
        | returned answer => rfl
        | _ => exact absurd hreturned (by simp [RegistryTask.isReturned])
    refine h.withTask i [] rfl ?_
    rw [hnothing, ← Multiset.coe_add]
    cases op <;> simp [RegistryTask.owed, Event.call?, RegistryOperation.change?]
  | advance i =>
    obtain ⟨task, htask, hstep⟩ := Option.bind_eq_some_iff.mp hstep
    obtain ⟨⟨r, task'⟩, hout, rfl⟩ := Option.map_eq_some_iff.mp hstep
    have howed : u.owed i = task.owed := by rw [owed, htask, Option.elim_some]
    cases task with
    | called op =>
      cases op with
      | change call =>
        obtain ⟨rfl, rfl⟩ := Prod.mk.inj (Option.some.inj hout)
        refine h.withTask i [call] ?_ ?_
        · cases call <;> rfl
        · rw [howed]
          simp [RegistryTask.owed, Event.call?]
      | getSession id =>
        obtain ⟨rfl, rfl⟩ := Prod.mk.inj (Option.some.inj hout)
        refine h.withTask i [] rfl ?_
        rw [howed]
        simp [RegistryTask.owed, Event.call?]
      | activeSession =>
        obtain ⟨rfl, rfl⟩ := Prod.mk.inj (Option.some.inj hout)
        refine h.withTask i [] rfl ?_
        rw [howed]
        cases u.registry.current.lock.bind fun current => current <;>
          simp [RegistryTask.owed, Event.call?]
    | found id =>
      obtain ⟨rfl, rfl⟩ := Prod.mk.inj (Option.some.inj hout)
      refine h.withTask i [] rfl ?_
      rw [howed]
      simp [RegistryTask.owed, Event.call?]
    | returned answer => exact absurd hout (by simp [RegistryTask.step])

end AtomicRegistry

/-! ### Every call returns, and is performed once -/

/-- Nothing is owed when nobody is in the middle of a call. -/
theorem exists_calls_of_accounts {url : String} {asked : List RegistryCall}
    {u : AtomicRegistry ι} (h : u.Accounts url asked) (hnothing : ∀ i, u.owed i = 0) :
    ∃ calls : List RegistryCall, calls.Perm asked ∧
      u.registry = RegistryCall.performAll (.new url) calls := by
  obtain ⟨calls, S, hregistry, -, hsum⟩ := h
  rw [Finset.sum_eq_zero fun i _ => hnothing i, add_zero] at hsum
  exact ⟨calls, Multiset.coe_eq_coe.mp hsum, hregistry⟩

section

variable [DecidableEq ι] {url : String} {es : List (Event ι RegistryOperation)}
  {s : State ι InMemorySessionRegistry RegistryLock RegistryAnswer}

theorem accounts_of_run {u : AtomicRegistry ι}
    (h : (atomicRegistry ι url).run (atomicRegistry ι url).init es = some u) :
    u.Accounts url (changes es) := by
  refine Transition.System.run_induction (P := fun past u => u.Accounts url (changes past)) ?_ ?_ h
  · exact ⟨[], ∅, rfl, fun _ _ => rfl, by simp [changes]⟩
  · exact fun past u e u' _ hu hstep => hu.step hstep

theorem free_of_returned (hs : (registryTasks ι url).Reachable s) (hdone : ∀ i, ¬ s.Unfinished i)
    (lock : RegistryLock) : s.holder lock = none := by
  by_contra hheld
  obtain ⟨i, hi⟩ := Option.ne_none_iff_exists'.mp hheld
  exact hdone i
    (unfinished_of_holder (disciplined_of_reachable RegistryOperation.ordered_code hs) hi)

/-- Whatever the scheduler does, no task makes more than nine steps for a call, and from everywhere
the tasks can go on, without a further call, until all calls have returned. -/
theorem registry_returns (h : (registryTasks ι url).run (registryTasks ι url).init es = some s) :
    (∀ i, es.countP (Event.advancesOf i) ≤ 9 * es.countP (Event.startsOf i)) ∧
      ∃ fs t, (registryTasks ι url).run s fs = some t ∧ (∀ e ∈ fs, Event.isAdvance e = true) ∧
        ∀ i, ¬ t.Unfinished i :=
  ⟨countP_advancesOf_le RegistryOperation.within_code h,
    exists_all_returned RegistryOperation.within_code RegistryOperation.ordered_code ⟨es, h⟩⟩

/-- When all calls have returned, nobody holds a lock, and the registry is what the same calls leave
behind in some order: none is lost, and none is made twice. -/
theorem registry_performed (h : (registryTasks ι url).run (registryTasks ι url).init es = some s)
    (hdone : ∀ i, ¬ s.Unfinished i) :
    (∀ lock, s.holder lock = none) ∧ ∃ calls : List RegistryCall, calls.Perm (changes es) ∧
      s.shared = RegistryCall.performAll (.new url) calls := by
  have hfree := free_of_returned ⟨es, h⟩ hdone
  obtain ⟨fs, u, hfs, hcalls, hmatches⟩ := (simulation_matches ι url).run
    (registryTasks ι url).reachable_init (simulation_matches ι url).init h
  have hasked : changes fs = changes es := by rw [changes, hcalls, changes]
  have hnothing : ∀ i, u.owed i = 0 := by
    intro i
    rw [AtomicRegistry.owed]
    cases hp : s.callers i with
    | none => rw [hmatches.waiting hp, Option.elim_none]
    | some p =>
      cases p with
      | returned answer =>
        rw [hmatches.answer hp, Option.elim_some]
        rfl
      | _ => exact absurd ⟨_, hp, rfl⟩ (hdone i)
  obtain ⟨calls, hperm, hregistry⟩ := exists_calls_of_accounts (accounts_of_run hfs) hnothing
  exact ⟨hfree, calls, hasked ▸ hperm, (hmatches.registry hfree).trans hregistry⟩

/-- A task that has `sessions` keeps another one waiting; nine steps of each bring both home. -/
theorem registry_returns_contended :
    let older : SessionId := ⟨⟨Vector.replicate 16 1⟩⟩
    let newer : SessionId := ⟨⟨Vector.replicate 16 2⟩⟩
    let tasks := registryTasks Bool "https://my-vps.com"
    let events : List (Event Bool RegistryOperation) :=
      [.start true (.change (.openSession older 3000)), .advance true, .advance true,
        .start false (.change (.openSession newer 8080)), .advance false]
    ∃ s fs t, tasks.run tasks.init events = some s ∧ s.holder .sessions = some true ∧
      tasks.run s fs = some t ∧ ∀ i, ¬ t.Unfinished i := by
  intro older newer tasks events
  have hheld : (tasks.run tasks.init events).map (fun s => s.holder .sessions) = some (some true) := by
    decide
  obtain ⟨s, hs, hholder⟩ := Option.map_eq_some_iff.mp hheld
  obtain ⟨-, fs, t, hfs, -, ht⟩ := registry_returns hs
  exact ⟨s, fs, t, hs, hholder, hfs, ht⟩

/-- The task that has called first gets to the map last, and its session owns the host. -/
theorem registry_performed_overtaken :
    let older : SessionId := ⟨⟨Vector.replicate 16 1⟩⟩
    let newer : SessionId := ⟨⟨Vector.replicate 16 2⟩⟩
    let tasks := registryTasks Bool "https://my-vps.com"
    let asked : List RegistryCall := [.openSession older 3000, .openSession newer 8080]
    let events : List (Event Bool RegistryOperation) :=
      [.start true (.change (.openSession older 3000)), .advance true,
        .start false (.change (.openSession newer 8080))] ++
        List.replicate 9 (.advance false) ++ List.replicate 8 (.advance true)
    ∃ s calls, tasks.run tasks.init events = some s ∧ s.shared.current.value = some older ∧
      calls.Perm asked ∧ s.shared = RegistryCall.performAll (.new "https://my-vps.com") calls := by
  intro older newer tasks asked events
  have hend : (tasks.run tasks.init events).map (fun s => ((s.callers true).all Program.isReturned,
      (s.callers false).all Program.isReturned, s.shared.current.value)) =
      some (true, true, some older) := by decide
  obtain ⟨s, hs, hfacts⟩ := Option.map_eq_some_iff.mp hend
  simp only [Prod.mk.injEq] at hfacts
  obtain ⟨htrue, hfalse, howner⟩ := hfacts
  have hdone : ∀ i, ¬ s.Unfinished i := by
    rintro i ⟨p, hp, hunfinished⟩
    cases i with
    | false => simp [hp, hunfinished] at hfalse
    | true => simp [hp, hunfinished] at htrue
  obtain ⟨-, calls, hperm, hcalls⟩ := registry_performed hs hdone
  exact ⟨s, calls, hs, howner, hperm, hcalls⟩

end

end Mobilink.Server
