import Mobilink.Library.Provenance
import Mobilink.Server.ActiveSession

/-! The session registry over whole runs: what its map and its owner slot hold after any calls, and
what a refused call, or a call for another session than the owner's, leaves alone. -/
namespace Mobilink.Server
open Mobilink.Core

namespace RegistryCall

variable {r : InMemorySessionRegistry}

/-- The call registers the session under the id. -/
def Registers (r : InMemorySessionRegistry) (call : RegistryCall) (entry : SessionId × Session) :
    Prop :=
  call.request r.publicBaseUrl = .opens entry.2 ∧ entry.2.id = entry.1 ∧ call.succeeds r = true

/-- The call closes the session under the id. -/
def Closes (r : InMemorySessionRegistry) (call : RegistryCall) (entry : SessionId × Session) :
    Prop :=
  call = .closeSession entry.1 ∧ call.succeeds r = true

theorem perform_of_fails (h : r.Healthy) {call : RegistryCall} (hfails : call.succeeds r = false) :
    call.perform r = r := by
  rcases perform_cases h call with ⟨-, hsame⟩ | ⟨_, -, hok, -⟩ | ⟨_, -, hok, -⟩
  · exact hsame
  · exact absurd (hok.symm.trans hfails) (by simp)
  · exact absurd (hok.symm.trans hfails) (by simp)

theorem healthy_perform (h : r.Healthy) (call : RegistryCall) : (call.perform r).Healthy := by
  rcases perform_cases h call with ⟨-, heq⟩ | ⟨_, -, -, -, heq⟩ | ⟨_, -, -, -, heq⟩
  · rw [heq]
    exact h
  · rw [heq]
    exact ⟨h.sessions, h.current⟩
  · rw [heq]
    exact ⟨h.sessions, h.current⟩

/-- What a call does to the entry of an id. -/
theorem lookup_perform_iff (h : r.Healthy) (call : RegistryCall) (entry : SessionId × Session) :
    (call.perform r).sessions.value.lookup entry.1 = some entry.2 ↔
      Registers r call entry ∨
        r.sessions.value.lookup entry.1 = some entry.2 ∧ ¬ Closes r call entry := by
  obtain ⟨id, session⟩ := entry
  unfold Registers Closes
  rcases perform_cases h call with ⟨hfails, heq⟩ | ⟨new, hrequest, hok, hnew, heq⟩ |
    ⟨closed, rfl, hok, -, heq⟩
  · rw [heq, hfails]
    simp
  · have hnot : ∀ id', call ≠ .closeSession id' := by
      rintro id' rfl
      exact absurd hrequest (by simp [request])
    rw [heq, hrequest, hok, Mutex.value_store]
    by_cases hid : new.id = id
    · rw [← hid, Finmap.lookup_insert, Finmap.lookup_eq_none.mpr hnew]
      constructor
      · intro hsame
        rw [Option.some.inj hsame]
        exact Or.inl ⟨rfl, rfl, rfl⟩
      · rintro (⟨hsame, -, -⟩ | ⟨hold, -⟩)
        · rw [Recency.Call.opens.inj hsame]
        · exact absurd hold (by simp)
    · rw [Finmap.lookup_insert_of_ne _ (fun he => hid he.symm)]
      constructor
      · exact fun hold => Or.inr ⟨hold, fun hclosed => hnot id hclosed.1⟩
      · rintro (⟨hsame, hid', -⟩ | ⟨hold, -⟩)
        · rw [Recency.Call.opens.inj hsame] at hid
          exact absurd hid' hid
        · exact hold
  · rw [heq, hok, Mutex.value_store]
    by_cases hid : closed = id
    · rw [hid, Finmap.lookup_erase]
      simp [request]
    · rw [Finmap.lookup_erase_ne (fun he => hid he.symm)]
      simp [request, hid]

end RegistryCall

open RegistryCall

theorem sound_performAll (url : String) (calls : List RegistryCall) :
    Sound (performAll (.new url) calls) := by
  induction calls using List.reverseRecOn with
  | nil => exact sound_new url
  | append_singleton past call ih =>
    rw [performAll, List.foldl_concat]
    exact ih.effect (effect_perform ih.healthy call)

/-- A call of the run registered the session under the id, and none has closed it since. -/
def Registered (url : String) (calls : List RegistryCall) (id : SessionId) (session : Session) :
    Prop :=
  Provenance.Alive perform Registers Closes (.new url) calls (id, session)

/-- The map holds the registered sessions and no others. -/
theorem getSession_performAll_iff (url : String) (calls : List RegistryCall) (id : SessionId)
    (session : Session) :
    (performAll (.new url) calls).getSession id = some session ↔ Registered url calls id session := by
  rw [InMemorySessionRegistry.getSession_eq (sound_performAll url calls).healthy]
  have hempty : ∀ entry : SessionId × Session,
      ¬ (InMemorySessionRegistry.new url).sessions.value.lookup entry.1 = some entry.2 := by
    simp [InMemorySessionRegistry.new]
  exact Provenance.mem_foldl_iff (fun (r : InMemorySessionRegistry) (entry : SessionId × Session) =>
    r.sessions.value.lookup entry.1 = some entry.2) (sound_new url) hempty
    (fun _ call h => h.effect (effect_perform h.healthy call))
    (fun _ call entry h => lookup_perform_iff h.healthy call entry) calls (id, session)

/-- Closing a session that does not own the host leaves it where it is. -/
theorem activeSession_closeSession {r : InMemorySessionRegistry} (h : r.Healthy) {id : SessionId}
    (hid : r.current.value ≠ some id) : (r.closeSession id).1.activeSession = r.activeSession := by
  by_cases hmem : id ∈ r.sessions.value
  · rw [InMemorySessionRegistry.activeSession_eq h]
    refine (InMemorySessionRegistry.activeSession_eq (healthy_perform h (.closeSession id))).trans ?_
    rw [perform, InMemorySessionRegistry.closeSession_found h hmem, if_neg hid]
    dsimp only
    rw [Mutex.value_store, Mutex.value_store]
    cases hc : r.current.value with
    | none => rfl
    | some owner =>
      have hne : owner ≠ id := fun he => hid (hc.trans (congrArg some he))
      rw [Option.bind_some, Option.bind_some, Finmap.lookup_erase_ne hne]
  · rw [InMemorySessionRegistry.closeSession_missing h hmem]

/-- After any calls: the owner slot is empty or names an open session, the open sessions are those
that were registered and not closed since, a call that fails changes nothing, and closing another
session than the owner's leaves the host where it is. -/
theorem registry_integrity (url : String) (calls : List RegistryCall) :
    let r := performAll (.new url) calls
    (∀ id, r.current.value = some id → r.getSession id ≠ none) ∧
      (∀ id session, r.getSession id = some session ↔ Registered url calls id session) ∧
      (∀ call : RegistryCall, call.succeeds r = false →
        (call.perform r).sessions.value = r.sessions.value ∧
          (call.perform r).current.value = r.current.value) ∧
      ∀ id, r.current.value ≠ some id → (r.closeSession id).1.activeSession = r.activeSession := by
  intro r
  have hsound : Sound r := sound_performAll url calls
  refine ⟨?_, getSession_performAll_iff url calls, ?_, ?_⟩
  · intro id hid
    rw [InMemorySessionRegistry.getSession_eq hsound.healthy, ne_eq, Finmap.lookup_eq_none, not_not]
    exact hsound.owner id hid
  · intro call hfails
    rw [perform_of_fails hsound.healthy hfails]
    exact ⟨rfl, rfl⟩
  · exact fun id hid => activeSession_closeSession hsound.healthy hid

end Mobilink.Server
