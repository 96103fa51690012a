import Mobilink.Library.Transition
import Mobilink.Server.HostOwnership
import Mobilink.Server.ProxyRequest

/-! `active_session` among concurrent writers: it reads `current` and looks the id up under two
locks, one after the other, and any registry call can come in between. -/
namespace Mobilink.Server
open Mobilink.Core

/-- One call of `active_session`, cut between its two critical sections. -/
inductive Lookup where
  | idle
  | started
  | found (id : SessionId)
  | returned (value : Option Session)
  deriving DecidableEq

inductive LookupEvent where
  | start
  | readCurrent
  | getSession

namespace Lookup

def step (r : InMemorySessionRegistry) : Lookup → LookupEvent → Option Lookup
  | .idle, .start => some .started
  | .started, .readCurrent =>
    match r.current.lock with
    | some (some id) => some (.found id)
    | _ => some (.returned none)
  | .found id, .getSession => some (.returned (r.getSession id))
  | _, _ => none

/-- What a public request is at after its call of `active_session` came this far. -/
def resume (frame : List UInt8) : Lookup → Request
  | .idle => .idle
  | .started => .readCurrent frame
  | .found id => .getSession frame id
  | .returned (some session) => .lookupConnection frame session
  | .returned none => .failed (.pipeline .sessionNotFound)

/-- A request resolves its session by the two sections of a lookup. -/
theorem step_resume (proxy : ProxyState) (st : Stores) (frame : List UInt8) :
    (resume frame .started).step proxy st .readCurrent =
        (step st.registry .started .readCurrent).map (resume frame) ∧
      ∀ id, (resume frame (.found id)).step proxy st .getSession =
        (step st.registry (.found id) .getSession).map (resume frame) := by
  constructor
  · simp only [resume, Request.step, step]
    cases st.registry.current.lock with
    | none => rfl
    | some current => cases current <;> rfl
  · intro id
    simp only [resume, Request.step, step]
    cases st.registry.getSession id <;> rfl

/-- Without a registry call in between, the two sections are `active_session`. -/
theorem step_step_eq_activeSession (r : InMemorySessionRegistry) :
    ((step r .started .readCurrent).bind fun l =>
        match l with
        | .found id => step r (.found id) .getSession
        | l => some l) = some (.returned r.activeSession) := by
  unfold InMemorySessionRegistry.activeSession
  simp only [step]
  cases hc : r.current.lock with
  | none => rfl
  | some current => cases current <;> rfl

end Lookup

/-! ### What one registry call can do -/

/-- No lock is poisoned, and the owner of the host is one of the open sessions. -/
structure Sound (r : InMemorySessionRegistry) : Prop where
  healthy : r.Healthy
  owner : ∀ id, r.current.value = some id → id ∈ r.sessions.value

namespace RegistryCall

variable {r : InMemorySessionRegistry}

/-- A call is refused, opens a session that takes the host, or closes one. -/
inductive Effect (r : InMemorySessionRegistry) : RegistryCall → InMemorySessionRegistry → Prop where
  | refused {call : RegistryCall} : Effect r call r
  | opened {call : RegistryCall} (session : Session) (h : session.id ∉ r.sessions.value) :
    Effect r call { r with
      sessions := r.sessions.store (r.sessions.value.insert session.id session)
      current := r.current.store (some session.id) }
  | closed {id : SessionId} (h : id ∈ r.sessions.value) :
    Effect r (.closeSession id) { r with
      sessions := r.sessions.store (r.sessions.value.erase id)
      current := r.current.store (if r.current.value = some id then none else r.current.value) }

theorem effect_perform (h : r.Healthy) (call : RegistryCall) : Effect r call (call.perform r) := by
  rcases perform_cases h call with ⟨-, heq⟩ | ⟨session, -, -, hnew, heq⟩ | ⟨id, rfl, -, hid, heq⟩
  · rw [heq]
    exact .refused
  · rw [heq]
    exact .opened session hnew
  · rw [heq]
    exact .closed hid

end RegistryCall

open RegistryCall

theorem sound_new (url : String) : Sound (.new url) := by
  refine ⟨InMemorySessionRegistry.healthy_new url, ?_⟩
  intro id h
  exact absurd h (by simp [InMemorySessionRegistry.new])

variable {r r' : InMemorySessionRegistry} {call : RegistryCall}

theorem Sound.effect (h : Sound r) (he : Effect r call r') : Sound r' := by
  cases he with
  | refused => exact h
  | opened session hid =>
    refine ⟨⟨h.healthy.sessions, h.healthy.current⟩, ?_⟩
    intro id hcurrent
    have heq : session.id = id := Option.some.inj hcurrent
    rw [← heq, Mutex.value_store, Finmap.mem_insert]
    exact Or.inl rfl
  | @closed id hid =>
    refine ⟨⟨h.healthy.sessions, h.healthy.current⟩, ?_⟩
    intro id' hcurrent
    simp only [Mutex.value_store] at hcurrent ⊢
    split_ifs at hcurrent with hclosed
    have hne : id' ≠ id := by
      intro he
      exact hclosed (he ▸ hcurrent)
    exact Finmap.mem_erase.mpr ⟨hne, h.owner id' hcurrent⟩

theorem Sound.activeSession_eq_none_iff (h : Sound r) :
    r.activeSession = none ↔ r.current.value = none := by
  rw [InMemorySessionRegistry.activeSession_eq h.healthy]
  cases hc : r.current.value with
  | none => simp
  | some id =>
    have hid := h.owner id hc
    simpa [Finmap.lookup_eq_none] using hid

theorem Sound.activeSession_of_current (h : Sound r) {id : SessionId}
    (hc : r.current.value = some id) : r.activeSession = r.sessions.value.lookup id := by
  rw [InMemorySessionRegistry.activeSession_eq h.healthy, hc, Option.bind_some]

/-- Only closing the owner's session takes the host away. -/
theorem closes_owner_of_effect (he : Effect r call r') (howned : r.current.value ≠ none)
    (hfree : r'.current.value = none) :
    ∃ id, call = .closeSession id ∧ r.current.value = some id := by
  cases he with
  | refused => exact absurd hfree howned
  | opened session hid => exact absurd hfree (by simp)
  | @closed id hid =>
    simp only [Mutex.value_store] at hfree
    split_ifs at hfree with hclosed
    · exact ⟨id, rfl, hclosed⟩
    · exact absurd hfree howned

theorem current_of_closes_owner (h : Sound r) {id : SessionId} (hc : r.current.value = some id) :
    ((RegistryCall.closeSession id).perform r).current.value = none := by
  rw [perform, InMemorySessionRegistry.closeSession_found h.healthy (h.owner id hc)]
  simp [hc]

/-- What an id is looked up as after a call: nothing, the same as before, or the session that the
call has just made the owner. -/
theorem lookup_of_effect (h : Sound r) (he : Effect r call r') (id : SessionId) :
    r'.sessions.value.lookup id = none ∨
      r'.sessions.value.lookup id = r.sessions.value.lookup id ∨
      r'.activeSession = r'.sessions.value.lookup id := by
  have hsound := h.effect he
  cases he with
  | refused => exact Or.inr (Or.inl rfl)
  | opened session hid =>
    by_cases heq : session.id = id
    · right; right
      rw [← heq]
      exact hsound.activeSession_of_current rfl
    · right; left
      exact Finmap.lookup_insert_of_ne _ (fun hc => heq hc.symm)
  | @closed id' hid =>
    by_cases heq : id' = id
    · left
      rw [← heq]
      exact Finmap.lookup_erase _ _
    · right; left
      exact Finmap.lookup_erase_ne (fun hc => heq hc.symm)

/-! ### Lookups and registry calls in any order -/

/-- A registry and any number of callers that look its active session up. -/
structure Lookups where
  registry : InMemorySessionRegistry
  callers : ℕ → Lookup

inductive Section where
  | call (call : RegistryCall)
  | lookup (i : ℕ) (e : LookupEvent)

namespace Lookups

def step (s : Lookups) : Section → Option Lookups
  | .call call => some { s with registry := call.perform s.registry }
  | .lookup i e =>
    ((s.callers i).step s.registry e).map fun l =>
      { s with callers := Function.update s.callers i l }

/-- Every step is one critical section, so a run is an interleaving of all callers. -/
def system (url : String) : Transition.System Lookups Section :=
  ⟨⟨.new url, fun _ => .idle⟩, step⟩

/-- A run of the system in which the lookup `i` starts in `s`, passes `inside` and returns `value`
with the event `last`, from `t`. -/
structure Spans (url : String) (i : ℕ) (s s₁ : Lookups) (inside : List Section) (t : Lookups)
    (last : Section) (value : Option Session) : Prop where
  reachable : (system url).Reachable s
  start : (system url).step s (.lookup i .start) = some s₁
  inside : (system url).run s₁ inside = some t
  pending : ∀ v, t.callers i ≠ .returned v
  returns : ∃ s₂, (system url).step t last = some s₂ ∧ s₂.callers i = .returned value

/-- The value was true at some moment of the call, and is no miss where the host was owned. -/
def Linearizes (moments : Lookups → Prop) (value : Option Session) : Prop :=
  (∃ u, moments u ∧ u.registry.activeSession = value) ∧
    ((∀ u, moments u → u.registry.activeSession ≠ none) → value ≠ none ∧
      ∀ frame, Lookup.resume frame (.returned value) ≠ .failed (.pipeline .sessionNotFound))

/-- The session found in `current` is closed when its id is looked up, although the host was owned
at the start and no call has closed the session that owned it at that moment. -/
def Overtaken (url : String) (i : ℕ) (s₁ : Lookups) (inside : List Section) (t : Lookups) : Prop :=
  (∃ id, t.callers i = .found id ∧ id ∉ t.registry.sessions.value) ∧
    s₁.registry.current.value ≠ none ∧
    ∀ past id u, past ++ [.call (.closeSession id)] <+: inside →
      (system url).run s₁ past = some u → u.registry.current.value ≠ some id

variable {url : String} {i : ℕ} {s s' s₁ t : Lookups} {inside : List Section} {last : Section}
  {value : Option Session}

/-- A section is a call that leaves the callers alone, or one caller's that leaves the registry
alone. -/
theorem step_cases {e : Section} (h : (system url).step s e = some s') :
    (∃ call, e = .call call ∧ s'.registry = call.perform s.registry ∧ s'.callers = s.callers) ∨
    ∃ j ev l, e = .lookup j ev ∧ (s.callers j).step s.registry ev = some l ∧
      s'.registry = s.registry ∧ s'.callers = Function.update s.callers j l := by
  cases e with
  | call call =>
    rw [← Option.some.inj h]
    exact Or.inl ⟨call, rfl, rfl, rfl⟩
  | lookup j ev =>
    obtain ⟨l, hl, hs'⟩ := Option.map_eq_some_iff.mp h
    rw [← hs']
    exact Or.inr ⟨j, ev, l, rfl, hl, rfl, rfl⟩

theorem sound_of_reachable (hs : (system url).Reachable s) : Sound s.registry := by
  apply hs.invariant (sound_new url)
  intro s e t _ hsound hstep
  rcases step_cases hstep with ⟨call, -, hregistry, -⟩ | ⟨j, ev, l, -, -, hregistry, -⟩
  · rw [hregistry]
    exact hsound.effect (effect_perform hsound.healthy call)
  · rw [hregistry]
    exact hsound

/-- A caller that has read an id finds nothing under it, or what the host was routed to at some
moment since the call began. -/
def Tracked (url : String) (i : ℕ) (s₁ : Lookups) (past : List Section) (u : Lookups) : Prop :=
  ∀ id, u.callers i = .found id → u.registry.sessions.value.lookup id = none ∨
    ∃ w, (system url).Visited s₁ past w ∧
      w.registry.activeSession = u.registry.sessions.value.lookup id

/-- What `Lookup.step` does with the two stores' values. -/
theorem lookup_step_cases {r : InMemorySessionRegistry} (h : r.Healthy) {l l' : Lookup}
    {e : LookupEvent} (hl : l.step r e = some l') :
    (l = .idle ∧ l' = .started) ∨
    (l = .started ∧ ∃ id, r.current.value = some id ∧ l' = .found id) ∨
    (l = .started ∧ r.current.value = none ∧ l' = .returned none) ∨
    ∃ id, l = .found id ∧ l' = .returned (r.sessions.value.lookup id) := by
  unfold Lookup.step at hl
  split at hl
  · exact Or.inl ⟨rfl, (Option.some.inj hl).symm⟩
  · rw [Mutex.lock_eq_some h.current] at hl
    right
    cases hc : r.current.value with
    | none =>
      rw [hc] at hl
      exact Or.inr (Or.inl ⟨rfl, rfl, (Option.some.inj hl).symm⟩)
    | some id =>
      rw [hc] at hl
      exact Or.inl ⟨rfl, id, rfl, (Option.some.inj hl).symm⟩
  · rename_i id
    rw [InMemorySessionRegistry.getSession_eq h] at hl
    exact Or.inr (Or.inr (Or.inr ⟨id, rfl, (Option.some.inj hl).symm⟩))
  · exact absurd hl (by simp)

theorem tracked_step {past : List Section} {u u' : Lookups} {e : Section}
    (hu : Sound u.registry) (hrun : (system url).run s₁ (past ++ [e]) = some u')
    (h : Tracked url i s₁ past u) (hstep : (system url).step u e = some u') :
    Tracked url i s₁ (past ++ [e]) u' := by
  have hnow := Transition.System.visited_end hrun
  intro id hfound
  rcases step_cases hstep with ⟨call, -, hregistry, hcallers⟩ |
    ⟨j, ev, l, -, hl, hregistry, hcallers⟩
  · rw [hcallers] at hfound
    have heffect := effect_perform hu.healthy call
    rw [← hregistry] at heffect
    rcases lookup_of_effect hu heffect id with hnone | hsame | hactive
    · exact Or.inl hnone
    · rw [hsame]
      rcases h id hfound with hnone | ⟨w, hw, hvalue⟩
      · exact Or.inl hnone
      · exact Or.inr ⟨w, hw.append [e], hvalue⟩
    · exact Or.inr ⟨u', hnow, hactive⟩
  · by_cases hj : i = j
    · subst hj
      rw [hcallers, Function.update_self] at hfound
      rcases lookup_step_cases hu.healthy hl with ⟨-, hl'⟩ | ⟨-, id', hc, hl'⟩ | ⟨-, -, hl'⟩ |
        ⟨id', -, hl'⟩
      · exact absurd (hl'.symm.trans hfound) (by simp)
      · have hid : id' = id := Lookup.found.inj (hl'.symm.trans hfound)
        rw [hid, ← hregistry] at hc
        rw [← hregistry] at hu
        exact Or.inr ⟨u', hnow, hu.activeSession_of_current hc⟩
      · exact absurd (hl'.symm.trans hfound) (by simp)
      · exact absurd (hl'.symm.trans hfound) (by simp)
    · rw [hcallers, Function.update_of_ne hj] at hfound
      rw [hregistry]
      rcases h id hfound with hnone | ⟨w, hw, hvalue⟩
      · exact Or.inl hnone
      · exact Or.inr ⟨w, hw.append [e], hvalue⟩

namespace Spans

theorem reachable_start (h : Spans url i s s₁ inside t last value) :
    (system url).Reachable s₁ := h.reachable.step h.start

theorem started (h : Spans url i s s₁ inside t last value) : s₁.callers i = .started := by
  rcases step_cases h.start with ⟨call, he, -, -⟩ | ⟨j, ev, l, he, hl, -, hcallers⟩
  · exact absurd he (by simp)
  · obtain ⟨rfl, rfl⟩ := Section.lookup.inj he
    rw [hcallers, Function.update_self]
    cases hc : s.callers i with
    | idle =>
      rw [hc] at hl
      exact (Option.some.inj hl).symm
    | _ => simp [hc, Lookup.step] at hl

theorem tracked (h : Spans url i s s₁ inside t last value) : Tracked url i s₁ inside t := by
  apply Transition.System.run_induction (P := Tracked url i s₁) _ _ h.inside
  · intro id hfound
    exact absurd (h.started.symm.trans hfound) (by simp)
  · intro past u e u' hrun htracked hstep
    have hu := sound_of_reachable (h.reachable_start.run hrun)
    have hrun' : (system url).run s₁ (past ++ [e]) = some u' :=
      ((system url).run_append_iff _ _ _ _).mpr ⟨u, hrun, by simpa using hstep⟩
    exact tracked_step hu hrun' htracked hstep

/-- The last section reads an empty slot, or looks up the id that was read before. -/
theorem returns_cases (h : Spans url i s s₁ inside t last value) :
    (value = none ∧ t.registry.current.value = none) ∨
    ∃ id, t.callers i = .found id ∧ value = t.registry.sessions.value.lookup id := by
  have ht := sound_of_reachable (h.reachable_start.run h.inside)
  obtain ⟨s₂, hlast, hvalue⟩ := h.returns
  rcases step_cases hlast with ⟨call, -, -, hcallers⟩ | ⟨j, ev, l, -, hl, -, hcallers⟩
  · rw [hcallers] at hvalue
    exact absurd hvalue (h.pending value)
  · by_cases hj : i = j
    · subst hj
      rw [hcallers, Function.update_self] at hvalue
      rcases lookup_step_cases ht.healthy hl with ⟨-, hl'⟩ | ⟨-, id', -, hl'⟩ | ⟨-, hc, hl'⟩ |
        ⟨id', hfound, hl'⟩
      · exact absurd (hl'.symm.trans hvalue) (by simp)
      · exact absurd (hl'.symm.trans hvalue) (by simp)
      · exact Or.inl ⟨(Lookup.returned.inj (hl'.symm.trans hvalue)).symm, hc⟩
      · exact Or.inr ⟨id', hfound, (Lookup.returned.inj (hl'.symm.trans hvalue)).symm⟩
    · rw [hcallers, Function.update_of_ne hj] at hvalue
      exact absurd hvalue (h.pending value)

end Spans

/-- While no call closes the owner's session, the host stays owned. -/
theorem owned_of_no_close (hs : (system url).Reachable s₁)
    (howned : s₁.registry.current.value ≠ none)
    (hclose : ∀ past id u, past ++ [.call (.closeSession id)] <+: inside →
      (system url).run s₁ past = some u → u.registry.current.value ≠ some id)
    {u : Lookups} (hu : (system url).Visited s₁ inside u) : u.registry.current.value ≠ none := by
  obtain ⟨events, hinit, hrun⟩ := hu
  apply Transition.System.run_induction
    (P := fun past u => past <+: inside → u.registry.current.value ≠ none) _ _ hrun hinit
  · exact fun _ => howned
  · intro past u e u' hpast hu hstep hinside
    have hbefore := hu ((List.prefix_append past [e]).trans hinside)
    rcases step_cases hstep with ⟨call, he, hregistry, -⟩ | ⟨j, ev, l, -, -, hregistry, -⟩
    · intro hfree
      have heffect := effect_perform (sound_of_reachable (hs.run hpast)).healthy call
      rw [← hregistry] at heffect
      obtain ⟨id, hcall, hid⟩ := closes_owner_of_effect heffect hbefore hfree
      rw [he, hcall] at hinside
      exact hclose past id u hinside hpast hid
    · rw [hregistry]
      exact hbefore

/-- If the session that was read is gone and the lookup is not overtaken, the host was free at some
moment. -/
theorem exists_free (hs : (system url).Reachable s₁) {id : SessionId} (hfound : t.callers i = .found id)
    (hclosed : id ∉ t.registry.sessions.value) (hnot : ¬ Overtaken url i s₁ inside t) :
    ∃ u, (system url).Visited s₁ inside u ∧ u.registry.current.value = none := by
  by_contra hnever
  have howned : ∀ u, (system url).Visited s₁ inside u → u.registry.current.value ≠ none :=
    fun u hu hfree => hnever ⟨u, hu, hfree⟩
  refine hnot ⟨⟨id, hfound, hclosed⟩, howned s₁ ((system url).visited_start s₁ inside), ?_⟩
  intro past id' u hinit hrun hid'
  -- The moment right after the owner's session is closed.
  let u' : Lookups := { u with registry := (RegistryCall.closeSession id').perform u.registry }
  have hrun' : (system url).run s₁ (past ++ [.call (.closeSession id')]) = some u' :=
    ((system url).run_append_iff _ _ _ _).mpr ⟨u, hrun, rfl⟩
  exact howned u' ⟨_, hinit, hrun'⟩
    (current_of_closes_owner (sound_of_reachable (hs.run hrun)) hid')

/-- A lookup returns what was true at some moment of the call exactly when it is not overtaken by
calls that close the session it has read while another one takes the host over. -/
theorem linearizes_iff (h : Spans url i s s₁ inside t last value) :
    Linearizes ((system url).Visited s₁ inside) value ↔ ¬ Overtaken url i s₁ inside t := by
  have hs₁ := h.reachable_start
  have hsound : ∀ u, (system url).Visited s₁ inside u → Sound u.registry := by
    rintro u ⟨past, -, hrun⟩
    exact sound_of_reachable (hs₁.run hrun)
  constructor
  · rintro ⟨-, hmiss⟩ ⟨⟨id, hfound, hclosed⟩, howned, hclose⟩
    have hall : ∀ u, (system url).Visited s₁ inside u → u.registry.activeSession ≠ none := by
      intro u hu hnone
      exact owned_of_no_close hs₁ howned hclose hu
        ((hsound u hu).activeSession_eq_none_iff.mp hnone)
    rcases h.returns_cases with ⟨hvalue, -⟩ | ⟨id', hfound', hvalue⟩
    · exact (hmiss hall).1 hvalue
    · have hid : id' = id := Lookup.found.inj (hfound'.symm.trans hfound)
      rw [hid, Finmap.lookup_eq_none.mpr hclosed] at hvalue
      exact (hmiss hall).1 hvalue
  · intro hnot
    have hvisited : ∃ u, (system url).Visited s₁ inside u ∧ u.registry.activeSession = value := by
      have ht := Transition.System.visited_end h.inside
      rcases h.returns_cases with ⟨hvalue, hfree⟩ | ⟨id, hfound, hvalue⟩
      · exact ⟨t, ht, hvalue ▸ (hsound t ht).activeSession_eq_none_iff.mpr hfree⟩
      · rcases h.tracked id hfound with hnone | ⟨w, hw, hactive⟩
        · obtain ⟨u, hu, hfree⟩ := exists_free hs₁ hfound (Finmap.lookup_eq_none.mp hnone) hnot
          have hactive := (hsound u hu).activeSession_eq_none_iff.mpr hfree
          exact ⟨u, hu, hactive.trans (hvalue.trans hnone).symm⟩
        · exact ⟨w, hw, hactive.trans hvalue.symm⟩
    refine ⟨hvisited, ?_⟩
    intro hall
    obtain ⟨u, hu, hactive⟩ := hvisited
    have hsome : value ≠ none := hactive ▸ hall u hu
    refine ⟨hsome, ?_⟩
    intro frame
    obtain ⟨session, hsession⟩ := Option.ne_none_iff_exists'.mp hsome
    rw [hsession]
    simp [Lookup.resume]

/-- A run from the initial state through a lookup, up to its return, spans that lookup. -/
theorem exists_spans {before : List Section} {caller : Lookup}
    (hinside : ((system url).run (system url).init (before ++ .lookup i .start :: inside)).map
      (fun u => u.callers i) = some caller)
    (hpending : ∀ v, caller ≠ .returned v)
    (hreturned : ((system url).run (system url).init
      (before ++ .lookup i .start :: (inside ++ [last]))).map (fun u => u.callers i) =
        some (.returned value)) :
    ∃ s s₁ t, Spans url i s s₁ inside t last value ∧ t.callers i = caller ∧ ∀ past,
      (system url).run (system url).init (before ++ .lookup i .start :: past) =
        (system url).run s₁ past := by
  obtain ⟨s₂, hrun, hvalue⟩ := Option.map_eq_some_iff.mp hreturned
  obtain ⟨s, s₁, hbefore, hstart, hrest⟩ := ((system url).run_split_iff _ _ _ _ _).mp hrun
  obtain ⟨t, ht, hlast⟩ := ((system url).run_append_iff _ _ _ _).mp hrest
  have hruns := (system url).run_split hbefore hstart
  rw [hruns, ht] at hinside
  have hcaller : t.callers i = caller := Option.some.inj hinside
  rw [Transition.System.run_singleton] at hlast
  exact ⟨s, s₁, t, ⟨⟨before, hbefore⟩, hstart, ht, fun v => hcaller ▸ hpending v, s₂, hlast, hvalue⟩,
    hcaller, hruns⟩

/-- A lookup with a takeover behind it: the host is routed to another session when it returns. -/
theorem linearizes_iff_takeover :
    let older : SessionId := ⟨⟨Vector.replicate 16 1⟩⟩
    let newer : SessionId := ⟨⟨Vector.replicate 16 2⟩⟩
    let url := "https://my-vps.com"
    let inside : List Section := [.lookup 0 .readCurrent, .call (.openSession newer 4000)]
    ∃ s s₁ t, Spans url 0 s s₁ inside t (.lookup 0 .getSession) (some ⟨older, 3000, url⟩) ∧
      Linearizes ((system url).Visited s₁ inside) (some ⟨older, 3000, url⟩) := by
  intro older newer url inside
  let before : List Section := [.call (.openSession older 3000)]
  have hfound : ((system url).run (system url).init (before ++ .lookup 0 .start :: inside)).map
      (fun u => u.callers 0) = some (.found older) := by decide
  have hopen : ((system url).run (system url).init (before ++ .lookup 0 .start :: inside)).map
      (fun u => (u.registry.getSession older).isSome) = some true := by decide
  have hreturned : ((system url).run (system url).init
      (before ++ .lookup 0 .start :: (inside ++ [.lookup 0 .getSession]))).map
        (fun u => u.callers 0) = some (.returned (some ⟨older, 3000, url⟩)) := by decide
  obtain ⟨s, s₁, t, hspans, hcaller, hruns⟩ := exists_spans hfound (by simp) hreturned
  rw [hruns, hspans.inside] at hopen
  refine ⟨s, s₁, t, hspans, (linearizes_iff hspans).mpr ?_⟩
  rintro ⟨⟨id, hid, hclosed⟩, -⟩
  have hsame : older = id := Lookup.found.inj (hcaller.symm.trans hid)
  have ht := sound_of_reachable (hspans.reachable_start.run hspans.inside)
  rw [← hsame, ← Finmap.lookup_eq_none, ← InMemorySessionRegistry.getSession_eq ht.healthy]
    at hclosed
  exact absurd (Option.some.inj hopen) (by simp [hclosed])

/-- A request reads the owner, a second tunnel takes the host over and the first one closes: the
request finds no session, although the host was owned at every moment. -/
theorem activeSession_misses_takeover :
    let older : SessionId := ⟨⟨Vector.replicate 16 1⟩⟩
    let newer : SessionId := ⟨⟨Vector.replicate 16 2⟩⟩
    let url := "https://my-vps.com"
    let inside : List Section := [.lookup 0 .readCurrent, .call (.openSession newer 4000),
      .call (.closeSession older)]
    ∃ s s₁ t, Spans url 0 s s₁ inside t (.lookup 0 .getSession) none ∧
      (∀ u, (system url).Visited s₁ inside u → u.registry.activeSession ≠ none) ∧
      ¬ Linearizes ((system url).Visited s₁ inside) none := by
  intro older newer url inside
  let before : List Section := [.call (.openSession older 3000)]
  have hfound : ((system url).run (system url).init (before ++ .lookup 0 .start :: inside)).map
      (fun u => u.callers 0) = some (.found older) := by decide
  have howned : ∀ past ∈ inside.inits,
      ((system url).run (system url).init (before ++ .lookup 0 .start :: past)).map
        (fun u => u.registry.activeSession.isSome) = some true := by decide
  have hreturned : ((system url).run (system url).init
      (before ++ .lookup 0 .start :: (inside ++ [.lookup 0 .getSession]))).map
        (fun u => u.callers 0) = some (.returned none) := by decide
  obtain ⟨s, s₁, t, hspans, -, hruns⟩ := exists_spans hfound (by simp) hreturned
  have hall : ∀ u, (system url).Visited s₁ inside u → u.registry.activeSession ≠ none := by
    rintro u ⟨past, hpast, hu⟩ hnone
    have hsome := howned past ((List.mem_inits _ _).mpr hpast)
    rw [hruns, hu] at hsome
    simp [hnone] at hsome
  refine ⟨s, s₁, t, hspans, hall, ?_⟩
  rintro ⟨-, hmiss⟩
  exact (hmiss hall).1 rfl

end Lookups

end Mobilink.Server
