import Mobilink.Deployment.Consistency

/-! What a task leaves behind in the shared stores when it ends, over whole runs. -/
namespace Mobilink.Deployment
open Mobilink.Core Mobilink.Server

/-- Neither store holds the session that the task of `c` created, and it does not own the host. -/
def NothingLeft (s : State) (c : Connection) : Prop :=
  ∀ id hello, Announced s id c hello →
    tunnelOf s id = none ∧ sessionOf s id = none ∧ current s ≠ some id

def HasFailed (s : State) (c : Connection) : Prop := ∃ t, s.tasks c = some t ∧ t.isFailed = true

variable {baseUrl : String} {s s' : State} {c : Connection}

/-- One step fails the task of `c` exactly if it is the step at which its reply cannot be sent. -/
theorem hasFailed_move {proxy : ProxyState} {ev : Event} (hc : Consistent baseUrl s)
    (hm : Move proxy s ev s') :
    HasFailed s' c ↔ HasFailed s c ∨ ∃ e, ev = .task c e ∧ Task.sendFails e := by
  have hother : ∀ {ev'}, (∀ e, ev' ≠ Event.task c e) →
      ¬ ∃ e, ev' = Event.task c e ∧ Task.sendFails e := by
    intro ev' hne h
    obtain ⟨e, he, -⟩ := h
    exact hne e he
  cases hm with
  | @connect c' cli hnone =>
    rw [or_iff_left (hother (by simp))]
    unfold HasFailed
    by_cases he : c = c'
    · subst he
      simp [hnone, Task.isFailed]
    · simp [Function.update_of_ne he]
  | stranger _ _ _ _ => rw [or_iff_left (hother (by simp))]; exact Iff.rfl
  | cli _ _ => rw [or_iff_left (hother (by simp))]; exact Iff.rfl
  | request _ => rw [or_iff_left (hother (by simp))]; exact Iff.rfl
  | @task c' e t out hfresh htask hstep =>
    by_cases he : c = c'
    · subst he
      have hlive : ¬ HasFailed s c := by
        intro hfailed
        obtain ⟨t', ht', hf⟩ := hfailed
        rw [Option.some.inj (htask.symm.trans ht')] at hstep
        rw [Task.step_of_isFailed hf] at hstep
        exact absurd hstep (by simp)
      have hiff := Task.step_isFailed_iff hc.registry hc.tunnels hstep
      rw [or_iff_right hlive]
      simp only [HasFailed, State.withTask, Function.update_self, Option.some.injEq,
        exists_eq_left', hiff, Event.task.injEq, true_and]
    · rw [or_iff_left (hother (by simp [Ne.symm he]))]
      simp [HasFailed, State.withTask, Function.update_of_ne he]

theorem hasFailed_iff {proxy : ProxyState} {events : List Event}
    (hrun : (system proxy).run (system proxy).init events = some s) :
    HasFailed s c ↔ ∃ e, .task c e ∈ events ∧ Task.sendFails e := by
  induction events using List.reverseRecOn generalizing s with
  | nil =>
    rw [← Option.some.inj hrun]
    simp [HasFailed, system, init]
  | append_singleton past ev ih =>
    obtain ⟨t, hpast, hstep⟩ := ((system proxy).run_append_iff _ _ _ _).mp hrun
    rw [Transition.System.run_singleton] at hstep
    have hc := consistent_of_reachable ⟨past, hpast⟩
    rw [hasFailed_move hc (move_of_step hstep), ih hpast]
    constructor
    · intro h
      rcases h with hold | hnew
      · obtain ⟨e, hmem, hfails⟩ := hold
        exact ⟨e, List.mem_append_left _ hmem, hfails⟩
      · obtain ⟨e, he, hfails⟩ := hnew
        exact ⟨e, by simp [he], hfails⟩
    · intro h
      obtain ⟨e, hmem, hfails⟩ := h
      rcases List.mem_append.mp hmem with hold | hnew
      · exact Or.inl ⟨e, hold, hfails⟩
      · exact Or.inr ⟨e, (List.mem_singleton.mp hnew).symm, hfails⟩

/-- What the stores hold once a task has ended depends on how it ended, and on nothing else. -/
theorem Consistent.nothingLeft_iff_not_hasFailed (h : Consistent baseUrl s) {t : Task}
    (ht : s.tasks c = some t) (hend : t.hasEnded = true) :
    NothingLeft s c ↔ ¬ HasFailed s c := by
  have hfailed : HasFailed s c ↔ t.isFailed = true := by
    simp [HasFailed, ht]
  rw [hfailed]
  cases t with
  | opened p hello created =>
    have hsession := h.session c p hello created ht
    have htunnel := h.tunnel c p hello created ht
    cases p with
    | returned =>
      apply iff_of_true _ (by simp [Task.isFailed])
      intro id hello' ha
      obtain ⟨p', created', ho, he⟩ := ha
      have ht' : Opened s c .returned hello created := ht
      rw [← he, (ho.unique ht').2.2]
      refine ⟨htunnel, hsession, ?_⟩
      exact fun hcur => h.owner _ hcur hsession
    | failed reason =>
      apply iff_of_false _ (by simp [Task.isFailed])
      intro hleft
      have hnone := (hleft created.sessionId hello ⟨_, created, ht, rfl⟩).1
      exact absurd (htunnel.symm.trans hnone) (by simp [Phase.hasTunnel])
    | _ => exact absurd hend (by simp [Task.hasEnded])
  | _ =>
    apply iff_of_true _ (by simp [Task.isFailed])
    intro id hello ha
    obtain ⟨p, created, ho, -⟩ := ha
    exact absurd (ht.symm.trans ho) (by simp)

/-- In every run, a task that has ended leaves nothing behind exactly if sending its reply did not
fail in that run. -/
theorem nothingLeft_iff (proxy : ProxyState) {events : List Event} {t : Task}
    (hrun : (system proxy).run (system proxy).init events = some s) (ht : s.tasks c = some t)
    (hend : t.hasEnded = true) :
    NothingLeft s c ↔
      .task c (.sendCreated false) ∉ events ∧ .task c (.finishSend false) ∉ events := by
  have hc := consistent_of_reachable ⟨events, hrun⟩
  rw [hc.nothingLeft_iff_not_hasFailed ht hend, hasFailed_iff hrun]
  constructor
  · intro hno
    exact ⟨fun hmem => hno ⟨_, hmem, Or.inl rfl⟩, fun hmem => hno ⟨_, hmem, Or.inr rfl⟩⟩
  · intro hboth hfails
    obtain ⟨e, hmem, he⟩ := hfails
    rcases he with rfl | rfl
    · exact hboth.1 hmem
    · exact hboth.2 hmem

/-- A CLI that connects and leaves again leaves nothing behind. -/
theorem nothingLeft_iff_returned :
    let proxy : ProxyState := ⟨id, "https://my-vps.com"⟩
    ∃ s, (system proxy).Reachable s ∧ (s.tasks ⟨0⟩).map Task.hasEnded = some true ∧
      NothingLeft s ⟨0⟩ := by
  intro proxy
  let drawn : SessionId := ⟨⟨Vector.replicate 16 1⟩⟩
  let hello : ClientMessage := ⟨3000, true, .cookie⟩
  let events : List Event := handshake ⟨0⟩ hello drawn ++ disconnect ⟨0⟩
  have hend : ((system proxy).run (system proxy).init events).map (fun s => s.tasks ⟨0⟩) =
      some (some (.opened .returned hello ⟨drawn, "https://my-vps.com"⟩)) := by decide
  obtain ⟨s, hrun, htask⟩ := Option.map_eq_some_iff.mp hend
  have hleft := (nothingLeft_iff proxy hrun htask rfl).mpr (by
    simp [events, handshake, disconnect])
  exact ⟨s, ⟨events, hrun⟩, by rw [htask]; rfl, hleft⟩

/-- The peer stops the stream while `SessionCreated` is written: the task is over, and the tunnel,
the session and the ownership of the host stay. -/
theorem leak_of_stopped_reply :
    let drawn : SessionId := ⟨⟨Vector.replicate 16 1⟩⟩
    let hello : ClientMessage := ⟨3000, true, .cookie⟩
    let proxy : ProxyState := ⟨id, "https://my-vps.com"⟩
    ∃ s, (system proxy).Reachable s ∧ (s.tasks ⟨0⟩).map Task.hasEnded = some true ∧
      Announced s drawn ⟨0⟩ hello ∧ tunnelOf s drawn = some ⟨⟨0⟩, true, .cookie⟩ ∧
      sessionOf s drawn = some ⟨drawn, 3000, "https://my-vps.com"⟩ ∧ current s = some drawn ∧
      ¬ NothingLeft s ⟨0⟩ := by
  intro drawn hello proxy
  let events : List Event := (handshake ⟨0⟩ hello drawn).take 10 ++ [.task ⟨0⟩ (.sendCreated false)]
  have hend : ((system proxy).run (system proxy).init events).map
      (fun s => (s.tasks ⟨0⟩, tunnelOf s drawn, sessionOf s drawn, current s)) =
      some (some (.opened (.failed .writeAll) hello ⟨drawn, "https://my-vps.com"⟩),
        some ⟨⟨0⟩, true, .cookie⟩, some ⟨drawn, 3000, "https://my-vps.com"⟩, some drawn) := by
    decide
  obtain ⟨s, hrun, hfacts⟩ := Option.map_eq_some_iff.mp hend
  simp only [Prod.mk.injEq] at hfacts
  obtain ⟨htask, htunnel, hsession, hcurrent⟩ := hfacts
  have ha : Announced s drawn ⟨0⟩ hello := ⟨_, _, htask, rfl⟩
  refine ⟨s, ⟨events, hrun⟩, by rw [htask]; rfl, ha, htunnel, hsession, hcurrent, ?_⟩
  intro hleft
  exact (hleft drawn hello ha).2.2 hcurrent

end Mobilink.Deployment
