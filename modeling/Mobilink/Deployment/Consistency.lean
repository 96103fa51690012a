import Mobilink.Deployment.State

/-! What ties the registry and the tunnel map to the tasks, in every reachable state: each store
holds for a session exactly what the phase of its task says. -/
namespace Mobilink.Deployment
open Mobilink.Core Mobilink.Server

section Facts
variable (s : State)

def sessionOf (id : SessionId) : Option Session := s.stores.registry.sessions.value.lookup id

def tunnelOf (id : SessionId) : Option TunnelEntry := s.stores.tunnels.inner.value.lookup id

def current : Option SessionId := s.stores.registry.current.value

/-- The session that a task records for a `Hello`. -/
def sessionFor (baseUrl : String) (hello : ClientMessage) (id : SessionId) : Session :=
  ⟨id, hello.localPort, baseUrl⟩

/-- The tunnel that a task records for a `Hello`. -/
def tunnelFor (c : Connection) (hello : ClientMessage) : TunnelEntry :=
  ⟨c, hello.noEruda, hello.auth⟩

end Facts

structure Consistent (baseUrl : String) (s : State) : Prop where
  registry : s.stores.registry.Healthy
  tunnels : s.stores.tunnels.inner.poisoned = false
  base : s.stores.registry.publicBaseUrl = baseUrl
  url : ∀ c p hello created, Opened s c p hello created → created.publicUrl = baseUrl
  session : ∀ c p hello created, Opened s c p hello created → sessionOf s created.sessionId =
    if p.hasSession then some (sessionFor baseUrl hello created.sessionId) else none
  tunnel : ∀ c p hello created, Opened s c p hello created → tunnelOf s created.sessionId =
    if p.hasTunnel then some (tunnelFor c hello) else none
  drawn : ∀ id c hello, Announced s id c hello → id ∈ s.drawn
  distinct : ∀ id c c' hello hello', Announced s id c hello → Announced s id c' hello' → c = c'
  knownSession : ∀ id, sessionOf s id ≠ none → ∃ c hello, Announced s id c hello
  knownTunnel : ∀ id, tunnelOf s id ≠ none → ∃ c hello, Announced s id c hello
  owner : ∀ id, current s = some id → sessionOf s id ≠ none

variable {baseUrl : String} {s s' : State}

/-- The id of a session that a task opened is announced by that task alone. -/
theorem Consistent.announced_id_iff (h : Consistent baseUrl s) {c c' : Connection} {p : Phase}
    {hello hello' : ClientMessage} {created : ServerMessage} {id : SessionId}
    (ho : Opened s c p hello created) (ha : Announced s id c' hello') :
    id = created.sessionId ↔ c' = c := by
  constructor
  · intro hid
    rw [hid] at ha
    exact h.distinct created.sessionId c' c hello' hello ha ⟨p, created, ho, rfl⟩
  · intro hc
    obtain ⟨p', created', ho', hid⟩ := ha
    rw [hc] at ho'
    rw [← hid, (ho'.unique ho).2.2]

/-- A step that leaves the stores and the sessions of all tasks alone. -/
theorem Consistent.frame (h : Consistent baseUrl s) (hst : s'.stores = s.stores)
    (hd : ∀ id ∈ s.drawn, id ∈ s'.drawn)
    (ho : ∀ c p hello created, Opened s' c p hello created ↔ Opened s c p hello created) :
    Consistent baseUrl s' := by
  have ha : ∀ id c hello, Announced s' id c hello ↔ Announced s id c hello := by
    intro id c hello
    simp only [Announced, ho]
  have hs : ∀ id, sessionOf s' id = sessionOf s id := by
    intro id
    rw [sessionOf, sessionOf, hst]
  have ht : ∀ id, tunnelOf s' id = tunnelOf s id := by
    intro id
    rw [tunnelOf, tunnelOf, hst]
  have hc : current s' = current s := by
    rw [current, current, hst]
  constructor
  · rw [hst]
    exact h.registry
  · rw [hst]
    exact h.tunnels
  · rw [hst]
    exact h.base
  · simp only [ho]
    exact h.url
  · simp only [ho, hs]
    exact h.session
  · simp only [ho, ht]
    exact h.tunnel
  · intro id c hello hid
    exact hd id (h.drawn id c hello ((ha id c hello).mp hid))
  · simp only [ha]
    exact h.distinct
  · simp only [ha, hs]
    exact h.knownSession
  · simp only [ha, ht]
    exact h.knownTunnel
  · simp only [hc, hs]
    exact h.owner

/-- The sessions announced after a step that leaves the task of `c` with `created`. -/
theorem Announced.withTask_cases {c c' : Connection} {e : TaskEvent} {st : Stores} {link : Link}
    {p : Phase} {hello hello' : ClientMessage} {created : ServerMessage} {id : SessionId}
    (ha : Announced (s.withTask c e (st, link, .opened p hello created)) id c' hello') :
    (c' = c ∧ id = created.sessionId) ∨ (c' ≠ c ∧ Announced s id c' hello') := by
  obtain ⟨p', created', ho, he⟩ := ha
  obtain ⟨hc, heq⟩ | ⟨hc, ho'⟩ := ho.withTask_cases
  · cases heq
    exact Or.inl ⟨hc, he.symm⟩
  · exact Or.inr ⟨hc, p', created', ho', he⟩

/-- A step of the task of `c` that leaves it with the session `created`, in phase `p`, and changes
nothing that the stores hold for other ids. -/
theorem Consistent.record (h : Consistent baseUrl s) {c : Connection} {e : TaskEvent}
    {st : Stores} {link : Link} {p : Phase} {hello : ClientMessage} {created : ServerMessage}
    (hids : ∀ id c' hello', Announced s id c' hello' → (id = created.sessionId ↔ c' = c))
    (hregistry : st.registry.Healthy) (htunnels : st.tunnels.inner.poisoned = false)
    (hbase : st.registry.publicBaseUrl = baseUrl) (hurl : created.publicUrl = baseUrl)
    (hdrawn : created.sessionId ∈ draws e ++ s.drawn)
    (hsession : st.registry.sessions.value.lookup created.sessionId =
      if p.hasSession then some (sessionFor baseUrl hello created.sessionId) else none)
    (htunnel : st.tunnels.inner.value.lookup created.sessionId =
      if p.hasTunnel then some (tunnelFor c hello) else none)
    (hsessions : ∀ id, id ≠ created.sessionId →
      st.registry.sessions.value.lookup id = sessionOf s id)
    (htunnelOf : ∀ id, id ≠ created.sessionId → st.tunnels.inner.value.lookup id = tunnelOf s id)
    (hcurrent : ∀ id, st.registry.current.value = some id →
      st.registry.sessions.value.lookup id ≠ none) :
    Consistent baseUrl (s.withTask c e (st, link, .opened p hello created)) := by
  -- What the stores hold for another id was announced before, by another task.
  have hknown : ∀ id, (id ≠ created.sessionId → ∃ c' hello', Announced s id c' hello') →
      ∃ c' hello', Announced (s.withTask c e (st, link, .opened p hello created)) id c' hello' := by
    intro id hid
    by_cases he : id = created.sessionId
    · rw [he]
      exact ⟨c, hello, p, created, opened_withTask_self.mpr rfl, rfl⟩
    · obtain ⟨c', hello', ha⟩ := hid he
      have hc : c' ≠ c := fun hcc => he ((hids id c' hello' ha).mpr hcc)
      obtain ⟨p', created', ho, he'⟩ := ha
      exact ⟨c', hello', p', created', (opened_withTask_ne hc).mpr ho, he'⟩
  constructor
  · exact hregistry
  · exact htunnels
  · exact hbase
  · intro c' p' hello' created' ho
    obtain ⟨-, heq⟩ | ⟨-, ho'⟩ := ho.withTask_cases
    · cases heq
      exact hurl
    · exact h.url c' p' hello' created' ho'
  · intro c' p' hello' created' ho
    obtain ⟨-, heq⟩ | ⟨hc, ho'⟩ := ho.withTask_cases
    · cases heq
      exact hsession
    · rw [← h.session c' p' hello' created' ho']
      exact hsessions _ fun hid => hc ((hids _ c' hello' ⟨p', created', ho', rfl⟩).mp hid)
  · intro c' p' hello' created' ho
    obtain ⟨rfl, heq⟩ | ⟨hc, ho'⟩ := ho.withTask_cases
    · cases heq
      exact htunnel
    · rw [← h.tunnel c' p' hello' created' ho']
      exact htunnelOf _ fun hid => hc ((hids _ c' hello' ⟨p', created', ho', rfl⟩).mp hid)
  · intro id c' hello' ha
    obtain ⟨-, hid⟩ | ⟨-, ha'⟩ := ha.withTask_cases
    · rw [hid]
      exact hdrawn
    · exact List.mem_append_right _ (h.drawn id c' hello' ha')
  · intro id c₁ c₂ hello₁ hello₂ ha₁ ha₂
    obtain ⟨hc₁, hid₁⟩ | ⟨hc₁, hold₁⟩ := ha₁.withTask_cases
    · obtain ⟨hc₂, -⟩ | ⟨hc₂, hold₂⟩ := ha₂.withTask_cases
      · rw [hc₁, hc₂]
      · exact absurd ((hids id c₂ hello₂ hold₂).mp hid₁) hc₂
    · obtain ⟨-, hid₂⟩ | ⟨-, hold₂⟩ := ha₂.withTask_cases
      · exact absurd ((hids id c₁ hello₁ hold₁).mp hid₂) hc₁
      · exact h.distinct id c₁ c₂ hello₁ hello₂ hold₁ hold₂
  · intro id hid
    apply hknown id
    intro he
    have hold : sessionOf s id ≠ none := by
      rw [← hsessions id he]
      exact hid
    exact h.knownSession id hold
  · intro id hid
    apply hknown id
    intro he
    have hold : tunnelOf s id ≠ none := by
      rw [← htunnelOf id he]
      exact hid
    exact h.knownTunnel id hold
  · exact hcurrent

theorem consistent_init (publicUrl : String) :
    Consistent (InMemorySessionRegistry.new publicUrl).publicBaseUrl (init publicUrl) := by
  have hno : ∀ c p hello created, ¬ Opened (init publicUrl) c p hello created := by
    intro c p hello created ho
    exact absurd ho (by simp [Opened, init])
  have hnoA : ∀ id c hello, ¬ Announced (init publicUrl) id c hello := by
    intro id c hello ha
    obtain ⟨p, created, ho, -⟩ := ha
    exact hno c p hello created ho
  constructor
  · exact InMemorySessionRegistry.healthy_new publicUrl
  · rfl
  · rfl
  · intro c p hello created ho
    exact absurd ho (hno c p hello created)
  · intro c p hello created ho
    exact absurd ho (hno c p hello created)
  · intro c p hello created ho
    exact absurd ho (hno c p hello created)
  · intro id c hello ha
    exact absurd ha (hnoA id c hello)
  · intro id c c' hello hello' ha
    exact absurd ha (hnoA id c hello)
  · intro id hid
    exact absurd rfl hid
  · intro id hid
    exact absurd rfl hid
  · intro id hid
    exact absurd hid (by simp [current, init, InMemorySessionRegistry.new])

/-! ### Steps of a task -/

section TaskStep

variable {c : Connection} {e : TaskEvent} {t t' : Task} {st : Stores} {link : Link} {p : Phase}
  {hello : ClientMessage} {created : ServerMessage}

theorem Consistent.before (h : Consistent baseUrl s) (ht : s.tasks c = some t)
    (hno : t.isOpened = false) (hno' : t'.isOpened = false) :
    Consistent baseUrl (s.withTask c e (s.stores, link, t')) := by
  apply h.frame
  · rfl
  · intro id hid
    exact List.mem_append_right _ hid
  · intro c' p hello created
    by_cases hc : c' = c
    · subst hc
      rw [opened_withTask_self]
      constructor
      · intro heq
        dsimp only at heq
        rw [heq] at hno'
        exact absurd hno' (by simp [Task.isOpened])
      · intro ho
        rw [Option.some.inj (ht.symm.trans ho)] at hno
        exact absurd hno (by simp [Task.isOpened])
    · exact opened_withTask_ne hc

/-- A step of an open task that stays in the registry with the same session. -/
theorem Consistent.advance (h : Consistent baseUrl s) (ho : Opened s c p hello created)
    {p' : Phase} (hp : p'.hasSession = p.hasSession) {tunnels : TunnelMap}
    (hok : tunnels.inner.poisoned = false)
    (htunnel : tunnels.inner.value.lookup created.sessionId =
      if p'.hasTunnel then some (tunnelFor c hello) else none)
    (htunnelOf : ∀ id, id ≠ created.sessionId → tunnels.inner.value.lookup id = tunnelOf s id) :
    Consistent baseUrl
      (s.withTask c e ({ s.stores with tunnels }, link, .opened p' hello created)) := by
  apply h.record (fun _ _ _ ha => h.announced_id_iff ho ha)
  · exact h.registry
  · exact hok
  · exact h.base
  · exact h.url c p hello created ho
  · have hd := h.drawn _ _ _ ⟨p, created, ho, rfl⟩
    exact List.mem_append_right _ hd
  · rw [hp]
    exact h.session c p hello created ho
  · exact htunnel
  · exact fun id _ => rfl
  · exact htunnelOf
  · exact h.owner

theorem Consistent.opens (h : Consistent baseUrl s) (ht : s.tasks c = some (.handleHello hello))
    {drawn : SessionId} (hfresh : Fresh s (.handleHello drawn))
    (hd : drawn ∉ s.stores.registry.sessions.value) :
    Consistent baseUrl (s.withTask c (.handleHello drawn)
      ({ s.stores with registry := (s.stores.registry.openSession drawn hello.localPort).1 }, link,
        .opened .insertTunnel hello ⟨drawn, s.stores.registry.publicBaseUrl⟩)) := by
  have hnew : drawn ∉ s.drawn := fun hmem => hd (hfresh drawn (by simp [draws]) hmem)
  rw [InMemorySessionRegistry.openSession_new h.registry hello.localPort hd]
  apply h.record
  · intro id c' hello' ha
    have hid : id ≠ drawn := fun he => hnew (he ▸ h.drawn id c' hello' ha)
    have hc : c' ≠ c := by
      intro hcc
      obtain ⟨p', created', ho', -⟩ := ha
      rw [hcc] at ho'
      exact absurd (ht.symm.trans ho') (by simp)
    exact iff_of_false hid hc
  · exact ⟨h.registry.sessions, h.registry.current⟩
  · exact h.tunnels
  · exact h.base
  · exact h.base
  · simp [draws]
  · rw [Mutex.value_store, Finmap.lookup_insert, h.base]
    rfl
  · change tunnelOf s drawn = none
    by_contra hne
    obtain ⟨c', hello', ha⟩ := h.knownTunnel drawn hne
    exact hnew (h.drawn drawn c' hello' ha)
  · intro id hid
    rw [Mutex.value_store, Finmap.lookup_insert_of_ne _ hid]
    rfl
  · exact fun id _ => rfl
  · intro id hid
    have he : drawn = id := Option.some.inj hid
    rw [← he, Mutex.value_store, Finmap.lookup_insert]
    simp

theorem Consistent.closes (h : Consistent baseUrl s) (ho : Opened s c .closeSession hello created) :
    Consistent baseUrl (s.withTask c e
      ({ s.stores with registry := (s.stores.registry.closeSession created.sessionId).1 }, link,
        .opened .returned hello created)) := by
  have hsession := h.session c _ hello created ho
  have hmem : created.sessionId ∈ s.stores.registry.sessions.value := by
    rw [← Finmap.lookup_isSome]
    change (sessionOf s created.sessionId).isSome
    rw [hsession]
    rfl
  rw [InMemorySessionRegistry.closeSession_found h.registry hmem]
  apply h.record (fun _ _ _ ha => h.announced_id_iff ho ha)
  · exact ⟨h.registry.sessions, h.registry.current⟩
  · exact h.tunnels
  · exact h.base
  · exact h.url c _ hello created ho
  · have hd := h.drawn _ _ _ ⟨_, created, ho, rfl⟩
    exact List.mem_append_right _ hd
  · rw [Mutex.value_store, Finmap.lookup_erase]
    rfl
  · have htunnel := h.tunnel c _ hello created ho
    exact htunnel
  · intro id hid
    rw [Mutex.value_store, Finmap.lookup_erase_ne hid]
    rfl
  · exact fun id _ => rfl
  · intro id hid
    rw [Mutex.value_store] at hid
    split_ifs at hid with hc
    have hne : id ≠ created.sessionId := by
      intro he
      rw [he] at hid
      exact hc hid
    rw [Mutex.value_store, Finmap.lookup_erase_ne hne]
    exact h.owner id hid

theorem Consistent.taskStep (h : Consistent baseUrl s) (ht : s.tasks c = some t)
    (hfresh : Fresh s e) (heffect : Task.Effect c s.stores t e st t') :
    Consistent baseUrl (s.withTask c e (st, link, t')) := by
  cases heffect with
  | before hno hno' => exact h.before ht hno hno'
  | within hs htun =>
    apply h.advance ht hs h.tunnels
    · rw [htun]
      exact h.tunnel c _ _ _ ht
    · exact fun id _ => rfl
  | opens hd => exact h.opens ht hfresh hd
  | inserts =>
    apply h.advance ht
    · rfl
    · exact h.tunnels
    · rw [Mutex.value_store, Finmap.lookup_insert]
      rfl
    · intro id hid
      rw [Mutex.value_store, Finmap.lookup_insert_of_ne _ hid]
      rfl
  | removes =>
    apply h.advance ht
    · rfl
    · exact h.tunnels
    · rw [Mutex.value_store, Finmap.lookup_erase]
      rfl
    · intro id hid
      rw [Mutex.value_store, Finmap.lookup_erase_ne hid]
      rfl
  | closes => exact h.closes ht

end TaskStep

theorem Consistent.move {proxy : ProxyState} {ev : Event} (h : Consistent baseUrl s)
    (hm : Move proxy s ev s') : Consistent baseUrl s' := by
  cases hm with
  | connect cli hc =>
    exact h.frame rfl (fun _ hid => hid) (fun _ _ _ _ => opened_connect hc)
  | stranger bytes _ _ _ => exact h.frame rfl (fun _ hid => hid) (fun _ _ _ _ => Iff.rfl)
  | cli _ _ => exact h.frame rfl (fun _ hid => hid) (fun _ _ _ _ => Iff.rfl)
  | task hfresh htask hstep =>
    have heffect := Task.step_effect h.registry h.tunnels hstep
    exact h.taskStep htask hfresh heffect
  | request _ => exact h.frame rfl (fun _ hid => hid) (fun _ _ _ _ => Iff.rfl)

theorem consistent_of_reachable {proxy : ProxyState} (hs : (system proxy).Reachable s) :
    Consistent (InMemorySessionRegistry.new proxy.publicUrl).publicBaseUrl s := by
  apply hs.invariant
  · exact consistent_init proxy.publicUrl
  · intro s e t _ hc hstep
    exact hc.move (move_of_step hstep)

/-- A task that opened a session keeps it, with the `Hello` it was opened for. -/
theorem Opened.move {proxy : ProxyState} {ev : Event} {c : Connection} {p : Phase}
    {hello : ClientMessage} {created : ServerMessage} (ho : Opened s c p hello created)
    (h : Consistent baseUrl s) (hm : Move proxy s ev s') :
    ∃ p', Opened s' c p' hello created := by
  cases hm with
  | connect cli hc => exact ⟨p, (opened_connect hc).mpr ho⟩
  | stranger _ _ _ _ => exact ⟨p, ho⟩
  | cli _ _ => exact ⟨p, ho⟩
  | request _ => exact ⟨p, ho⟩
  | @task c' e t out _ htask hstep =>
    by_cases hc : c = c'
    · subst hc
      have heq : t = .opened p hello created := Option.some.inj (htask.symm.trans ho)
      have heffect := Task.step_effect h.registry h.tunnels hstep
      rw [heq] at heffect
      obtain ⟨st, link, t'⟩ := out
      cases heffect with
      | before hno _ => exact absurd hno (by simp [Task.isOpened])
      | within _ _ => exact ⟨_, opened_withTask_self.mpr rfl⟩
      | inserts => exact ⟨_, opened_withTask_self.mpr rfl⟩
      | removes => exact ⟨_, opened_withTask_self.mpr rfl⟩
      | closes => exact ⟨_, opened_withTask_self.mpr rfl⟩
    · exact ⟨p, (opened_withTask_ne hc).mpr ho⟩

theorem Announced.move {proxy : ProxyState} {ev : Event} {id : SessionId} {c : Connection}
    {hello : ClientMessage} (ha : Announced s id c hello) (h : Consistent baseUrl s)
    (hm : Move proxy s ev s') : Announced s' id c hello := by
  obtain ⟨p, created, ho, he⟩ := ha
  obtain ⟨p', ho'⟩ := ho.move h hm
  exact ⟨p', created, ho', he⟩

/-- A registered session is one that a task opened for its `Hello`. -/
theorem Consistent.sessionOf_eq (h : Consistent baseUrl s) {id : SessionId} {session : Session}
    (hs : sessionOf s id = some session) :
    ∃ c p hello created, Opened s c p hello created ∧ created.sessionId = id ∧
      p.hasSession = true ∧ session = sessionFor baseUrl hello id := by
  obtain ⟨c, hello, p, created, ho, he⟩ := h.knownSession id (by simp [hs])
  have hsession := h.session c p hello created ho
  rw [he, hs] at hsession
  split_ifs at hsession with hp
  exact ⟨c, p, hello, created, ho, he, hp, Option.some.inj hsession⟩

/-- A recorded tunnel is one that a task inserted for its `Hello`. -/
theorem Consistent.tunnelOf_eq (h : Consistent baseUrl s) {id : SessionId} {entry : TunnelEntry}
    (ht : tunnelOf s id = some entry) :
    ∃ c p hello created, Opened s c p hello created ∧ created.sessionId = id ∧
      p.hasTunnel = true ∧ entry = tunnelFor c hello := by
  obtain ⟨c, hello, p, created, ho, he⟩ := h.knownTunnel id (by simp [ht])
  have htunnel := h.tunnel c p hello created ho
  rw [he, ht] at htunnel
  split_ifs at htunnel with hp
  exact ⟨c, p, hello, created, ho, he, hp, Option.some.inj htunnel⟩

end Mobilink.Deployment
