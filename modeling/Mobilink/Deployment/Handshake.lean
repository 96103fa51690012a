import Mobilink.Deployment.Consistency

/-! What both ends of a handshake know of each other: the streams of every connection against the
task and the CLI at its two ends. -/
namespace Mobilink.Deployment
open Mobilink.Core Mobilink.Server

/-- The `Hello` that has arrived on a connection. -/
def helloOn (link : Link) : Option ClientMessage :=
  (Stream.delivered link.hello).bind fun bytes => (Task.receiveHello bytes).hello

/-- What the stage of a CLI says about the streams of its connection. -/
def CliLinked (c : Connection) (link : Link) : Cli.Handshake → Prop
  | .pending .connect _ | .pending .openBi _ | .pending .sendHello _ => link.hello = none
  | .pending .finishHello _ => Stream.delivered link.hello = none
  | .established _ session => session.connection = c ∧ ∃ bytes created,
      Stream.delivered link.reply = some bytes ∧
      Cli.Handshake.receiveCreated bytes = some created ∧
      session.sessionId = created.sessionId ∧ session.publicUrl = created.publicUrl
  | _ => True

structure Linked (s : State) : Prop where
  untouched : ∀ c, s.tasks c = none → s.links c = ⟨none, none⟩ ∧ s.clis c = none
  hello : ∀ c t hello, s.tasks c = some t → t.hello = some hello → helloOn (s.links c) = some hello
  reply : ∀ c stream, (s.links c).reply = some stream → ∃ p hello created,
    Opened s c p hello created ∧ p.hasSent = true ∧ Wire.encode created = some stream.bytes
  cliHello : ∀ c cli stream, s.clis c = some cli → (s.links c).hello = some stream →
    Wire.encode cli.hello = some stream.bytes
  cli : ∀ c cli, s.clis c = some cli → CliLinked c (s.links c) cli

variable {s s' : State}

theorem helloOn_eq_none {link : Link} (h : Stream.delivered link.hello = none) :
    helloOn link = none := by
  rw [helloOn, h, Option.bind_none]

theorem linked_init (publicUrl : String) : Linked (init publicUrl) := by
  constructor
  · exact fun _ _ => ⟨rfl, rfl⟩
  · exact fun _ _ _ ht => absurd ht (by simp [init])
  · exact fun _ _ hr => absurd hr (by simp [init])
  · exact fun _ _ _ hc => absurd hc (by simp [init])
  · exact fun _ _ hc => absurd hc (by simp [init])

theorem Linked.connect (h : Linked s) {c : Connection} (cli : Option ClientMessage)
    (hc : s.tasks c = none) :
    Linked { s with
      tasks := Function.update s.tasks c (some .incoming)
      clis := Function.update s.clis c (cli.map (Cli.Handshake.pending .connect)) } := by
  obtain ⟨hlink, hcli⟩ := h.untouched c hc
  constructor
  · intro c' ht
    by_cases he : c' = c
    · simp [he] at ht
    · simp only [Function.update_of_ne he] at ht ⊢
      exact h.untouched c' ht
  · intro c' t hello ht hh
    by_cases he : c' = c
    · subst he
      simp only [Function.update_self, Option.some.injEq] at ht
      rw [← ht] at hh
      exact absurd hh (by simp [Task.hello])
    · simp only [Function.update_of_ne he] at ht
      exact h.hello c' t hello ht hh
  · intro c' stream hr
    obtain ⟨p, hello, created, ho, hsent, henc⟩ := h.reply c' stream hr
    exact ⟨p, hello, created, (opened_connect hc).mpr ho, hsent, henc⟩
  · intro c' cli' stream hcli' hstream
    by_cases he : c' = c
    · subst he
      simp [hlink] at hstream
    · simp only [Function.update_of_ne he] at hcli'
      exact h.cliHello c' cli' stream hcli' hstream
  · intro c' cli' hcli'
    by_cases he : c' = c
    · subst he
      simp only [Function.update_self, Option.map_eq_some_iff] at hcli'
      obtain ⟨hello, -, hpending⟩ := hcli'
      rw [← hpending]
      change (s.links c').hello = none
      rw [hlink]
    · simp only [Function.update_of_ne he] at hcli'
      exact h.cli c' cli' hcli'

theorem Linked.stranger (h : Linked s) {c : Connection} (bytes : List UInt8)
    (hcli : s.clis c = none) (htask : s.tasks c ≠ none) (hlink : (s.links c).hello = none) :
    Linked { s with
      links := Function.update s.links c { s.links c with hello := some ⟨bytes, true⟩ } } := by
  constructor
  · intro c' ht
    by_cases he : c' = c
    · rw [he] at ht
      exact absurd ht htask
    · simp only [Function.update_of_ne he]
      exact h.untouched c' ht
  · intro c' t hello ht hh
    have hold := h.hello c' t hello ht hh
    by_cases he : c' = c
    · rw [he, helloOn, hlink] at hold
      exact absurd hold (by simp [Stream.delivered])
    · simp only [Function.update_of_ne he]
      exact hold
  · intro c' stream hr
    apply h.reply c' stream
    by_cases he : c' = c
    · subst he
      simpa using hr
    · simpa only [Function.update_of_ne he] using hr
  · intro c' cli stream hc' hstream
    have he : c' ≠ c := by
      intro he
      rw [he] at hc'
      exact absurd (hcli.symm.trans hc') (by simp)
    simp only [Function.update_of_ne he] at hstream
    exact h.cliHello c' cli stream hc' hstream
  · intro c' cli hc'
    have he : c' ≠ c := by
      intro he
      rw [he] at hc'
      exact absurd (hcli.symm.trans hc') (by simp)
    simp only [Function.update_of_ne he]
    exact h.cli c' cli hc'

/-- A step of the CLI of `c` that keeps to its connection. -/
theorem Linked.withCli (h : Linked s) {c : Connection} {cli cli' : Cli.Handshake} {link : Link}
    (hcli : s.clis c = some cli)
    (hhello : ∀ hello, helloOn (s.links c) = some hello → helloOn link = some hello)
    (hreply : link.reply = (s.links c).reply)
    (hsent : ∀ stream, link.hello = some stream → Wire.encode cli'.hello = some stream.bytes)
    (hlinked : CliLinked c link cli') : Linked (s.withCli c (link, cli')) := by
  constructor
  · intro c' ht
    by_cases he : c' = c
    · rw [he] at ht
      have hno := (h.untouched c ht).2
      exact absurd (hno.symm.trans hcli) (by simp)
    · simp only [State.withCli, Function.update_of_ne he]
      exact h.untouched c' ht
  · intro c' t hello ht hh
    have hold := h.hello c' t hello ht hh
    by_cases he : c' = c
    · subst he
      simp only [State.withCli, Function.update_self]
      exact hhello hello hold
    · simp only [State.withCli, Function.update_of_ne he]
      exact hold
  · intro c' stream hr
    apply h.reply c' stream
    by_cases he : c' = c
    · subst he
      simp only [State.withCli, Function.update_self] at hr
      rw [← hreply]
      exact hr
    · simpa only [State.withCli, Function.update_of_ne he] using hr
  · intro c' cli₁ stream hc' hstream
    by_cases he : c' = c
    · subst he
      simp only [State.withCli, Function.update_self, Option.some.injEq] at hc' hstream
      rw [← hc']
      exact hsent stream hstream
    · simp only [State.withCli, Function.update_of_ne he] at hc' hstream
      exact h.cliHello c' cli₁ stream hc' hstream
  · intro c' cli₁ hc'
    by_cases he : c' = c
    · subst he
      simp only [State.withCli, Function.update_self, Option.some.injEq] at hc' ⊢
      rw [← hc']
      exact hlinked
    · simp only [State.withCli, Function.update_of_ne he] at hc' ⊢
      exact h.cli c' cli₁ hc'

theorem Linked.cliStep (h : Linked s) {c : Connection} {cli cli' : Cli.Handshake} {link : Link}
    (hcli : s.clis c = some cli) (heffect : Cli.Handshake.LinkEffect c (s.links c) cli link cli') :
    Linked (s.withCli c (link, cli')) := by
  have hsent := h.cliHello c cli
  have hlinked := h.cli c cli hcli
  cases heffect with
  | waits hstage hstage' =>
    apply h.withCli hcli (fun _ hh => hh) rfl
    · exact fun stream hstream => hsent stream hcli hstream
    rcases hstage with rfl | rfl <;> rcases hstage' with rfl | rfl <;> exact hlinked
  | fails =>
    exact h.withCli hcli (fun _ hh => hh) rfl (fun stream hstream => hsent stream hcli hstream)
      trivial
  | sends henc =>
    have hnone : (s.links c).hello = none := hlinked
    apply h.withCli hcli
    · intro hello hh
      rw [helloOn, hnone] at hh
      exact absurd hh (by simp [Stream.delivered])
    · rfl
    · intro stream hstream
      rw [← Option.some.inj hstream]
      exact henc
    · rfl
  | finishes =>
    have hopen : Stream.delivered (s.links c).hello = none := hlinked
    apply h.withCli hcli
    · intro hello hh
      rw [helloOn_eq_none hopen] at hh
      exact absurd hh (by simp)
    · rfl
    · intro stream hstream
      obtain ⟨stream₀, h₀, hfin⟩ := Option.map_eq_some_iff.mp hstream
      rw [← hfin]
      exact hsent stream₀ hcli h₀
    · trivial
  | receives hdelivered hcreated =>
    apply h.withCli hcli (fun _ hh => hh) rfl
    · exact fun stream hstream => hsent stream hcli hstream
    exact ⟨rfl, _, _, hdelivered, hcreated, rfl, rfl⟩

/-- A step of the task of `c` that keeps to its connection. -/
theorem Linked.withTask (h : Linked s) {c : Connection} {e : TaskEvent} {t t' : Task} {st : Stores}
    {link : Link} (ht : s.tasks c = some t) (hlink : link.hello = (s.links c).hello)
    (hhello : ∀ hello, t'.hello = some hello → helloOn (s.links c) = some hello)
    (hreply : ∀ stream, link.reply = some stream → ∃ p hello created,
      t' = .opened p hello created ∧ p.hasSent = true ∧ Wire.encode created = some stream.bytes)
    (hdelivered : ∀ bytes, Stream.delivered (s.links c).reply = some bytes →
      Stream.delivered link.reply = some bytes) :
    Linked (s.withTask c e (st, link, t')) := by
  have hsame : helloOn link = helloOn (s.links c) := by
    rw [helloOn, helloOn, hlink]
  constructor
  · intro c' ht'
    by_cases he : c' = c
    · subst he
      simp [State.withTask] at ht'
    · simp only [State.withTask, Function.update_of_ne he] at ht' ⊢
      exact h.untouched c' ht'
  · intro c' t₁ hello ht' hh
    by_cases he : c' = c
    · subst he
      simp only [State.withTask, Function.update_self, Option.some.injEq] at ht' ⊢
      rw [← ht'] at hh
      rw [hsame]
      exact hhello hello hh
    · simp only [State.withTask, Function.update_of_ne he] at ht' ⊢
      exact h.hello c' t₁ hello ht' hh
  · intro c' stream hr
    by_cases he : c' = c
    · subst he
      simp only [State.withTask, Function.update_self] at hr
      obtain ⟨p, hello, created, heq, hsent, henc⟩ := hreply stream hr
      exact ⟨p, hello, created, opened_withTask_self.mpr heq, hsent, henc⟩
    · simp only [State.withTask, Function.update_of_ne he] at hr
      obtain ⟨p, hello, created, ho, hsent, henc⟩ := h.reply c' stream hr
      exact ⟨p, hello, created, (opened_withTask_ne he).mpr ho, hsent, henc⟩
  · intro c' cli stream hc' hstream
    apply h.cliHello c' cli stream hc'
    by_cases he : c' = c
    · subst he
      simp only [State.withTask, Function.update_self] at hstream
      rw [← hlink]
      exact hstream
    · simpa only [State.withTask, Function.update_of_ne he] using hstream
  · intro c' cli hc'
    have hold := h.cli c' cli hc'
    by_cases he : c' = c
    · subst he
      simp only [State.withTask, Function.update_self]
      unfold CliLinked at hold ⊢
      rw [hlink]
      split
      · exact hold
      · exact hold
      · exact hold
      · exact hold
      · obtain ⟨hconn, bytes, created, hd, hrest⟩ := hold
        exact ⟨hconn, bytes, created, hdelivered bytes hd, hrest⟩
      · trivial
    · simp only [State.withTask, Function.update_of_ne he]
      exact hold

theorem Linked.taskStep (h : Linked s) {c : Connection} {e : TaskEvent} {t t' : Task} {st : Stores}
    {link : Link} (ht : s.tasks c = some t) (heffect : Task.LinkEffect (s.links c) t link t') :
    Linked (s.withTask c e (st, link, t')) := by
  cases heffect with
  | keeps hhello hsent =>
    apply h.withTask ht rfl
    · exact fun hello hh => h.hello c t hello ht (hhello hello hh)
    · intro stream hr
      obtain ⟨p, hello, created, ho, hp, henc⟩ := h.reply c stream hr
      obtain ⟨p', heq, hp'⟩ := hsent p hello created (Option.some.inj (ht.symm.trans ho)) hp
      exact ⟨p', hello, created, heq, hp', henc⟩
    · exact fun _ hd => hd
  | reads hdelivered =>
    apply h.withTask ht rfl
    · intro hello hh
      rw [helloOn, hdelivered]
      exact hh
    · intro stream hr
      obtain ⟨p, hello, created, ho, -⟩ := h.reply c stream hr
      exact absurd (ht.symm.trans ho) (by simp)
    · exact fun _ hd => hd
  | sends henc =>
    apply h.withTask ht
    · rfl
    · exact fun hello hh => h.hello c _ hello ht hh
    · intro stream hr
      have hstream := Option.some.inj hr
      rw [← hstream]
      exact ⟨_, _, _, rfl, rfl, henc⟩
    · -- Nothing has been written before this step.
      intro bytes hd
      have hr := Stream.delivered_eq_some hd
      obtain ⟨p, hello, created, ho, hp, -⟩ := h.reply c _ hr
      rw [(ho.unique ht).1] at hp
      exact absurd hp (by simp [Phase.hasSent])
  | finishes =>
    apply h.withTask ht
    · rfl
    · exact fun hello hh => h.hello c _ hello ht hh
    · intro stream hr
      obtain ⟨stream₀, h₀, hfin⟩ := Option.map_eq_some_iff.mp hr
      obtain ⟨p, hello, created, ho, hp, henc⟩ := h.reply c stream₀ h₀
      rw [(ho.unique ht).2.2] at henc
      rw [← hfin]
      exact ⟨_, _, _, rfl, rfl, henc⟩
    · intro bytes hd
      have hr := Stream.delivered_eq_some hd
      simp only [hr, Option.map_some]
      rfl

theorem Linked.move {proxy : ProxyState} {ev : Event} {baseUrl : String} (h : Linked s)
    (hc : Consistent baseUrl s) (hm : Move proxy s ev s') : Linked s' := by
  cases hm with
  | connect cli hnone => exact h.connect cli hnone
  | stranger bytes hcli htask hlink => exact h.stranger bytes hcli htask hlink
  | cli hcli hstep => exact h.cliStep hcli (Cli.Handshake.step_linkEffect hstep)
  | task _ htask hstep =>
    exact h.taskStep htask (Task.step_linkEffect hc.registry hc.tunnels hstep)
  | request _ => exact ⟨h.untouched, h.hello, h.reply, h.cliHello, h.cli⟩

theorem linked_of_reachable {proxy : ProxyState} (hs : (system proxy).Reachable s) : Linked s := by
  apply hs.invariant
  · exact linked_init proxy.publicUrl
  · intro s e t hr hl hstep
    exact hl.move (consistent_of_reachable hr) (move_of_step hstep)

/-! ### Agreement -/

/-- `SessionCreated` has been written on a connection and can still be read from it. -/
def InFlight (s : State) (c : Connection) (m : ServerMessage) : Prop :=
  ∃ stream, (s.links c).reply = some stream ∧
    Cli.Handshake.receiveCreated stream.bytes = some m

/-- The CLI of a connection has read `SessionCreated` and knows its session. -/
def Holds (s : State) (c : Connection) (m : ServerMessage) : Prop :=
  ∃ hello session, s.clis c = some (.established hello session) ∧
    session = ⟨m.sessionId, m.publicUrl, c⟩

/-- The server has seen the connection close. -/
def SeenClosed (s : State) (c : Connection) : Prop :=
  ∃ p hello created, Opened s c p hello created ∧ p.sawClose = true

/-- What is in flight on a connection, or was received over it, is what its task sent. -/
theorem Linked.sent (h : Linked s) {c : Connection} {m : ServerMessage}
    (hm : InFlight s c m ∨ Holds s c m) :
    ∃ p hello, Opened s c p hello m ∧ p.hasSent = true := by
  have hflight : InFlight s c m := by
    rcases hm with hflight | hholds
    · exact hflight
    · obtain ⟨hello, session, hcli, hsession⟩ := hholds
      obtain ⟨-, bytes, created, hd, hcreated, hid, hurl⟩ := h.cli c _ hcli
      have hmsg : created = m := by
        rw [hsession] at hid hurl
        cases created
        cases m
        simp only at hid hurl
        rw [hid, hurl]
      rw [hmsg] at hcreated
      exact ⟨⟨bytes, true⟩, Stream.delivered_eq_some hd, hcreated⟩
  obtain ⟨stream, hr, hreceive⟩ := hflight
  obtain ⟨p, hello, created, ho, hp, henc⟩ := h.reply c stream hr
  have hmsg := Cli.Handshake.receiveCreated_encode henc hreceive
  rw [hmsg]
  exact ⟨p, hello, ho, hp⟩

/-- The `Hello` of a task is the one its CLI was started with. -/
theorem Linked.helloOfCli (h : Linked s) {c : Connection} {cli : Cli.Handshake}
    {hello : ClientMessage} (hcli : s.clis c = some cli) (hh : helloOn (s.links c) = some hello) :
    cli.hello = hello := by
  obtain ⟨bytes, hd, hreceive⟩ := Option.bind_eq_some_iff.mp hh
  have henc := h.cliHello c cli _ hcli (Stream.delivered_eq_some hd)
  exact (Task.receiveHello_encode henc hreceive).symm

/-- Until the server sees a connection close, a `SessionCreated` on its way to the CLI or received
by it names a session and a tunnel that both stores hold for the `Hello` of that connection, and no
other connection is told the same session. -/
theorem created_is_forwardable (proxy : ProxyState) {s : State} (hs : (system proxy).Reachable s) :
    (∀ c m, InFlight s c m ∨ Holds s c m → ¬ SeenClosed s c →
      ∃ hello, helloOn (s.links c) = some hello ∧
        (∀ cli, s.clis c = some cli → cli.hello = hello) ∧
        sessionOf s m.sessionId = some ⟨m.sessionId, hello.localPort, m.publicUrl⟩ ∧
        tunnelOf s m.sessionId = some ⟨c, hello.noEruda, hello.auth⟩ ∧
        s.stores.tunnels.connection m.sessionId = some (some c)) ∧
    ∀ c c' m m', InFlight s c m ∨ Holds s c m → InFlight s c' m' ∨ Holds s c' m' →
      m.sessionId = m'.sessionId → c = c' := by
  have hc := consistent_of_reachable hs
  have hl := linked_of_reachable hs
  constructor
  · intro c m hm hopen
    obtain ⟨p, hello, ho, hp⟩ := hl.sent hm
    have hclose : p.sawClose = false := by
      rw [Bool.eq_false_iff]
      exact fun hseen => hopen ⟨p, hello, m, ho, hseen⟩
    have htun := Phase.hasTunnel_of_hasSent hp hclose
    have hsess := Phase.hasSession_of_hasTunnel htun
    have hsession := hc.session c p hello m ho
    have htunnel := hc.tunnel c p hello m ho
    rw [if_pos hsess, sessionFor, ← hc.url c p hello m ho] at hsession
    rw [if_pos htun] at htunnel
    have harrived := hl.hello c _ hello ho rfl
    refine ⟨hello, harrived, ?_, hsession, htunnel, ?_⟩
    · exact fun cli hcli => hl.helloOfCli hcli harrived
    · rw [TunnelMap.connection_eq hc.tunnels]
      change some ((tunnelOf s m.sessionId).map TunnelEntry.connection) = _
      rw [htunnel]
      rfl
  · intro c c' m m' hm hm' hid
    obtain ⟨p, hello, ho, -⟩ := hl.sent hm
    obtain ⟨p', hello', ho', -⟩ := hl.sent hm'
    exact hc.distinct m.sessionId c c' hello hello' ⟨p, m, ho, rfl⟩ ⟨p', m', ho', hid.symm⟩

/-- One CLI connects, and its session can be forwarded to as soon as the CLI knows it. -/
theorem created_is_forwardable_single :
    let c : Connection := ⟨0⟩
    let hello : ClientMessage := ⟨3000, true, .cookie⟩
    let created : ServerMessage := ⟨⟨⟨Vector.replicate 16 1⟩⟩, "https://my-vps.com"⟩
    let proxy : ProxyState := ⟨id, "https://my-vps.com/"⟩
    ∃ s, (system proxy).Reachable s ∧ Holds s c created ∧ helloOn (s.links c) = some hello ∧
      sessionOf s created.sessionId = some ⟨created.sessionId, 3000, created.publicUrl⟩ ∧
      s.stores.tunnels.connection created.sessionId = some (some c) := by
  intro c hello created proxy
  let events := handshake c hello created.sessionId
  have hcli : ((system proxy).run (system proxy).init events).map (fun s => s.clis c) =
      some (some (.established hello ⟨created.sessionId, created.publicUrl, c⟩)) := by decide
  have htask : ((system proxy).run (system proxy).init events).map (fun s => s.tasks c) =
      some (some (.opened .awaitClosed hello created)) := by decide
  obtain ⟨s, hrun, hs⟩ := Option.map_eq_some_iff.mp hcli
  rw [hrun] at htask
  have hopened : Opened s c .awaitClosed hello created := Option.some.inj htask
  have hreach : (system proxy).Reachable s := ⟨events, hrun⟩
  have hholds : Holds s c created := ⟨hello, _, hs, rfl⟩
  have hopen : ¬ SeenClosed s c := by
    intro hseen
    obtain ⟨p, hello', created', ho, hp⟩ := hseen
    rw [(ho.unique hopened).1] at hp
    exact absurd hp (by decide)
  obtain ⟨hello', harrived, hsame, hsession, -, hconn⟩ :=
    (created_is_forwardable proxy hreach).1 c created (Or.inr hholds) hopen
  have heq : hello = hello' := hsame _ hs
  rw [← heq] at hsession harrived
  exact ⟨s, hreach, hholds, harrived, hsession, hconn⟩

end Mobilink.Deployment
