import Mobilink.Deployment.Handshake
import Mobilink.Library.Ranked
import Mobilink.Server.FrameLimits

/-! Every connection makes a bounded number of steps, and as long as the network loses nothing on it,
its CLI gets to a session that the server forwards to. -/
namespace Mobilink.Deployment
open Mobilink.Core Mobilink.Server

/-- What the two ends of a connection have, and what is between them. -/
structure Ends where
  task : Option Task
  link : Link
  cli : Option Cli.Handshake

def State.ends (s : State) (c : Connection) : Ends := ⟨s.tasks c, s.links c, s.clis c⟩

/-- The connection that a step is about. -/
def Event.connection? : Event → Option Connection
  | .connect c _ | .stranger c _ | .cli c _ | .task c _ => some c
  | .request _ _ => none

/-- A step about the connection `c`, as its two ends see it. -/
inductive EndsMove (s : State) (c : Connection) : Event → Ends → Prop where
  | connect (cli : Option ClientMessage) (h : s.tasks c = none) :
    EndsMove s c (.connect c cli)
      ⟨some .incoming, s.links c, cli.map (Cli.Handshake.pending .connect)⟩
  | stranger (bytes : List UInt8) (hcli : s.clis c = none) (htask : s.tasks c ≠ none)
      (hlink : (s.links c).hello = none) :
    EndsMove s c (.stranger c bytes)
      ⟨s.tasks c, { s.links c with hello := some ⟨bytes, true⟩ }, s.clis c⟩
  | cli {e : Cli.HandshakeEvent} {cli cli' : Cli.Handshake} {link : Link} (hcli : s.clis c = some cli)
      (h : cli.step c (s.links c) e = some (link, cli')) :
    EndsMove s c (.cli c e) ⟨s.tasks c, link, some cli'⟩
  | task {e : TaskEvent} {t t' : Task} {st : Stores} {link : Link} (hfresh : Fresh s e)
      (htask : s.tasks c = some t) (h : t.step c s.stores (s.links c) e = some (st, link, t')) :
    EndsMove s c (.task c e) ⟨some t', link, s.clis c⟩

section

variable {proxy : ProxyState} {s s' : State} {c : Connection} {ev : Event}

theorem endsMove_of_move (hm : Move proxy s ev s') (hc : ev.connection? = some c) :
    EndsMove s c ev (s'.ends c) := by
  cases hm with
  | connect cli h =>
    obtain rfl := Option.some.inj hc
    simpa [State.ends] using EndsMove.connect cli h
  | stranger bytes hcli htask hlink =>
    obtain rfl := Option.some.inj hc
    simpa [State.ends] using EndsMove.stranger bytes hcli htask hlink
  | cli hcli h =>
    obtain rfl := Option.some.inj hc
    simpa [State.ends, State.withCli] using EndsMove.cli hcli h
  | task hfresh htask h =>
    obtain rfl := Option.some.inj hc
    simpa [State.ends, State.withTask] using EndsMove.task hfresh htask h
  | request _ => exact absurd hc (by simp [Event.connection?])

theorem ends_of_move_ne (hm : Move proxy s ev s') (hc : ev.connection? ≠ some c) :
    s'.ends c = s.ends c := by
  cases hm with
  | request _ => rfl
  | connect _ _ | stranger _ _ _ _ | cli _ _ | task _ _ _ =>
    have hne : c ≠ _ := fun h => hc (congrArg some h.symm)
    simp [State.ends, State.withCli, State.withTask, Function.update_of_ne hne]

/-! ### The steps that a connection has left -/

def taskRank : Task → ℕ
  | .incoming => 10
  | .acceptBi => 9
  | .readHello => 8
  | .handleHello _ => 7
  | .opened .insertTunnel _ _ => 6
  | .opened .sendCreated _ _ => 5
  | .opened .finishSend _ _ => 4
  | .opened .awaitClosed _ _ => 3
  | .opened .removeTunnel _ _ => 2
  | .opened .closeSession _ _ => 1
  | .opened .returned _ _ | .opened (.failed _) _ _ | .ended _ | .panicked => 0

def cliRank : Option Cli.Handshake → ℕ
  | some (.pending .connect _) => 5
  | some (.pending .openBi _) => 4
  | some (.pending .sendHello _) => 3
  | some (.pending .finishHello _) => 2
  | some (.pending .readCreated _) => 1
  | some (.established _ _) | some (.failed _) | none => 0

/-- A peer that is no CLI may write something in place of the `Hello`, once. -/
def helloRank : Option Stream → ℕ
  | none => 1
  | some _ => 0

def Ends.rank (x : Ends) : ℕ :=
  match x.task with
  | none => 17
  | some t => taskRank t + cliRank x.cli + helloRank x.link.hello

theorem helloRank_le (x : Option Stream) : helloRank x ≤ 1 := by
  cases x <;> simp [helloRank]

theorem Ends.rank_le (x : Ends) : x.rank ≤ 17 := by
  have htask : ∀ t, taskRank t ≤ 10 := by
    intro t
    unfold taskRank
    split <;> omega
  have hcli : cliRank x.cli ≤ 5 := by
    unfold cliRank
    split <;> omega
  have hhello := helloRank_le x.link.hello
  unfold Ends.rank
  split
  · exact le_rfl
  · rename_i t _
    have ht := htask t
    omega

theorem taskRank_receiveHello (bytes : List UInt8) : taskRank (Task.receiveHello bytes) ≤ 7 := by
  unfold Task.receiveHello
  cases Wire.readToEnd Wire.maxFrameBytes bytes with
  | none => simp [taskRank]
  | some b =>
    dsimp only
    split <;> simp [taskRank]

theorem taskRank_step {st st' : Stores} {link link' : Link} {t t' : Task} {e : TaskEvent}
    (hr : st.registry.Healthy) (ht : st.tunnels.inner.poisoned = false)
    (h : t.step c st link e = some (st', link', t')) : taskRank t' < taskRank t := by
  cases Task.step_move hr ht h with
  | connects ok => cases ok <;> simp [taskRank]
  | accepts ok => cases ok <;> simp [taskRank]
  | @reads bytes _ => exact Nat.lt_succ_of_le (taskRank_receiveHello bytes)
  | _ => simp [taskRank]

/-- The task only reads what its peer has written. -/
theorem hello_taskStep {st st' : Stores} {link link' : Link} {t t' : Task} {e : TaskEvent}
    (hr : st.registry.Healthy) (ht : st.tunnels.inner.poisoned = false)
    (h : t.step c st link e = some (st', link', t')) : link'.hello = link.hello := by
  cases Task.step_move hr ht h <;> rfl

theorem rank_cliStep {link link' : Link} {cli cli' : Cli.Handshake} {e : Cli.HandshakeEvent}
    (h : cli.step c link e = some (link', cli')) :
    cliRank (some cli') < cliRank (some cli) ∧ helloRank link'.hello ≤ helloRank link.hello := by
  have hless : ∀ {link₁ : Link} {cli₁ : Cli.Handshake}, some (link₁, cli₁) = some (link', cli') →
      cliRank (some cli₁) < cliRank (some cli) → helloRank link₁.hello ≤ helloRank link.hello →
      cliRank (some cli') < cliRank (some cli) ∧ helloRank link'.hello ≤ helloRank link.hello := by
    intro link₁ cli₁ heq hcli hhello
    obtain ⟨rfl, rfl⟩ := Prod.mk.inj (Option.some.inj heq)
    exact ⟨hcli, hhello⟩
  unfold Cli.Handshake.step at h
  split at h
  · exact hless h (by split_ifs <;> simp [cliRank]) le_rfl
  · exact hless h (by split_ifs <;> simp [cliRank]) le_rfl
  · rw [Wire.encode_eq] at h
    dsimp only at h
    split_ifs at h
    · exact hless h (by simp [cliRank]) (Nat.zero_le _)
    · exact hless h (by simp [cliRank]) le_rfl
  · split_ifs at h
    · refine hless h (by simp [cliRank]) ?_
      cases link.hello <;> exact le_rfl
    · exact hless h (by simp [cliRank]) le_rfl
  · exact hless h (by simp [cliRank]) le_rfl
  · obtain ⟨bytes, -, h⟩ := Option.map_eq_some_iff.mp h
    split at h <;> exact hless (congrArg some h) (by simp [cliRank]) le_rfl
  · exact absurd h (by simp)

theorem Linked.task_of_cli (hl : Linked s) {cli : Cli.Handshake} (hcli : s.clis c = some cli) :
    ∃ t, s.tasks c = some t := by
  by_contra hnone
  have htask : s.tasks c = none := by
    by_contra hne
    exact hnone (Option.ne_none_iff_exists'.mp hne)
  exact absurd ((hl.untouched c htask).2.symm.trans hcli) (by simp)

theorem rank_endsMove {baseUrl : String} {x : Ends} (hc : Consistent baseUrl s) (hl : Linked s)
    (hm : EndsMove s c ev x) : x.rank < (s.ends c).rank := by
  cases hm with
  | connect cli h =>
    have hhello := helloRank_le (s.links c).hello
    cases cli <;> simp only [State.ends, h, Ends.rank, Option.map, taskRank, cliRank] <;> omega
  | stranger bytes _ htask hlink =>
    obtain ⟨t, ht⟩ := Option.ne_none_iff_exists'.mp htask
    simp only [State.ends, Ends.rank, ht, hlink, helloRank]
    omega
  | cli hcli h =>
    obtain ⟨t, ht⟩ := hl.task_of_cli hcli
    obtain ⟨hless, hhello⟩ := rank_cliStep h
    simp only [State.ends, Ends.rank, ht, hcli]
    omega
  | task _ htask h =>
    have hless := taskRank_step hc.registry hc.tunnels h
    simp only [State.ends, Ends.rank, htask, hello_taskStep hc.registry hc.tunnels h]
    omega

/-- Each step that is about a connection lowers its rank, and no other step changes it. -/
theorem ranked_connection (proxy : ProxyState) (c : Connection) :
    Transition.Ranked (system proxy) (fun s n => (s.ends c).rank ≤ n) (fun _ => 0)
      fun ev => if decide (ev.connection? = some c) then 1 else 0 := by
  constructor
  intro s ev s' n hs hn hstep
  refine ⟨(s'.ends c).rank, le_rfl, ?_⟩
  have hm := move_of_step hstep
  by_cases hc : ev.connection? = some c
  · have hless := rank_endsMove (consistent_of_reachable hs) (linked_of_reachable hs)
      (endsMove_of_move hm hc)
    rw [if_pos (decide_eq_true hc)]
    omega
  · rw [ends_of_move_ne hm hc, if_neg (by simpa using hc)]
    exact hn

/-! ### Connections on which nothing is lost -/

/-- The network breaks the handshake off, or the connection closes. -/
def Event.isLoss : Event → Bool
  | .cli _ ⟨_, ok⟩ => !ok
  | .task _ (.incoming ok) | .task _ (.acceptBi ok) | .task _ (.readHello ok)
  | .task _ (.sendCreated ok) | .task _ (.finishSend ok) => !ok
  | .task _ .connectionClosed => true
  | _ => false

/-- What a CLI has written is on its connection. -/
def CliUnbroken (link : Link) : Cli.Handshake → Prop
  | .pending .finishHello _ => link.hello.isSome = true
  | .pending .readCreated _ | .established _ _ => (Stream.delivered link.hello).isSome = true
  | .failed _ => False
  | _ => True

/-- What the task of a CLI has written is on the connection, and the task goes on, unless the registry
has refused the session. -/
def TaskUnbroken (link : Link) : Task → Prop
  | .opened .finishSend _ _ => link.reply.isSome = true
  | .opened .awaitClosed _ _ => (Stream.delivered link.reply).isSome = true
  | .opened .removeTunnel _ _ | .opened .closeSession _ _ | .opened .returned _ _ => False
  | .opened (.failed _) _ _ | .panicked => False
  | .ended reason => reason = .handshakeRefused
  | _ => True

structure Unbroken (x : Ends) : Prop where
  cli : ∀ cli, x.cli = some cli → CliUnbroken x.link cli
  task : ∀ t, x.task = some t → x.cli ≠ none → TaskUnbroken x.link t

theorem CliUnbroken.congr {link link' : Link} {cli : Cli.Handshake} (h : CliUnbroken link cli)
    (hsame : link'.hello = link.hello) : CliUnbroken link' cli := by
  unfold CliUnbroken at h ⊢
  rw [hsame]
  exact h

theorem TaskUnbroken.congr {link link' : Link} {t : Task} (h : TaskUnbroken link t)
    (hsame : link'.reply = link.reply) : TaskUnbroken link' t := by
  unfold TaskUnbroken at h ⊢
  rw [hsame]
  exact h

/-- Without a loss a CLI goes on, if it can decode what it reads. -/
theorem CliUnbroken.step {link link' : Link} {cli cli' : Cli.Handshake} {e : Cli.HandshakeEvent}
    (h : CliUnbroken link cli) (hstep : cli.step c link e = some (link', cli')) (hok : e.ok = true)
    (hreceive : ∀ bytes, Stream.delivered link.reply = some bytes →
      Cli.Handshake.receiveCreated bytes ≠ none) :
    CliUnbroken link' cli' ∧ link'.reply = link.reply := by
  have hsame : ∀ {link₁ : Link} {cli₁ : Cli.Handshake}, some (link₁, cli₁) = some (link', cli') →
      CliUnbroken link₁ cli₁ → link₁.reply = link.reply →
      CliUnbroken link' cli' ∧ link'.reply = link.reply := by
    intro link₁ cli₁ heq hcli hreply
    obtain ⟨rfl, rfl⟩ := Prod.mk.inj (Option.some.inj heq)
    exact ⟨hcli, hreply⟩
  unfold Cli.Handshake.step at hstep
  split at hstep
  · rw [if_pos hok] at hstep
    exact hsame hstep trivial rfl
  · rw [if_pos hok] at hstep
    exact hsame hstep trivial rfl
  · rw [Wire.encode_eq] at hstep
    dsimp only at hstep
    rw [if_pos hok] at hstep
    exact hsame hstep rfl rfl
  · rw [if_pos hok] at hstep
    obtain ⟨stream, hstream⟩ := Option.isSome_iff_exists.mp h
    refine hsame hstep ?_ rfl
    change (Stream.delivered (link.hello.map Stream.finish)).isSome = true
    rw [hstream]
    rfl
  · exact absurd hok (by simp)
  · obtain ⟨bytes, hbytes, hmap⟩ := Option.map_eq_some_iff.mp hstep
    obtain ⟨created, hcreated⟩ := Option.ne_none_iff_exists'.mp (hreceive bytes hbytes)
    rw [hcreated] at hmap
    exact hsame (congrArg some hmap) h rfl
  · exact absurd hstep (by simp)

/-- Without a loss a task goes on, if it can decode what it reads. -/
theorem TaskUnbroken.step {st st' : Stores} {link link' : Link} {t t' : Task} {e : TaskEvent}
    (h : TaskUnbroken link t) (hr : st.registry.Healthy) (ht : st.tunnels.inner.poisoned = false)
    (hstep : t.step c st link e = some (st', link', t')) (hloss : (Event.task c e).isLoss = false)
    (hreceive : ∀ bytes, Stream.delivered link.hello = some bytes →
      ∃ hello, Task.receiveHello bytes = .handleHello hello) : TaskUnbroken link' t' := by
  cases Task.step_move hr ht hstep with
  | connects ok | accepts ok =>
    cases ok with
    | true => trivial
    | false => exact absurd hloss (by simp [Event.isLoss])
  | reads hbytes =>
    obtain ⟨hello, hhello⟩ := hreceive _ hbytes
    rw [hhello]
    trivial
  | refuses _ => rfl
  | opens _ | inserts => trivial
  | sends _ => rfl
  | finishes =>
    obtain ⟨stream, hstream⟩ := Option.isSome_iff_exists.mp h
    change (Stream.delivered (link.reply.map Stream.finish)).isSome = true
    rw [hstream]
    rfl
  | breaksOff | isStopped | isUnfinished | seesClose => exact absurd hloss (by simp [Event.isLoss])
  | removes | closes => exact h.elim

/-! ### Both ends can decode what they read -/

theorem receiveHello_of_encode {hello : ClientMessage} {bytes : List UInt8}
    (hbytes : Wire.encode hello = some bytes) : Task.receiveHello bytes = .handleHello hello := by
  have hlen : (ClientMessage.codec.encode hello).length ≤ Wire.maxFrameBytes := by
    rw [ClientMessage.length_encode]
    decide
  have hreceive := Wire.receive_of_fits hello.fits hlen
  obtain rfl := Option.some.inj ((Wire.encode_eq hello).symm.trans hbytes)
  obtain ⟨b, hread, hdecode⟩ := Option.bind_eq_some_iff.mp hreceive
  rw [Task.receiveHello, hread]
  dsimp only
  rw [hdecode]

theorem receiveCreated_of_encode {created : ServerMessage} (hfits : FitsFrame created)
    {bytes : List UInt8} (hbytes : Wire.encode created = some bytes) :
    Cli.Handshake.receiveCreated bytes = some created := by
  have hlen : (ServerMessage.codec.encode created).length ≤ Wire.maxFrameBytes :=
    (fitsFrame_iff created).mp hfits
  have hurl : created.publicUrl.utf8ByteSize < 256 ^ 8 := by
    have hmax : Wire.maxFrameBytes = 32 * 1024 * 1024 := rfl
    rw [ServerMessage.length_encode, hmax] at hlen
    omega
  obtain rfl := Option.some.inj ((Wire.encode_eq created).symm.trans hbytes)
  exact Wire.receive_of_fits (created.fits hurl) hlen

theorem Unbroken.move {baseUrl : String} {x : Ends} (h : Unbroken (s.ends c))
    (hc : Consistent baseUrl s) (hl : Linked s)
    (hfits : ∀ id, FitsFrame (ServerMessage.sessionCreated id baseUrl)) (hm : EndsMove s c ev x)
    (hloss : ev.isLoss = false) : Unbroken x := by
  cases hm with
  | connect cli _ =>
    refine ⟨?_, fun t ht _ => ?_⟩
    · intro cli' hcli'
      obtain ⟨hello, -, rfl⟩ := Option.map_eq_some_iff.mp hcli'
      trivial
    · rw [← Option.some.inj ht]
      trivial
  | stranger bytes hcli _ _ =>
    exact ⟨fun cli hcli' => absurd (hcli.symm.trans hcli') (by simp), fun _ _ hne => absurd hcli hne⟩
  | @cli e cli cli' link hcli hstep =>
    have hok : e.ok = true := by
      rw [Event.isLoss] at hloss
      simpa using hloss
    have hreceive : ∀ bytes, Stream.delivered (s.links c).reply = some bytes →
        Cli.Handshake.receiveCreated bytes ≠ none := by
      intro bytes hbytes
      obtain ⟨p, hello, created, ho, -, henc⟩ := hl.reply c _ (Stream.delivered_eq_some hbytes)
      have hcreated : created = ⟨created.sessionId, baseUrl⟩ := by
        rw [← hc.url c p hello created ho]
      rw [hcreated] at henc
      rw [receiveCreated_of_encode (hfits _) henc]
      simp
    obtain ⟨hcli', hreply⟩ := (h.cli cli hcli).step hstep hok hreceive
    refine ⟨?_, ?_⟩
    · intro cli₁ heq
      rw [← Option.some.inj heq]
      exact hcli'
    · exact fun t ht _ => (h.task t ht (by simp [State.ends, hcli])).congr hreply
  | @task e t t' st link _ htask hstep =>
    have hhello := hello_taskStep hc.registry hc.tunnels hstep
    refine ⟨fun cli hcli => (h.cli cli hcli).congr hhello, ?_⟩
    intro t₁ heq hne
    rw [← Option.some.inj heq]
    refine (h.task t htask hne).step hc.registry hc.tunnels hstep hloss ?_
    intro bytes hbytes
    obtain ⟨cli, hcli⟩ := Option.ne_none_iff_exists'.mp hne
    have hencode := hl.cliHello c cli _ hcli (Stream.delivered_eq_some hbytes)
    exact ⟨cli.hello, receiveHello_of_encode hencode⟩

/-- No step about the connection has been a loss. -/
def LosslessOn (c : Connection) (events : List Event) : Prop :=
  ∀ ev ∈ events, ev.connection? = some c → ev.isLoss = false

/-- Whatever session the server creates, its `SessionCreated` fits in a frame. -/
def CreatedFits (proxy : ProxyState) : Prop :=
  ∀ id, FitsFrame
    (ServerMessage.sessionCreated id (InMemorySessionRegistry.new proxy.publicUrl).publicBaseUrl)

theorem Unbroken.step (hs : (system proxy).Reachable s) (hfits : CreatedFits proxy)
    (h : Unbroken (s.ends c)) (hstep : step proxy s ev = some s')
    (hloss : ev.connection? = some c → ev.isLoss = false) : Unbroken (s'.ends c) := by
  have hm := move_of_step hstep
  by_cases hc : ev.connection? = some c
  · exact h.move (consistent_of_reachable hs) (linked_of_reachable hs) hfits
      (endsMove_of_move hm hc) (hloss hc)
  · rw [ends_of_move_ne hm hc]
    exact h

theorem unbroken_of_run {events : List Event} (hfits : CreatedFits proxy)
    (hrun : (system proxy).run (system proxy).init events = some s)
    (hlossless : LosslessOn c events) : Unbroken (s.ends c) := by
  refine Transition.System.run_induction (P := fun past u => LosslessOn c past → Unbroken (u.ends c))
    ?_ ?_ hrun hlossless
  · exact fun _ => ⟨fun _ h => absurd h (by simp [system, init, State.ends]),
      fun _ h => absurd h (by simp [system, init, State.ends])⟩
  · intro past u ev u' hpast hu hstep hlossless
    refine (hu fun ev' hev' => hlossless ev' (List.mem_append_left _ hev')).step ⟨past, hpast⟩ hfits
      hstep ?_
    exact hlossless ev (List.mem_append_right _ (List.mem_singleton_self ev))

/-! ### The handshake leads to a session -/

/-- A handshake that can still succeed, if the next id that the server draws for it is `id`. -/
structure Promising (id : SessionId) (c : Connection) (hello : ClientMessage) (s : State) : Prop where
  unbroken : Unbroken (s.ends c)
  cli : ∃ cli, s.clis c = some cli ∧ cli.hello = hello
  accepted : s.tasks c ≠ some (.ended .handshakeRefused)
  undrawn : id ∈ s.drawn → ∃ t, s.tasks c = some t ∧ t.isOpened = true

/-- A step of the handshake without a loss, in which no other id than `id` is drawn. -/
def Leads (id : SessionId) (c : Connection) (ev : Event) : Prop :=
  ev.connection? = some c ∧ ev.isLoss = false ∧
    ∀ drawn, ev = .task c (.handleHello drawn) → drawn = id

theorem hello_cliStep {link link' : Link} {cli cli' : Cli.Handshake} {e : Cli.HandshakeEvent}
    (h : cli.step c link e = some (link', cli')) : cli'.hello = cli.hello := by
  cases Cli.Handshake.step_linkEffect h <;> rfl

/-- A session that is in the registry has been drawn. -/
theorem Consistent.mem_drawn {baseUrl : String} (hc : Consistent baseUrl s) {id : SessionId}
    (hid : id ∈ s.stores.registry.sessions.value) : id ∈ s.drawn := by
  have hsession : sessionOf s id ≠ none := by
    rw [sessionOf, Ne, Finmap.lookup_eq_none]
    exact not_not.mpr hid
  obtain ⟨c, hello, ha⟩ := hc.knownSession id hsession
  exact hc.drawn id c hello ha

/-- The task is not refused, and once `id` is drawn it has opened a session. -/
theorem Promising.taskStep {baseUrl : String} {id : SessionId} {hello : ClientMessage}
    (h : Promising id c hello s) (hc : Consistent baseUrl s) {e : TaskEvent} {t t' : Task}
    {st : Stores} {link : Link} (htask : s.tasks c = some t)
    (hstep : t.step c s.stores (s.links c) e = some (st, link, t'))
    (hdraw : ∀ drawn, e = .handleHello drawn → drawn = id) :
    t' ≠ .ended .handshakeRefused ∧ (id ∈ draws e ++ s.drawn → t'.isOpened = true) := by
  have hkeeps : draws e = [] → (t.isOpened = true → t'.isOpened = true) →
      id ∈ draws e ++ s.drawn → t'.isOpened = true := by
    intro hnone hopened hid
    rw [hnone, List.nil_append] at hid
    obtain ⟨t₁, ht₁, h₁⟩ := h.undrawn hid
    exact hopened (Option.some.inj (htask.symm.trans ht₁) ▸ h₁)
  cases Task.step_move hc.registry hc.tunnels hstep with
  | connects ok | accepts ok => exact ⟨by cases ok <;> simp, hkeeps rfl (by simp [Task.isOpened])⟩
  | @reads bytes _ =>
    refine ⟨?_, hkeeps rfl (by simp [Task.isOpened])⟩
    unfold Task.receiveHello
    cases Wire.readToEnd Wire.maxFrameBytes bytes with
    | none => simp
    | some b =>
      dsimp only
      split <;> simp
  | breaksOff => exact ⟨by simp, hkeeps rfl (by simp [Task.isOpened])⟩
  | refuses hd =>
    -- An id that is in the registry has been drawn, and not for this task.
    obtain rfl := hdraw _ rfl
    obtain ⟨t₁, ht₁, h₁⟩ := h.undrawn (hc.mem_drawn hd)
    rw [← Option.some.inj (htask.symm.trans ht₁)] at h₁
    exact absurd h₁ (by simp [Task.isOpened])
  | opens _ => exact ⟨by simp, fun _ => rfl⟩
  | _ => exact ⟨by simp, fun _ => rfl⟩

theorem Promising.step {id : SessionId} {hello : ClientMessage} (h : Promising id c hello s)
    (hs : (system proxy).Reachable s) (hfits : CreatedFits proxy)
    (hstep : step proxy s ev = some s') (hleads : Leads id c ev) : Promising id c hello s' := by
  have hc := consistent_of_reachable hs
  have hl := linked_of_reachable hs
  obtain ⟨hev, hloss, hdraw⟩ := hleads
  have hunbroken := h.unbroken.step hs hfits hstep fun _ => hloss
  obtain ⟨cli, hcli, hhello⟩ := h.cli
  cases move_of_step hstep with
  | connect _ hnone =>
    obtain rfl := Option.some.inj hev
    obtain ⟨t, ht⟩ := hl.task_of_cli hcli
    exact absurd (hnone.symm.trans ht) (by simp)
  | stranger _ hnone _ _ =>
    obtain rfl := Option.some.inj hev
    exact absurd (hnone.symm.trans hcli) (by simp)
  | @cli _ _ cli₀ out hcli₀ hcliStep =>
    obtain rfl := Option.some.inj hev
    obtain rfl := Option.some.inj (hcli.symm.trans hcli₀)
    refine ⟨hunbroken, ⟨out.2, by simp [State.withCli], ?_⟩, h.accepted, h.undrawn⟩
    rw [hello_cliStep hcliStep, hhello]
  | @task _ e t out _ htask htaskStep =>
    obtain rfl := Option.some.inj hev
    obtain ⟨haccepted, hopened⟩ :=
      h.taskStep hc htask htaskStep fun drawn hdrawn => hdraw drawn (by rw [hdrawn])
    refine ⟨hunbroken, ⟨cli, hcli, hhello⟩, ?_, ?_⟩
    · simpa [State.withTask] using haccepted
    · exact fun hid => ⟨out.2.2, by simp [State.withTask], hopened hid⟩
  | request _ => exact absurd hev (by simp [Event.connection?])

def Established (s : State) (c : Connection) : Prop :=
  ∃ hello session, s.clis c = some (.established hello session)

theorem isSome_step_cli (proxy : ProxyState) {cli : Cli.Handshake} {e : Cli.HandshakeEvent}
    (hcli : s.clis c = some cli) (h : (cli.step c (s.links c) e).isSome = true) :
    (step proxy s (.cli c e)).isSome = true := by
  obtain ⟨out, hout⟩ := Option.isSome_iff_exists.mp h
  simp [Deployment.step, hcli, hout]

theorem isSome_step_task (proxy : ProxyState) {t : Task} {e : TaskEvent} (hfresh : Fresh s e)
    (htask : s.tasks c = some t) (h : (t.step c s.stores (s.links c) e).isSome = true) :
    (step proxy s (.task c e)).isSome = true := by
  obtain ⟨out, hout⟩ := Option.isSome_iff_exists.mp h
  simp [Deployment.step, hfresh, htask, hout]

theorem fresh_of_draws_eq_nil {e : TaskEvent} (h : draws e = []) : Fresh s e := by
  intro id hid
  rw [h] at hid
  exact absurd hid (by simp)

/-- The CLI waits for the server, and the server for nothing that is not there. -/
theorem exists_task_step (proxy : ProxyState) {baseUrl : String} {id : SessionId}
    {hello : ClientMessage} (h : Promising id c hello s) (hc : Consistent baseUrl s) {t : Task}
    (htask : s.tasks c = some t)
    (hwritten : (Stream.delivered (s.links c).hello).isSome = true) :
    (∃ hello created, t = .opened .awaitClosed hello created) ∨
      ∃ e, Leads id c (.task c e) ∧ (step proxy s (.task c e)).isSome = true := by
  obtain ⟨cli, hcli, -⟩ := h.cli
  have hunbroken := h.unbroken.task t htask (by simp [State.ends, hcli])
  have hgoes : ∀ e, (Event.task c e).isLoss = false → draws e = [] →
      (t.step c s.stores (s.links c) e).isSome = true →
      ∃ e, Leads id c (.task c e) ∧ (step proxy s (.task c e)).isSome = true := by
    intro e hloss hdraws hstep
    refine ⟨e, ⟨rfl, hloss, ?_⟩, isSome_step_task proxy (fresh_of_draws_eq_nil hdraws) htask hstep⟩
    intro drawn heq
    obtain ⟨-, rfl⟩ := Event.task.inj heq
    exact absurd hdraws (by simp [draws])
  cases t with
  | incoming => exact Or.inr (hgoes (.incoming true) rfl rfl rfl)
  | acceptBi => exact Or.inr (hgoes (.acceptBi true) rfl rfl rfl)
  | readHello =>
    obtain ⟨bytes, hbytes⟩ := Option.isSome_iff_exists.mp hwritten
    exact Or.inr (hgoes (.readHello true) rfl rfl (by simp [Task.step, hbytes]))
  | handleHello hello =>
    have hfresh : Fresh s (.handleHello id) := by
      intro id' hid' hdrawn
      obtain rfl : id' = id := by simpa [draws] using hid'
      obtain ⟨t, ht, hopened⟩ := h.undrawn hdrawn
      rw [← Option.some.inj (htask.symm.trans ht)] at hopened
      exact absurd hopened (by simp [Task.isOpened])
    refine Or.inr ⟨.handleHello id, ⟨rfl, rfl, ?_⟩, isSome_step_task proxy hfresh htask ?_⟩
    · intro drawn heq
      simpa using heq.symm
    · rw [Task.step]
      split <;> rfl
  | opened phase hello created =>
    cases phase with
    | insertTunnel =>
      refine Or.inr (hgoes .insertTunnel rfl rfl ?_)
      rw [Task.step, TunnelMap.insert_eq hc.tunnels]
      rfl
    | sendCreated =>
      refine Or.inr (hgoes (.sendCreated true) rfl rfl ?_)
      rw [Task.step, Wire.encode_eq]
      rfl
    | finishSend => exact Or.inr (hgoes (.finishSend true) rfl rfl rfl)
    | awaitClosed => exact Or.inl ⟨hello, created, rfl⟩
    | removeTunnel | closeSession | returned | failed _ => exact hunbroken.elim
  | ended reason =>
    obtain rfl : reason = .handshakeRefused := hunbroken
    exact absurd htask h.accepted
  | panicked => exact hunbroken.elim

theorem Promising.progress {id : SessionId} {hello : ClientMessage} (h : Promising id c hello s)
    (hs : (system proxy).Reachable s) (hpending : ¬ Established s c) :
    ∃ ev, Leads id c ev ∧ ((system proxy).step s ev).isSome = true := by
  obtain ⟨cli, hcli, -⟩ := h.cli
  have hunbroken := h.unbroken.cli cli hcli
  obtain ⟨t, ht⟩ := (linked_of_reachable hs).task_of_cli hcli
  have hgoes : ∀ stage, (cli.step c (s.links c) ⟨stage, true⟩).isSome = true →
      ∃ ev, Leads id c ev ∧ ((system proxy).step s ev).isSome = true :=
    fun stage hstep =>
      ⟨.cli c ⟨stage, true⟩, ⟨rfl, rfl, by simp⟩, isSome_step_cli proxy hcli hstep⟩
  cases cli with
  | pending stage hello' =>
    cases stage with
    | connect => exact hgoes .connect rfl
    | openBi => exact hgoes .openBi rfl
    | sendHello => exact hgoes .sendHello (by simp [Cli.Handshake.step, Wire.encode_eq])
    | finishHello => exact hgoes .finishHello rfl
    | readCreated =>
      rcases exists_task_step proxy h (consistent_of_reachable hs) ht hunbroken with
        ⟨hello, created, rfl⟩ | ⟨e, hleads, hstep⟩
      · have hsent := h.unbroken.task _ ht (by simp [State.ends, hcli])
        obtain ⟨bytes, hbytes⟩ := Option.isSome_iff_exists.mp hsent
        have hbytes : Stream.delivered (s.links c).reply = some bytes := hbytes
        exact hgoes .readCreated (by simp [Cli.Handshake.step, hbytes])
      · exact ⟨.task c e, hleads, hstep⟩
  | established hello' session => exact absurd ⟨hello', session, hcli⟩ hpending
  | failed hello' => exact hunbroken.elim

/-- A CLI that knows its session has a task that goes on serving it. -/
theorem serves_of_established (hs : (system proxy).Reachable s) (hunbroken : Unbroken (s.ends c))
    {hello : ClientMessage} {session : Cli.TunnelSession}
    (hcli : s.clis c = some (.established hello session)) :
    session.connection = c ∧
      sessionOf s session.sessionId = some ⟨session.sessionId, hello.localPort, session.publicUrl⟩ ∧
      tunnelOf s session.sessionId = some ⟨c, hello.noEruda, hello.auth⟩ := by
  have hc := consistent_of_reachable hs
  have hl := linked_of_reachable hs
  obtain ⟨hconnection, bytes, created, hbytes, hreceive, hid, hurl⟩ := hl.cli c _ hcli
  obtain ⟨p, hello', created', ho, hsent, henc⟩ := hl.reply c _ (Stream.delivered_eq_some hbytes)
  obtain rfl := Cli.Handshake.receiveCreated_encode henc hreceive
  obtain rfl : hello = hello' := hl.helloOfCli hcli (hl.hello c _ hello' ho rfl)
  have hopen : p.sawClose = false := by
    have hgoes := hunbroken.task _ ho (by simp [State.ends, hcli])
    cases p with
    | removeTunnel | closeSession | returned => exact hgoes.elim
    | _ => rfl
  have htunnel := Phase.hasTunnel_of_hasSent hsent hopen
  refine ⟨hconnection, ?_, ?_⟩
  · rw [hid, hurl, hc.session c p hello created ho,
      if_pos (Phase.hasSession_of_hasTunnel htunnel), sessionFor, hc.url c p hello created ho]
  · rw [hid, hc.tunnel c p hello created ho, if_pos htunnel, tunnelFor]

/-- However a handshake went so far, as long as nothing was lost on its connection, the registry has
not refused it and there is an id that was never drawn, its own steps lead to a session that both
stores hold for it. All its steps together are at most seventeen. -/
theorem handshake_completes (hfits : CreatedFits proxy) {events : List Event}
    (hrun : (system proxy).run (system proxy).init events = some s)
    (hlossless : LosslessOn c events) {cli : Cli.Handshake} (hcli : s.clis c = some cli)
    (haccepted : s.tasks c ≠ some (.ended .handshakeRefused)) {id : SessionId}
    (hid : id ∉ s.drawn) :
    ∃ more t session, (system proxy).run s more = some t ∧
      (∀ ev ∈ more, ev.connection? = some c ∧ ev.isLoss = false) ∧
      (events ++ more).countP (fun ev => ev.connection? = some c) ≤ 17 ∧
      t.clis c = some (.established cli.hello session) ∧ session.connection = c ∧
      sessionOf t session.sessionId =
        some ⟨session.sessionId, cli.hello.localPort, session.publicUrl⟩ ∧
      tunnelOf t session.sessionId = some ⟨c, cli.hello.noEruda, cli.hello.auth⟩ := by
  have hs : (system proxy).Reachable s := ⟨events, hrun⟩
  have hpromising : Promising id c cli.hello s :=
    ⟨unbroken_of_run hfits hrun hlossless, ⟨cli, hcli, rfl⟩, haccepted,
      fun hdrawn => absurd hdrawn hid⟩
  have hranked := ranked_connection proxy c
  have hprogress : ∀ s, (system proxy).Reachable s → Promising id c cli.hello s →
      ¬ (Promising id c cli.hello s ∧ Established s c) →
      ∃ ev, Leads id c ev ∧ ((system proxy).step s ev).isSome = true :=
    fun s hs h hpending => h.progress hs fun hestablished => hpending ⟨h, hestablished⟩
  obtain ⟨more, t, hmore, hleads, -, ht, hello, session, hestablished⟩ := hranked.exists_run
    (Promising id c cli.hello) (fun s => Promising id c cli.hello s ∧ Established s c) (Leads id c)
    (fun ev hev => by simp [hev.1]) (fun s ev s' hs h hev hstep => h.step hs hfits hstep hev)
    hprogress hs hpromising le_rfl
  obtain ⟨cli', hcli', hhello⟩ := ht.cli
  obtain rfl : hello = cli.hello := by
    rw [← hhello, Option.some.inj (hcli'.symm.trans hestablished)]
    rfl
  have hall : (system proxy).run (system proxy).init (events ++ more) = some t :=
    ((system proxy).run_append_iff _ _ _ _).mpr ⟨s, hrun, hmore⟩
  have hserves := serves_of_established (hs.run hmore) ht.unbroken hestablished
  refine ⟨more, t, session, hmore, ?_, ?_, hestablished, hserves⟩
  · exact fun ev hev => ⟨(hleads ev hev).1, (hleads ev hev).2.1⟩
  · exact hranked.countP_le (system proxy).reachable_init (Ends.rank_le _) hall

/-- The CLI has just connected, and another one has a session already. -/
theorem handshake_completes_second :
    let c : Connection := ⟨1⟩
    let hello : ClientMessage := ⟨3000, true, .cookie⟩
    let proxy : ProxyState := ⟨id, "https://my-vps.com/"⟩
    let events := handshake ⟨0⟩ ⟨8080, false, .bearer⟩ ⟨⟨Vector.replicate 16 1⟩⟩ ++
      [.connect c (some hello)]
    ∃ s more t session, (system proxy).run (system proxy).init events = some s ∧
      (system proxy).run s more = some t ∧ t.clis c = some (.established hello session) ∧
      sessionOf t session.sessionId = some ⟨session.sessionId, 3000, session.publicUrl⟩ ∧
      tunnelOf t session.sessionId = some ⟨c, true, .cookie⟩ := by
  intro c hello proxy events
  have hend : ((system proxy).run (system proxy).init events).map
      (fun s => (s.clis c, s.tasks c, s.drawn)) = some (some (.pending .connect hello),
        some .incoming, [⟨⟨Vector.replicate 16 1⟩⟩]) := by decide
  obtain ⟨s, hs, hfacts⟩ := Option.map_eq_some_iff.mp hend
  simp only [Prod.mk.injEq] at hfacts
  obtain ⟨hcli, htask, hdrawn⟩ := hfacts
  have hfits : CreatedFits proxy := by
    intro id
    have hlen := ServerMessage.length_encode
      ⟨id, (InMemorySessionRegistry.new proxy.publicUrl).publicBaseUrl⟩
    have hsize : 36 + (InMemorySessionRegistry.new proxy.publicUrl).publicBaseUrl.utf8ByteSize ≤
        Wire.maxFrameBytes := by decide
    exact (fitsFrame_iff _).mpr (hlen.le.trans hsize)
  have hlossless : LosslessOn c events := by
    unfold LosslessOn
    decide
  have hfresh : (⟨⟨Vector.replicate 16 2⟩⟩ : SessionId) ∉ s.drawn := by
    rw [hdrawn]
    decide
  obtain ⟨more, t, session, hmore, -, -, hestablished, -, hsession, htunnel⟩ :=
    handshake_completes hfits hs hlossless hcli (by simp [htask]) hfresh
  exact ⟨s, more, t, session, hs, hmore, hestablished, hsession, htunnel⟩

end

end Mobilink.Deployment
