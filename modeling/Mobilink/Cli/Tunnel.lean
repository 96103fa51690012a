import Mobilink.Core.Http
import Mobilink.Core.Message
import Mobilink.Core.Quic

/-! `connect_and_handshake`: the CLI's half of the handshake, cut at every point where it waits for
the network. -/
namespace Mobilink.Cli
open Mobilink.Core

/-- A successfully established tunnel session. -/
structure TunnelSession where
  sessionId : SessionId
  publicUrl : String
  connection : Connection
  deriving DecidableEq

/-- What the CLI does next. -/
inductive Stage where
  | connect
  | openBi
  | sendHello
  | finishHello
  | readCreated
  deriving DecidableEq

inductive Handshake where
  | pending (stage : Stage) (hello : ClientMessage)
  | established (hello : ClientMessage) (session : TunnelSession)
  | failed (hello : ClientMessage)
  deriving DecidableEq

/-- What the CLI waits for, with the answer of the network. -/
structure HandshakeEvent where
  stage : Stage
  ok : Bool
  deriving DecidableEq

namespace Handshake

/-- The arguments `local_port`, `no_eruda` and `auth`, as the message that carries them. -/
def hello : Handshake → ClientMessage
  | pending _ hello => hello
  | established hello _ => hello
  | failed hello => hello

/-- `recv.read_to_end(MAX_FRAME_BYTES)` and `wire::decode` of a finished stream. -/
def receiveCreated (bytes : List UInt8) : Option ServerMessage :=
  (Wire.readToEnd Wire.maxFrameBytes bytes).bind Wire.decode

/-- The body of `connect_and_handshake` on the connection `c`. -/
def step (c : Connection) (link : Link) : Handshake → HandshakeEvent → Option (Link × Handshake)
  | .pending .connect hello, ⟨.connect, ok⟩ =>
    some (link, if ok then .pending .openBi hello else .failed hello)
  | .pending .openBi hello, ⟨.openBi, ok⟩ =>
    some (link, if ok then .pending .sendHello hello else .failed hello)
  | .pending .sendHello hello, ⟨.sendHello, ok⟩ =>
    match Wire.encode hello with
    | none => some (link, .failed hello)
    | some bytes =>
      if ok then some ({ link with hello := some ⟨bytes, false⟩ }, .pending .finishHello hello)
      else some (link, .failed hello)
  | .pending .finishHello hello, ⟨.finishHello, ok⟩ =>
    if ok then
      some ({ link with hello := link.hello.map Stream.finish }, .pending .readCreated hello)
    else some (link, .failed hello)
  | .pending .readCreated hello, ⟨.readCreated, false⟩ => some (link, .failed hello)
  | .pending .readCreated hello, ⟨.readCreated, true⟩ =>
    (Stream.delivered link.reply).map fun bytes =>
      match receiveCreated bytes with
      | none => (link, .failed hello)
      | some created => (link, .established hello ⟨created.sessionId, created.publicUrl, c⟩)
  | _, _ => none

/-- The CLI only ever reads the answer that the server wrote. -/
theorem receiveCreated_encode {created out : ServerMessage} {bytes : List UInt8}
    (hbytes : Wire.encode created = some bytes) (h : receiveCreated bytes = some out) :
    out = created := by
  apply Wire.receive_encode hbytes _ h
  intro hlen
  have hb : ServerMessage.codec.encode created = bytes :=
    Option.some.inj ((Wire.encode_eq created).symm.trans hbytes)
  have hmax : Wire.maxFrameBytes = 32 * 1024 * 1024 := rfl
  rw [← hb, ServerMessage.length_encode, hmax] at hlen
  apply ServerMessage.fits
  omega

/-- Of the handshake stream, the CLI writes one direction, once, and reads the other. -/
inductive LinkEffect (c : Connection) (link : Link) : Handshake → Link → Handshake → Prop where
  | waits {stage stage' : Stage} {hello : ClientMessage}
      (h : stage = .connect ∨ stage = .openBi) (h' : stage' = .openBi ∨ stage' = .sendHello) :
    LinkEffect c link (.pending stage hello) link (.pending stage' hello)
  | fails {cli : Handshake} : LinkEffect c link cli link (.failed cli.hello)
  | sends {hello : ClientMessage} {bytes : List UInt8} (h : Wire.encode hello = some bytes) :
    LinkEffect c link (.pending .sendHello hello) { link with hello := some ⟨bytes, false⟩ }
      (.pending .finishHello hello)
  | finishes {hello : ClientMessage} :
    LinkEffect c link (.pending .finishHello hello)
      { link with hello := link.hello.map Stream.finish } (.pending .readCreated hello)
  | receives {hello : ClientMessage} {created : ServerMessage} {bytes : List UInt8}
      (h : Stream.delivered link.reply = some bytes) (hc : receiveCreated bytes = some created) :
    LinkEffect c link (.pending .readCreated hello) link
      (.established hello ⟨created.sessionId, created.publicUrl, c⟩)

private theorem some_eq {link link' : Link} {cli cli' : Handshake}
    (h : some (link, cli) = some (link', cli')) : link' = link ∧ cli' = cli := by
  have he := Option.some.inj h
  simp only [Prod.mk.injEq] at he
  exact ⟨he.1.symm, he.2.symm⟩

theorem step_linkEffect {c : Connection} {link link' : Link} {cli cli' : Handshake}
    {e : HandshakeEvent} (h : cli.step c link e = some (link', cli')) :
    LinkEffect c link cli link' cli' := by
  unfold step at h
  split at h
  · obtain ⟨rfl, rfl⟩ := some_eq h
    split_ifs
    · exact .waits (Or.inl rfl) (Or.inl rfl)
    · exact .fails
  · obtain ⟨rfl, rfl⟩ := some_eq h
    split_ifs
    · exact .waits (Or.inr rfl) (Or.inr rfl)
    · exact .fails
  · rename_i hello ok
    rw [Wire.encode_eq] at h
    dsimp only at h
    split_ifs at h
    · obtain ⟨rfl, rfl⟩ := some_eq h
      exact .sends (Wire.encode_eq hello)
    · obtain ⟨rfl, rfl⟩ := some_eq h
      exact .fails
  · split_ifs at h
    · obtain ⟨rfl, rfl⟩ := some_eq h
      exact .finishes
    · obtain ⟨rfl, rfl⟩ := some_eq h
      exact .fails
  · obtain ⟨rfl, rfl⟩ := some_eq h
    exact .fails
  · obtain ⟨bytes, hb, h⟩ := Option.map_eq_some_iff.mp h
    cases hc : receiveCreated bytes with
    | none =>
      rw [hc] at h
      obtain ⟨rfl, rfl⟩ := some_eq (congrArg some h)
      exact .fails
    | some created =>
      rw [hc] at h
      obtain ⟨rfl, rfl⟩ := some_eq (congrArg some h)
      exact .receives hb hc
  · exact absurd h (by simp)

end Handshake
end Mobilink.Cli
