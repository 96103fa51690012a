import Mobilink.Library.Bincode

/-! The values both ends of the tunnel share: session identities, the authentication mode and the
two handshake messages, with the layout they have on the wire. -/
namespace Mobilink.Core

/-- The sixteen bytes of a version 4 UUID. -/
structure Uuid where
  bytes : Vector UInt8 16
  deriving DecidableEq

structure SessionId where
  uuid : Uuid
  deriving DecidableEq

structure Session where
  id : SessionId
  localPort : UInt16
  publicUrl : String
  deriving DecidableEq

/-- `SessionId::new()` draws the id at random; the draw is the caller's first argument here. -/
def Session.new (drawn : SessionId) (localPort : UInt16) (publicUrl : String) : Session :=
  ⟨drawn, localPort, publicUrl⟩

inductive AuthMode where
  | passthrough
  | cookie
  | bearer
  deriving DecidableEq

instance : Inhabited AuthMode := ⟨.passthrough⟩

structure ClientMessage where
  hello ::
  localPort : UInt16
  noEruda : Bool
  auth : AuthMode
  deriving DecidableEq

structure ServerMessage where
  sessionCreated ::
  sessionId : SessionId
  publicUrl : String
  deriving DecidableEq

/-! ### Layout -/

/-- A UUID travels as a byte string, whose length must be sixteen. -/
def Uuid.codec : Codec Uuid :=
  Bincode.bytes.refine (fun u => u.bytes.toList)
    (fun l => if h : l.length = 16 then some ⟨⟨l.toArray, by simpa using h⟩⟩ else none)
    (by
      rintro ⟨⟨a, ha⟩⟩
      simp [Vector.toList, ha])
    (by
      intro l u h
      split_ifs at h with hl
      have hu : _ = u := Option.some.inj h
      simp [← hu])

def SessionId.codec : Codec SessionId :=
  Uuid.codec.restrict SessionId.uuid SessionId.mk (fun _ => rfl) (fun _ _ => rfl)

def AuthMode.index : AuthMode → ℕ
  | .passthrough => 0
  | .cookie => 1
  | .bearer => 2

def AuthMode.ofIndex : ℕ → Option AuthMode
  | 0 => some .passthrough
  | 1 => some .cookie
  | 2 => some .bearer
  | _ => none

theorem AuthMode.index_of_ofIndex (n : ℕ) (a : AuthMode) (h : AuthMode.ofIndex n = some a) :
    a.index = n := by
  unfold AuthMode.ofIndex at h
  split at h <;> cases h <;> rfl

def AuthMode.codec : Codec AuthMode :=
  Bincode.variant.refine AuthMode.index AuthMode.ofIndex (fun a => by cases a <;> rfl)
    AuthMode.index_of_ofIndex

def ClientMessage.codec : Codec ClientMessage :=
  (Bincode.variant.pair (Bincode.u16.pair (Bincode.bool.pair AuthMode.codec))).refine
    (fun m => (0, m.localPort, m.noEruda, m.auth))
    (fun x => if x.1 = 0 then some ⟨x.2.1, x.2.2.1, x.2.2.2⟩ else none)
    (fun _ => rfl)
    (by
      rintro ⟨i, p, n, a⟩ m h
      split_ifs at h with hi
      have hm : _ = m := Option.some.inj h
      simp only at hi
      simp [← hm, hi])

def ServerMessage.codec : Codec ServerMessage :=
  (Bincode.variant.pair (SessionId.codec.pair Bincode.string)).refine
    (fun m => (0, m.sessionId, m.publicUrl))
    (fun x => if x.1 = 0 then some ⟨x.2.1, x.2.2⟩ else none)
    (fun _ => rfl)
    (by
      rintro ⟨i, s, u⟩ m h
      split_ifs at h with hi
      have hm : _ = m := Option.some.inj h
      simp only at hi
      simp [← hm, hi])

instance : Bincode.Serde ClientMessage := ⟨ClientMessage.codec⟩
instance : Bincode.Serde ServerMessage := ⟨ServerMessage.codec⟩

/-- Every `Hello` fits the format. -/
theorem ClientMessage.fits (m : ClientMessage) : ClientMessage.codec.Fits m := by
  refine ⟨?_, ?_, trivial, ?_⟩
  · exact Nat.pow_pos (by omega)
  · have h := m.localPort.toNat_lt
    change m.localPort.toNat < 256 ^ 2
    omega
  · change m.auth.index < 256 ^ 4
    cases m.auth <;> simp [AuthMode.index]

/-- A `SessionCreated` fits when its URL's length fits eight bytes. -/
theorem ServerMessage.fits (m : ServerMessage) (h : m.publicUrl.utf8ByteSize < 256 ^ 8) :
    ServerMessage.codec.Fits m := by
  refine ⟨?_, ⟨?_, ?_⟩, ?_, ?_⟩
  · exact Nat.pow_pos (by omega)
  · change m.sessionId.uuid.bytes.toList.length < 256 ^ 8
    simp
  · exact fun _ _ => trivial
  · change m.publicUrl.toByteArray.data.toList.length < 256 ^ 8
    rw [Array.length_toList]
    exact h
  · exact fun _ _ => trivial

theorem ClientMessage.length_encode (m : ClientMessage) :
    (ClientMessage.codec.encode m).length = 11 := by
  change ((Bincode.variant.pair (Bincode.u16.pair (Bincode.bool.pair AuthMode.codec))).encode
    (0, m.localPort, m.noEruda, m.auth)).length = _
  have hauth : (AuthMode.codec.encode m.auth).length = 4 := Bincode.length_variant m.auth.index
  have heruda : (Bincode.bool.encode m.noEruda).length = 1 := by cases m.noEruda <;> rfl
  simp only [Codec.length_pair, Bincode.length_variant, Bincode.length_u16, heruda, hauth]

theorem ServerMessage.length_encode (m : ServerMessage) :
    (ServerMessage.codec.encode m).length = 36 + m.publicUrl.utf8ByteSize := by
  change ((Bincode.variant.pair (SessionId.codec.pair Bincode.string)).encode
    (0, m.sessionId, m.publicUrl)).length = _
  have hid : (SessionId.codec.encode m.sessionId).length = 24 := by
    change (Bincode.bytes.encode m.sessionId.uuid.bytes.toList).length = _
    rw [Bincode.length_bytes]
    simp
  simp only [Codec.length_pair, Bincode.length_variant, Bincode.length_string, hid]
  omega

end Mobilink.Core
