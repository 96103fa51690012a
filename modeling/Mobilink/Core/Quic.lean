import Mathlib.Data.Nat.Notation

/-! What both ends share of a QUIC connection: its identity and the two directions of the handshake
stream. -/
namespace Mobilink.Core

/-- A QUIC connection, told apart from the others by its stable id. -/
structure Connection where
  stableId : ℕ
  deriving DecidableEq

/-- One direction of a stream: what has been written, and whether the writer has finished it. -/
structure Stream where
  bytes : List UInt8
  finished : Bool
  deriving DecidableEq

def Stream.finish (s : Stream) : Stream := { s with finished := true }

/-- A finished stream arrives whole; any other has not arrived. -/
def Stream.delivered : Option Stream → Option (List UInt8)
  | some ⟨bytes, true⟩ => some bytes
  | _ => none

/-- The CLI writes its `Hello` in one direction and the server answers in the other. -/
structure Link where
  hello : Option Stream
  reply : Option Stream
  deriving DecidableEq

theorem Stream.delivered_eq_some {s : Option Stream} {bytes : List UInt8}
    (h : Stream.delivered s = some bytes) : s = some ⟨bytes, true⟩ := by
  unfold Stream.delivered at h
  split at h
  · have hb := Option.some.inj h
    rw [hb]
  · exact absurd h (by simp)

end Mobilink.Core
