import Mobilink.Library.Ascii
import Mobilink.Library.Bincode

/-! The request and response frames that cross the tunnel, and the wire functions that every frame
goes through. -/
namespace Mobilink.Core

structure HttpRequestData where
  method : String
  target : String
  headers : List (String × String)
  body : List UInt8
  deriving DecidableEq

structure HttpResponseData where
  status : UInt16
  headers : List (String × String)
  body : List UInt8
  deriving DecidableEq

def toAsciiLowercase (s : String) : String := String.ofList (Ascii.toLowercase s.toList)

def eqIgnoreAsciiCase (a b : String) : Bool := Ascii.eqIgnoreCase a.toList b.toList

namespace HttpResponseData

/-- The first header matching `name`, in any letter case. -/
def header (r : HttpResponseData) (name : String) : Option String :=
  (r.headers.find? fun h => eqIgnoreAsciiCase h.1 name).map Prod.snd

/-- Every header matching `name` is removed, in any letter case. -/
def removeHeader (r : HttpResponseData) (name : String) : HttpResponseData :=
  { r with headers := r.headers.filter fun h => !eqIgnoreAsciiCase h.1 name }

end HttpResponseData

/-! ### Layout -/

def headersCodec : Codec (List (String × String)) :=
  Bincode.vec (Bincode.string.pair Bincode.string)

def HttpRequestData.codec : Codec HttpRequestData :=
  (Bincode.string.pair (Bincode.string.pair (headersCodec.pair Bincode.bytes))).restrict
    (fun r => (r.method, r.target, r.headers, r.body)) (fun x => ⟨x.1, x.2.1, x.2.2.1, x.2.2.2⟩)
    (fun _ => rfl) (fun _ _ => rfl)

def HttpResponseData.codec : Codec HttpResponseData :=
  (Bincode.u16.pair (headersCodec.pair Bincode.bytes)).restrict
    (fun r => (r.status, r.headers, r.body)) (fun x => ⟨x.1, x.2.1, x.2.2⟩)
    (fun _ => rfl) (fun _ _ => rfl)

instance : Bincode.Serde HttpRequestData := ⟨HttpRequestData.codec⟩
instance : Bincode.Serde HttpResponseData := ⟨HttpResponseData.codec⟩

namespace Wire

/-- Maximum size of a single tunnel frame, shared by both ends of the wire. -/
def maxFrameBytes : ℕ := 32 * 1024 * 1024

variable {α : Type*} [Bincode.Serde α]

/-- `none` stands for the `WireError`, whose text nothing reads. -/
def encode (value : α) : Option (List UInt8) := Bincode.serialize value

def decode (bytes : List UInt8) : Option α := Bincode.deserialize bytes

/-- `RecvStream::read_to_end`: the bytes of a finished stream, unless there are too many. -/
def readToEnd (limit : ℕ) (bytes : List UInt8) : Option (List UInt8) :=
  if bytes.length ≤ limit then some bytes else none

theorem encode_eq (value : α) : encode value = some (Bincode.Serde.codec.encode value) := rfl

theorem readToEnd_eq_some_iff (limit : ℕ) (bytes out : List UInt8) :
    readToEnd limit bytes = some out ↔ bytes.length ≤ limit ∧ bytes = out := by
  unfold readToEnd
  split_ifs with h <;> simp [h]

/-- A frame that is taken off a stream decodes to the value that was put on it. -/
theorem receive_encode {value out : α} {frame : List UInt8} (hframe : encode value = some frame)
    (hfits : frame.length ≤ maxFrameBytes → (Bincode.Serde.codec (α := α)).Fits value)
    (h : (readToEnd maxFrameBytes frame).bind decode = some out) : out = value := by
  obtain ⟨bytes, hread, hdecode⟩ := Option.bind_eq_some_iff.mp h
  obtain ⟨hlen, hbytes⟩ := (readToEnd_eq_some_iff _ _ _).mp hread
  have hvalue := Bincode.deserialize_encode value (hfits hlen)
  have he : Bincode.Serde.codec.encode value = bytes :=
    (Option.some.inj ((encode_eq value).symm.trans hframe)).trans hbytes
  rw [he] at hvalue
  exact Option.some.inj (hdecode.symm.trans hvalue)

/-- A frame that keeps to the limit is received as it was sent. -/
theorem receive_of_fits {value : α} (hfits : (Bincode.Serde.codec (α := α)).Fits value)
    (hlen : ((Bincode.Serde.codec (α := α)).encode value).length ≤ maxFrameBytes) :
    (readToEnd maxFrameBytes (Bincode.Serde.codec.encode value)).bind decode = some value := by
  rw [readToEnd, if_pos hlen, Option.bind_some]
  exact Bincode.deserialize_encode value hfits

/-! ### Frame sizes -/

/-- The bytes a header list occupies beyond its count. -/
def headerBytes (headers : List (String × String)) : ℕ :=
  (headers.map fun h => 16 + h.1.utf8ByteSize + h.2.utf8ByteSize).sum

theorem length_headersCodec (headers : List (String × String)) :
    (headersCodec.encode headers).length = 8 + headerBytes headers := by
  rw [headersCodec, Bincode.length_vec, headerBytes]
  congr 2
  apply List.map_congr_left
  intro h _
  rw [Codec.length_pair, Bincode.length_string, Bincode.length_string]
  omega

theorem length_request (r : HttpRequestData) :
    (HttpRequestData.codec.encode r).length =
      32 + r.method.utf8ByteSize + r.target.utf8ByteSize + headerBytes r.headers +
        r.body.length := by
  change ((Bincode.string.pair (Bincode.string.pair (headersCodec.pair Bincode.bytes))).encode
    (r.method, r.target, r.headers, r.body)).length = _
  simp only [Codec.length_pair, Bincode.length_string, length_headersCodec, Bincode.length_bytes]
  omega

theorem length_response (r : HttpResponseData) :
    (HttpResponseData.codec.encode r).length = 18 + headerBytes r.headers + r.body.length := by
  change ((Bincode.u16.pair (headersCodec.pair Bincode.bytes)).encode
    (r.status, r.headers, r.body)).length = _
  simp only [Codec.length_pair, Bincode.length_u16, length_headersCodec, Bincode.length_bytes]
  omega

end Wire
end Mobilink.Core
