import Mathlib.Algebra.Order.BigOperators.Group.List
import Mathlib.Algebra.Order.Group.Nat
import Mathlib.Data.List.Infix
import Mobilink.Core.Http
import Mobilink.Core.Message

/-! What a receiver makes of the bytes of a stream: whole frames decode to the value that was
encoded, cut ones to nothing, and what happens to bytes behind a frame. -/
namespace Mobilink.Core

/-- A type whose values fit the wire format as long as their lengths do. -/
class Message (α : Type) extends Bincode.Serde α where
  /-- The length of every string and of every sequence in a value. -/
  lengths : α → List ℕ
  fits_iff : ∀ v, codec.Fits v ↔ ∀ n ∈ lengths v, n < 2 ^ 64

/-- A value that a program can hold: every length in it is a `usize`. -/
structure InMemory (α : Type) [Message α] where
  value : α
  lengths : ∀ n ∈ Message.lengths value, n < 2 ^ 64

theorem fits_string (s : String) : Bincode.string.Fits s ↔ s.utf8ByteSize < 2 ^ 64 := by
  change s.toByteArray.data.toList.length < 256 ^ 8 ∧ (∀ b ∈ _, True) ↔ _
  rw [Array.length_toList]
  exact and_iff_left fun _ _ => trivial

theorem fits_bytes (l : List UInt8) : Bincode.bytes.Fits l ↔ l.length < 2 ^ 64 := by
  change l.length < 256 ^ 8 ∧ (∀ b ∈ l, True) ↔ _
  simp

def headerLengths (headers : List (String × String)) : List ℕ :=
  headers.length :: headers.flatMap fun h => [h.1.utf8ByteSize, h.2.utf8ByteSize]

theorem fits_headers (headers : List (String × String)) :
    headersCodec.Fits headers ↔ ∀ n ∈ headerLengths headers, n < 2 ^ 64 := by
  change headers.length < 256 ^ 8 ∧
    (∀ h ∈ headers, Bincode.string.Fits h.1 ∧ Bincode.string.Fits h.2) ↔ _
  simp only [fits_string, headerLengths, List.forall_mem_cons, List.forall_mem_flatMap,
    List.not_mem_nil, false_implies, implies_true, and_true]
  exact Iff.rfl

instance : Message ClientMessage where
  lengths _ := []
  fits_iff m := iff_of_true m.fits (by simp)

instance : Message ServerMessage where
  lengths m := [m.publicUrl.utf8ByteSize]
  fits_iff m := by
    constructor
    · intro h
      simpa using (fits_string m.publicUrl).mp h.2.2
    · intro h
      exact m.fits (by simpa using h)

instance : Message HttpRequestData where
  lengths r := r.method.utf8ByteSize :: r.target.utf8ByteSize :: r.body.length ::
    headerLengths r.headers
  fits_iff r := by
    change Bincode.string.Fits r.method ∧ Bincode.string.Fits r.target ∧
      headersCodec.Fits r.headers ∧ Bincode.bytes.Fits r.body ↔ _
    rw [fits_string, fits_string, fits_headers, fits_bytes]
    simp only [List.forall_mem_cons]
    tauto

instance : Message HttpResponseData where
  lengths r := r.body.length :: headerLengths r.headers
  fits_iff r := by
    change Bincode.u16.Fits r.status ∧ headersCodec.Fits r.headers ∧ Bincode.bytes.Fits r.body ↔ _
    have hstatus : Bincode.u16.Fits r.status := r.status.toNat_lt
    rw [fits_headers, fits_bytes]
    simp only [hstatus, true_and, List.forall_mem_cons]
    tauto

/-! ### Values that fit a frame -/

/-- No length in a header list is larger than the list itself. -/
theorem le_headerBytes {headers : List (String × String)} {n : ℕ} (h : n ∈ headerLengths headers) :
    n ≤ Wire.headerBytes headers := by
  unfold Wire.headerBytes
  rcases List.mem_cons.mp h with hn | hmem
  · have hone : ∀ i ∈ headers.map fun h => 16 + h.1.utf8ByteSize + h.2.utf8ByteSize, 1 ≤ i := by
      intro i hi
      obtain ⟨line, -, heq⟩ := List.mem_map.mp hi
      omega
    have hcount := List.length_le_sum_of_one_le _ hone
    rw [List.length_map] at hcount
    omega
  · obtain ⟨line, hline, hn⟩ := List.mem_flatMap.mp hmem
    have hle := List.le_sum_of_mem (List.mem_map_of_mem
      (f := fun h : String × String => 16 + h.1.utf8ByteSize + h.2.utf8ByteSize) hline)
    simp only [List.mem_cons, List.not_mem_nil, or_false] at hn
    omega

theorem HttpRequestData.fits_of_length {r : HttpRequestData}
    (h : (HttpRequestData.codec.encode r).length ≤ Wire.maxFrameBytes) :
    HttpRequestData.codec.Fits r := by
  have hlen := Wire.length_request r
  have hmax : Wire.maxFrameBytes = 32 * 1024 * 1024 := rfl
  apply (Message.fits_iff r).mpr
  intro n hn
  have hcases : n = r.method.utf8ByteSize ∨ n = r.target.utf8ByteSize ∨ n = r.body.length ∨
      n ∈ headerLengths r.headers := by
    simpa [Message.lengths] using hn
  rcases hcases with hn | hn | hn | hn
  · omega
  · omega
  · omega
  · have hle := le_headerBytes hn
    omega

theorem HttpResponseData.fits_of_length {r : HttpResponseData}
    (h : (HttpResponseData.codec.encode r).length ≤ Wire.maxFrameBytes) :
    HttpResponseData.codec.Fits r := by
  have hlen := Wire.length_response r
  have hmax : Wire.maxFrameBytes = 32 * 1024 * 1024 := rfl
  apply (Message.fits_iff r).mpr
  intro n hn
  have hcases : n = r.body.length ∨ n ∈ headerLengths r.headers := by
    simpa [Message.lengths] using hn
  rcases hcases with hn | hn
  · omega
  · have hle := le_headerBytes hn
    omega

/-! ### Round trips -/

variable {α : Type} [Message α]

/-- A finished stream decodes to the value that was written, and one that is finished earlier to
nothing at all. -/
def RoundTrips (v : α) : Prop :=
  ∃ bytes, Wire.encode v = some bytes ∧ Wire.decode bytes = some v ∧
    ∀ cut, cut <+: bytes → cut ≠ bytes → (Wire.decode cut : Option α) = none

theorem roundTrips (v : InMemory α) : RoundTrips v.value := by
  have hfits : Bincode.Serde.codec.Fits v.value := (Message.fits_iff v.value).mpr v.lengths
  refine ⟨_, Wire.encode_eq v.value, Bincode.deserialize_encode v.value hfits, ?_⟩
  intro cut ⟨rest, hrest⟩ hne
  have hmissing : rest ≠ [] := by
    intro hnil
    rw [hnil, List.append_nil] at hrest
    exact hne hrest
  have hcut := Bincode.Serde.codec.decode_prefix hfits hmissing hrest.symm
  rw [Wire.decode, Bincode.deserialize, hcut, Option.map_none]

/-- All four types that cross the tunnel survive it, and no cut stream of any of them decodes. -/
theorem decode_encode_or_cut :
    (∀ v : InMemory ClientMessage, RoundTrips v.value) ∧
    (∀ v : InMemory ServerMessage, RoundTrips v.value) ∧
    (∀ v : InMemory HttpRequestData, RoundTrips v.value) ∧
    ∀ v : InMemory HttpResponseData, RoundTrips v.value :=
  ⟨roundTrips, roundTrips, roundTrips, roundTrips⟩

/-! ### Bytes behind a frame -/

/-- The bytes decode only as the frame they are, and only frames decode. -/
def OnlyFrames (α : Type) [Message α] (bytes : List UInt8) : Prop :=
  (∀ v : α, Wire.decode bytes = some v → Wire.encode v = some bytes) ∧
    ((∃ v : α, Wire.decode bytes = some v) ↔ ∃ v : InMemory α, Wire.encode v.value = some bytes)

/-- The bytes are a whole frame with at least one more byte behind it. -/
def Overlong (α : Type) [Message α] (bytes : List UInt8) : Prop :=
  ∃ (v : InMemory α) (frame rest : List UInt8), Wire.encode v.value = some frame ∧ rest ≠ [] ∧
    bytes = frame ++ rest

theorem decode_eq_some_iff (bytes : List UInt8) (v : α) :
    Wire.decode bytes = some v ↔ ∃ w : InMemory α, w.value = v ∧
      ∃ frame rest, Wire.encode v = some frame ∧ bytes = frame ++ rest := by
  rw [Wire.decode, Bincode.deserialize_eq_some_iff, Message.fits_iff]
  constructor
  · rintro ⟨hlengths, rest, hbytes⟩
    exact ⟨⟨v, hlengths⟩, rfl, _, rest, Wire.encode_eq v, hbytes⟩
  · rintro ⟨⟨w, hlengths⟩, rfl, frame, rest, hframe, hbytes⟩
    have hframe' := Option.some.inj ((Wire.encode_eq w).symm.trans hframe)
    exact ⟨hlengths, rest, hframe' ▸ hbytes⟩

theorem onlyFrames_iff (bytes : List UInt8) : OnlyFrames α bytes ↔ ¬ Overlong α bytes := by
  constructor
  · rintro ⟨hexact, -⟩ ⟨v, frame, rest, hframe, hrest, hbytes⟩
    have hdecode := (decode_eq_some_iff bytes v.value).mpr ⟨v, rfl, frame, rest, hframe, hbytes⟩
    have hsame := Option.some.inj (hframe.symm.trans (hexact v.value hdecode))
    rw [← hsame] at hbytes
    exact hrest (List.self_eq_append_right.mp hbytes)
  · intro hnot
    have hexact : ∀ v : α, Wire.decode bytes = some v → Wire.encode v = some bytes := by
      intro v hv
      obtain ⟨w, hw, frame, rest, hframe, hbytes⟩ := (decode_eq_some_iff bytes v).mp hv
      have hrest : rest = [] := by
        by_contra hne
        exact hnot ⟨w, frame, rest, hw ▸ hframe, hne, hbytes⟩
      rw [hbytes, hrest, List.append_nil]
      exact hframe
    refine ⟨hexact, ?_, ?_⟩
    · rintro ⟨v, hv⟩
      obtain ⟨w, hw, -⟩ := (decode_eq_some_iff bytes v).mp hv
      exact ⟨w, hw ▸ hexact v hv⟩
    · rintro ⟨w, hw⟩
      exact ⟨w.value, (decode_eq_some_iff bytes w.value).mpr
        ⟨w, rfl, bytes, [], hw, (List.append_nil bytes).symm⟩⟩

/-- A byte string is taken for a message that it does not spell exactly when a whole frame of the
type stands at its beginning and is not all of it. -/
theorem decode_exact_iff (bytes : List UInt8) :
    (OnlyFrames ClientMessage bytes ↔ ¬ Overlong ClientMessage bytes) ∧
    (OnlyFrames ServerMessage bytes ↔ ¬ Overlong ServerMessage bytes) ∧
    (OnlyFrames HttpRequestData bytes ↔ ¬ Overlong HttpRequestData bytes) ∧
    (OnlyFrames HttpResponseData bytes ↔ ¬ Overlong HttpResponseData bytes) :=
  ⟨onlyFrames_iff bytes, onlyFrames_iff bytes, onlyFrames_iff bytes, onlyFrames_iff bytes⟩

/-- A `Hello` with one byte behind it decodes as if that byte were not there. -/
theorem trailing_byte_ignored :
    let hello : ClientMessage := ⟨3000, true, .cookie⟩
    ∃ frame, Wire.encode hello = some frame ∧
      Wire.decode (frame ++ [0]) = some hello ∧ ¬ OnlyFrames ClientMessage (frame ++ [0]) := by
  intro hello
  have hdecode : Wire.decode (Bincode.Serde.codec.encode hello ++ [0]) = some hello := by decide
  refine ⟨_, Wire.encode_eq hello, hdecode, ?_⟩
  rintro ⟨hexact, -⟩
  have hsame := Option.some.inj ((Wire.encode_eq hello).symm.trans (hexact hello hdecode))
  exact absurd (congrArg List.length hsame) (by simp)

end Mobilink.Core
