import Mobilink.Server.Http

/-! The body limit of the HTTP layer against the frame limit of the tunnel, in both directions. -/
namespace Mobilink.Server
open Mobilink.Core

theorem toBytes_eq_some_iff (body : Option (List UInt8)) (limit : ℕ) (bytes : List UInt8) :
    toBytes body limit = some bytes ↔ body = some bytes ∧ bytes.length ≤ limit := by
  rw [toBytes, Option.filter_eq_some_iff]
  simp

/-- The bytes that the header lines of a request occupy in its frame, beyond their count. -/
def forwardedBytes (publicUrl : String) (headers : Header.Map) : ℕ :=
  ((headers.filter fun line => isForwarded line.1 && line.2.bytes.all Header.isVisibleAscii).map
      fun line => 16 + line.1.text.utf8ByteSize + line.2.bytes.length).sum +
    (33 + (forwardedProto publicUrl headers).utf8ByteSize) +
    ((forwardedHost headers).map fun host => 32 + host.utf8ByteSize).getD 0

private theorem headerBytes_readable (headers : Header.Map) :
    Wire.headerBytes ((headers.filter fun line => isForwarded line.1).filterMap readLine) =
      ((headers.filter fun line =>
          isForwarded line.1 && line.2.bytes.all Header.isVisibleAscii).map
        fun line => 16 + line.1.text.utf8ByteSize + line.2.bytes.length).sum := by
  induction headers with
  | nil => rfl
  | cons line headers ih =>
    unfold Wire.headerBytes at ih ⊢
    cases hf : isForwarded line.1 with
    | false => simpa [hf] using ih
    | true =>
      cases hv : line.2.toStr with
      | none =>
        have hbad : line.2.bytes.all Header.isVisibleAscii = false :=
          line.2.isReadable_eq.trans (by rw [hv]; rfl)
        have hread : readLine line = none := by rw [readLine, hv, Option.map_none]
        simpa [hf, hread, hbad] using ih
      | some v =>
        have hgood : line.2.bytes.all Header.isVisibleAscii = true :=
          line.2.isReadable_eq.trans (by rw [hv]; rfl)
        have hread : readLine line = some (line.1.text, v) := by rw [readLine, hv, Option.map_some]
        have hlen := Header.Value.utf8ByteSize_toStr hv
        simp only [List.filter_cons, hf, hgood, Bool.and_self, if_true, List.filterMap_cons, hread,
          List.map_cons, List.sum_cons, hlen]
        rw [ih]

theorem headerBytes_requestHeaders (publicUrl : String) (headers : Header.Map) :
    Wire.headerBytes (requestHeaders publicUrl headers) = forwardedBytes publicUrl headers := by
  have hread := headerBytes_readable headers
  have happ : ∀ a b, Wire.headerBytes (a ++ b) = Wire.headerBytes a + Wire.headerBytes b := by
    intro a b
    simp [Wire.headerBytes]
  rw [requestHeaders, happ, happ, hread, forwardedBytes]
  congr 1
  cases forwardedHost headers with
  | none => rfl
  | some host =>
    have hname : "X-Forwarded-Host".utf8ByteSize = 16 := rfl
    simp [Wire.headerBytes, hname]

/-- What surrounds the body of a request in its frame. -/
def requestOverhead (publicUrl : String) (r : PublicRequest) : ℕ :=
  32 + r.method.utf8ByteSize + (target r).utf8ByteSize + forwardedBytes publicUrl r.headers

theorem length_requestData (publicUrl : String) (r : PublicRequest) (body : List UInt8) :
    (HttpRequestData.codec.encode (requestData publicUrl r body)).length =
      requestOverhead publicUrl r + body.length := by
  have hlen := Wire.length_request (requestData publicUrl r body)
  have hheaders := headerBytes_requestHeaders publicUrl r.headers
  change _ = 32 + r.method.utf8ByteSize + (target r).utf8ByteSize +
    Wire.headerBytes (requestHeaders publicUrl r.headers) + body.length at hlen
  rw [hlen, hheaders, requestOverhead]

/-- What surrounds the body of a response in its frame. -/
def responseOverhead (headers : List (String × String)) : ℕ := 18 + Wire.headerBytes headers

/-- The frame exists, keeps to the frame limit, and the far end's `read_to_end` takes it. -/
def FitsFrame {α : Type*} [Bincode.Serde α] (value : α) : Prop :=
  ∃ frame, Wire.encode value = some frame ∧ frame.length ≤ Wire.maxFrameBytes ∧
    Wire.readToEnd Wire.maxFrameBytes frame = some frame

theorem fitsFrame_iff {α : Type*} [Bincode.Serde α] (value : α) :
    FitsFrame value ↔
      ((Bincode.Serde.codec (α := α)).encode value).length ≤ Wire.maxFrameBytes := by
  unfold FitsFrame
  constructor
  · intro h
    obtain ⟨frame, he, hlen, -⟩ := h
    have hf := Option.some.inj ((Wire.encode_eq value).symm.trans he)
    rw [hf]
    exact hlen
  · intro h
    exact ⟨_, Wire.encode_eq value, h, (Wire.readToEnd_eq_some_iff _ _ _).mpr ⟨h, rfl⟩⟩

/-- The frame of an admitted body fits exactly when the body leaves room for what surrounds it,
in either direction. -/
theorem fitsFrame_iff_overhead (publicUrl : String) :
    (∀ r body, toBytes r.body maxBodyBytes = some body →
      (FitsFrame (requestData publicUrl r body) ↔
        body.length + requestOverhead publicUrl r ≤ maxBodyBytes)) ∧
    ∀ response : HttpResponseData, response.body.length ≤ maxBodyBytes →
      (FitsFrame response ↔
        response.body.length + responseOverhead response.headers ≤ maxBodyBytes) := by
  have hmax : Wire.maxFrameBytes = maxBodyBytes := rfl
  constructor
  · intro r body _
    have hlen := length_requestData publicUrl r body
    rw [fitsFrame_iff]
    change (HttpRequestData.codec.encode _).length ≤ _ ↔ _
    rw [hlen, hmax]
    omega
  · intro response _
    have hlen := Wire.length_response response
    rw [fitsFrame_iff]
    change (HttpResponseData.codec.encode _).length ≤ _ ↔ _
    rw [hlen, hmax, responseOverhead]
    omega

/-- A small request and a small response, both within the limits. -/
theorem fitsFrame_small :
    let r : PublicRequest := ⟨"POST", "/login", none, [], some [1, 2, 3]⟩
    let response : HttpResponseData := ⟨200, [("content-type", "text/html")], [4, 5]⟩
    toBytes r.body maxBodyBytes = some [1, 2, 3] ∧
      FitsFrame (requestData "https://public.test" r [1, 2, 3]) ∧
      response.body.length ≤ maxBodyBytes ∧ FitsFrame response := by
  intro r response
  have hbody : toBytes r.body maxBodyBytes = some [1, 2, 3] := by decide
  have hresponse : response.body.length ≤ maxBodyBytes := by decide
  obtain ⟨hout, hback⟩ := fitsFrame_iff_overhead "https://public.test"
  exact ⟨hbody, (hout r _ hbody).mpr (by decide), hresponse,
    (hback response hresponse).mpr (by decide)⟩

/-- A `GET /` whose body has exactly the admitted 32 MiB, and a bare response of that size. -/
theorem fitsFrame_false_of_full_body :
    let full : List UInt8 := List.replicate maxBodyBytes 0
    let r : PublicRequest := ⟨"GET", "/", none, [], some full⟩
    toBytes r.body maxBodyBytes = some full ∧
      ¬ FitsFrame (requestData "https://public.test" r full) ∧
      ¬ FitsFrame (⟨200, [], full⟩ : HttpResponseData) := by
  intro full r
  have hfull : full.length = maxBodyBytes := List.length_replicate
  have hmax : Wire.maxFrameBytes = maxBodyBytes := rfl
  refine ⟨(toBytes_eq_some_iff _ _ _).mpr ⟨rfl, hfull.le⟩, ?_, ?_⟩
  · rw [fitsFrame_iff]
    change ¬ (HttpRequestData.codec.encode _).length ≤ _
    rw [Wire.length_request, hmax]
    change ¬ _ + full.length ≤ _
    rw [hfull]
    omega
  · rw [fitsFrame_iff]
    change ¬ (HttpResponseData.codec.encode _).length ≤ _
    rw [Wire.length_response, hmax]
    change ¬ _ + full.length ≤ _
    rw [hfull]
    omega

end Mobilink.Server
