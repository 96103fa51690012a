import Mobilink.Cli.Target
import Mobilink.Core.Frames

/-! `handle_stream`: one request stream, from the frame that arrives on it to the frame that goes
back. -/
namespace Mobilink.Cli
open Mobilink.Core

variable {η ω : Type*}

/-- `recv.read_to_end(MAX_FRAME_BYTES)` and `wire::decode` of a finished stream. -/
def receiveRequest (bytes : List UInt8) : Option HttpRequestData :=
  (Wire.readToEnd Wire.maxFrameBytes bytes).bind Wire.decode

/-- The bytes that go back on the stream, if any do. -/
def handleStream (client : HttpClient η) (exchange : ω → Outgoing η → ω × Option Reply)
    (port : UInt16) (w : ω) (bytes : List UInt8) : ω × Option (List UInt8) :=
  match receiveRequest bytes with
  | none => (w, none)
  | some request =>
    let (w, response) := replayLocally client exchange port w request
    (w, Wire.encode response)

/-- A request frame is received as it was sent, if it keeps to the limit. -/
theorem receiveRequest_encode (request : HttpRequestData) :
    receiveRequest (HttpRequestData.codec.encode request) =
      if (HttpRequestData.codec.encode request).length ≤ Wire.maxFrameBytes then some request
      else none := by
  unfold receiveRequest Wire.readToEnd
  by_cases hlen : (HttpRequestData.codec.encode request).length ≤ Wire.maxFrameBytes
  · have hdecode := Bincode.deserialize_encode request (HttpRequestData.fits_of_length hlen)
    rw [if_pos hlen, if_pos hlen, Option.bind_some]
    exact hdecode
  · rw [if_neg hlen, if_neg hlen, Option.bind_none]

/-- The one answer of the application is what goes back, when the client does not follow it. -/
theorem handleStream_of_answer {client : HttpClient η} {exchange : ω → Outgoing η → ω × Option Reply}
    {port : UInt16} {w w' : ω} {bytes : List UInt8} {request : HttpRequestData} {q : Outgoing η}
    {a : Reply} (hreceived : receiveRequest bytes = some request)
    (hq : buildRequest client port request = .ok q) (hanswer : exchange w q = (w', some a))
    (hfollow : client.follow q a = none) :
    handleStream client exchange port w bytes = (w', Wire.encode a.toFrame) := by
  have hsend := Redirects.send_of_answer hanswer hfollow redirectLimit
  rw [handleStream, hreceived]
  dsimp only
  rw [replayLocally, tryReplay, hq]
  dsimp only
  rw [hsend]

/-! ### The lines of the request -/

/-- Lines that were read of a map build that map's readable lines. -/
theorem mapM_buildLine_readableLines (headers : Header.Map) :
    (readableLines headers).mapM buildLine = some (headers.filter fun line => line.2.isReadable) := by
  induction headers with
  | nil => rfl
  | cons line headers ih =>
    have hreadable := line.2.isReadable_eq
    unfold readableLines at ih ⊢
    cases hread : line.2.toStr with
    | none =>
      rw [hread] at hreadable
      simpa [hread, hreadable] using ih
    | some s =>
      rw [hread] at hreadable
      have hbuild : buildLine (line.1.text, s) = some line := Header.line?_text line.1 hread
      rw [List.filterMap_cons, hread]
      dsimp only [Option.map_some]
      rw [List.mapM_cons, hbuild, ih, List.filter_cons, hreadable]
      rfl

theorem isRecomputed_text_iff (name : Header.Name) :
    isRecomputed name.text = true ↔ name.text = "host" ∨ name.text = "content-length" := by
  rw [isRecomputed, Bool.or_eq_true, eqIgnoreAsciiCase, eqIgnoreAsciiCase,
    name.eqIgnoreCase_text_iff (by decide), name.eqIgnoreCase_text_iff (by decide)]

/-! ### The URL of the request -/

/-- A target that adds nothing to the authority leads to the exposed port, without credentials. -/
theorem parse_replayUrl_of_path {client : HttpClient η} {localhost : η}
    (hlocalhost : client.parseHost "localhost".toList = some localhost) (port : UInt16)
    {target : String} (h : Url.addedAuthority target.toList = []) :
    ∃ url, Url.parse client.parseHost (replayUrl port target).toList = some url ∧
      url.userinfo = none ∧ url.host = localhost ∧ url.port = port.toNat := by
  have hparse := parse_replayUrl hlocalhost port target
  have hextended : Url.extended (Nat.toDigits 10 port.toNat) [] = port.toNat := by
    rw [Url.extended, List.append_nil, Nat.ofDigitChars_ten_toDigits]
  have hport : port.toNat ≤ 65535 := Nat.le_of_lt_succ port.toNat_lt
  rw [h, hextended, if_neg (by simp), if_pos ⟨rfl, hport⟩] at hparse
  obtain ⟨url, hurl, hpair⟩ := Option.map_eq_some_iff.mp hparse
  refine ⟨url, hurl, ?_, Prod.mk.inj hpair⟩
  have hplain : ∀ c ∈ "localhost".toList, Url.isPlain c = true :=
    List.all_eq_true.mp (show "localhost".toList.all Url.isPlain = true by decide)
  have hdigits : ∀ c ∈ Nat.toDigits 10 port.toNat, c.isDigit = true :=
    fun c hc => Nat.isDigit_of_mem_toDigits (by omega) (by omega) hc
  have hat : '@' ∉ Url.addedAuthority target.toList := by simp [h]
  rw [toList_replayUrl] at hurl
  exact Url.userinfo_of_parse_append client.parseHost hplain hdigits hat hurl

end Mobilink.Cli
