import Mobilink.Core.Http
import Mobilink.Library.Utf8

/-! `ErudaInjector`: the debug console goes into HTML bodies in front of their last closing body tag,
found in a lowercase copy of the text and cut out of the text itself. -/
namespace Mobilink.Server
open Mobilink.Core

/-- The snippet injected into every HTML page flowing through the tunnel. -/
def erudaSnippet : String :=
  "<script src=\"https://cdn.jsdelivr.net/npm/eruda\"></script><script>eruda.init();</script>"

def bytesOf (s : String) : List UInt8 := s.toByteArray.data.toList

/-- `String::from_utf8`. -/
def fromUtf8 (bytes : List UInt8) : Option String := String.fromUTF8? ⟨bytes.toArray⟩

/-- `&text[..pos]` and `&text[pos..]`, which panic unless `pos` is a character boundary. -/
def splitAt (bytes : List UInt8) (pos : ℕ) : Option (List UInt8 × List UInt8) :=
  if Utf8.isCharBoundary bytes pos then some (bytes.take pos, bytes.drop pos) else none

namespace ErudaInjector

def isHtml (response : HttpResponseData) : Bool :=
  (response.header "content-type").any fun ct =>
    decide ("text/html".toList <:+: Ascii.toLowercase ct.toList)

/-- A compressed body cannot be edited as text. -/
def isCompressed (response : HttpResponseData) : Bool :=
  (response.header "content-encoding").any fun enc => !eqIgnoreAsciiCase enc "identity"

/-- `none` is a panic. -/
def inject (text : String) : Option (List UInt8) :=
  let body := bytesOf text
  match Utf8.rfind (bytesOf "</body>") (body.map Utf8.lowercaseByte) with
  | some pos => (splitAt body pos).map fun x => x.1 ++ bytesOf erudaSnippet ++ x.2
  | none => some (body ++ bytesOf erudaSnippet)

/-- `none` is a panic. -/
def transform? (response : HttpResponseData) : Option HttpResponseData :=
  if !isHtml response then some response
  else if isCompressed response then some response
  else
    match fromUtf8 response.body with
    | none => some response
    | some text =>
      (inject text).map fun injected =>
        { response with body := injected }.removeHeader "content-length"

/-! ### Where the snippet goes -/

/-- A closing body tag, in any letter case, stands at the beginning. -/
def StartsWithTag (s : List Char) : Prop :=
  ∃ tag rest, s = tag ++ rest ∧ Ascii.eqIgnoreCase tag "</body>".toList = true

/-- In front of the last closing body tag, or at the end of a text that has none. -/
def InsertionPoint (pre post : List Char) : Prop :=
  (StartsWithTag post ∧ ∀ pre' post', pre ++ post = pre' ++ post' → StartsWithTag post' →
      pre'.length ≤ pre.length) ∨
    (post = [] ∧ ∀ pre' post', pre = pre' ++ post' → ¬ StartsWithTag post')

theorem startsWithTag_iff (s : List Char) :
    StartsWithTag s ↔ "</body>".toList <+: Ascii.toLowercase s := by
  have htag : Ascii.toLowercase "</body>".toList = "</body>".toList := by decide
  unfold StartsWithTag Ascii.eqIgnoreCase
  simp only [beq_iff_eq, htag]
  constructor
  · rintro ⟨tag, rest, rfl, htag⟩
    exact ⟨Ascii.toLowercase rest, by rw [← htag, Ascii.toLowercase, Ascii.toLowercase,
      Ascii.toLowercase, List.map_append]⟩
  · rintro ⟨rest, hrest⟩
    obtain ⟨tag, rest', hs, htag, -⟩ := List.map_eq_append_iff.mp hrest.symm
    exact ⟨tag, rest', hs, htag⟩

theorem bytesOf_eq (s : String) : bytesOf s = Utf8.encode s.toList := Utf8.toList_toByteArray s

theorem bytesOf_append (s t : String) : bytesOf (s ++ t) = bytesOf s ++ bytesOf t := by
  rw [bytesOf_eq, bytesOf_eq, bytesOf_eq, String.toList_append, Utf8.encode_append]

theorem lowercase_bytesOf (text : String) :
    (bytesOf text).map Utf8.lowercaseByte = Utf8.encode (Ascii.toLowercase text.toList) := by
  rw [bytesOf_eq, Utf8.encode_toLowercase]

theorem splitAt_append (pre post : String) :
    splitAt (bytesOf (pre ++ post)) (bytesOf pre).length = some (bytesOf pre, bytesOf post) := by
  have hboundary := Utf8.isCharBoundary_append pre.toList post.toList
  rw [bytesOf_eq, bytesOf_eq, bytesOf_eq, String.toList_append, splitAt, if_pos hboundary,
    Utf8.encode_append, List.take_left, List.drop_left]

/-- The offset found in the lowercase copy cuts the text itself at the insertion point. -/
theorem inject_eq (text : String) :
    ∃ pre post, text = pre ++ post ∧ InsertionPoint pre.toList post.toList ∧
      inject text = some (bytesOf (pre ++ erudaSnippet ++ post)) := by
  have hpat : bytesOf "</body>" = Utf8.encode "</body>".toList := bytesOf_eq "</body>"
  have hlower := lowercase_bytesOf text
  unfold inject
  dsimp only
  rw [hlower, hpat]
  cases hfind : Utf8.rfind (Utf8.encode "</body>".toList)
      (Utf8.encode (Ascii.toLowercase text.toList)) with
  | none =>
    refine ⟨text, "", by simp, Or.inr ⟨rfl, ?_⟩, ?_⟩
    · intro pre' post' hs htag
      have hlow : Ascii.toLowercase text.toList =
          Ascii.toLowercase pre' ++ Ascii.toLowercase post' := by
        rw [hs, Ascii.toLowercase, List.map_append]
        rfl
      exact Utf8.not_prefix_of_rfind hfind hlow ((startsWithTag_iff post').mp htag)
    · rw [bytesOf_append, bytesOf_append]
      simp [bytesOf]
  | some pos =>
    obtain ⟨low, lows, hlows, hlen, htag, hlast⟩ := Utf8.split_of_rfind (by decide) hfind
    obtain ⟨pre, post, hs, hpre, hpost⟩ := List.map_eq_append_iff.mp hlows
    have hpos : pos = (bytesOf (String.ofList pre)).length := by
      rw [bytesOf_eq, String.toList_ofList, ← Utf8.length_encode_toLowercase, ← hlen, ← hpre]
      rfl
    have htext : text = String.ofList pre ++ String.ofList post := by
      rw [← String.ofList_append, ← hs, String.ofList_toList]
    refine ⟨String.ofList pre, String.ofList post, htext, Or.inl ⟨?_, ?_⟩, ?_⟩
    · rw [String.toList_ofList, startsWithTag_iff, Ascii.toLowercase, hpost]
      exact htag
    · intro pre' post' hsplit htag'
      rw [String.toList_ofList, String.toList_ofList, ← hs] at hsplit
      have hle := hlast (Ascii.toLowercase pre') (Ascii.toLowercase post')
        (by rw [hsplit, Ascii.toLowercase, List.map_append]; rfl) ((startsWithTag_iff _).mp htag')
      rw [String.toList_ofList]
      simpa [Ascii.toLowercase, ← hpre] using hle
    · have hsplit := splitAt_append (String.ofList pre) (String.ofList post)
      rw [← htext, ← hpos] at hsplit
      dsimp only
      rw [hsplit, Option.map_some, bytesOf_append, bytesOf_append]

/-! ### The whole transformation -/

theorem fromUtf8_eq_some_iff (bytes : List UInt8) (text : String) :
    fromUtf8 bytes = some text ↔ bytes = bytesOf text := by
  unfold fromUtf8 String.fromUTF8?
  constructor
  · intro h
    split_ifs at h with hv
    have htext : String.fromUTF8 ⟨bytes.toArray⟩ hv = text := Option.some.inj h
    simp [← htext, bytesOf, String.fromUTF8]
  · intro h
    have harray : (⟨bytes.toArray⟩ : ByteArray) = text.toByteArray := by simp [h, bytesOf]
    rw [harray, dif_pos text.isValidUTF8]
    rfl

theorem transform?_isSome (response : HttpResponseData) :
    (transform? response).isSome = true := by
  unfold transform?
  split_ifs
  · rfl
  · rfl
  · cases fromUtf8 response.body with
    | none => rfl
    | some text =>
      obtain ⟨pre, post, -, -, hinject⟩ := inject_eq text
      dsimp only
      rw [hinject]
      rfl

/-- No response makes the injector panic. -/
def transform (response : HttpResponseData) : HttpResponseData :=
  (transform? response).get (transform?_isSome response)

theorem transform?_eq (response : HttpResponseData) :
    transform? response = some (transform response) := (Option.some_get _).symm

/-- `out` is the text `body` with the snippet at the offset `p`, and with nothing else changed. -/
structure InsertedAt (body out : List UInt8) (p : ℕ) : Prop where
  boundary : Utf8.isCharBoundary body p = true
  inserted : out = body.take p ++ bytesOf erudaSnippet ++ body.drop p
  removed : out.take p ++ out.drop (p + (bytesOf erudaSnippet).length) = body
  isText : (fromUtf8 out).isSome = true

theorem insertedAt (pre post : String) :
    InsertedAt (bytesOf (pre ++ post)) (bytesOf (pre ++ erudaSnippet ++ post))
      (bytesOf pre).length := by
  have hbody : bytesOf (pre ++ post) = bytesOf pre ++ bytesOf post := bytesOf_append pre post
  have hout : bytesOf (pre ++ erudaSnippet ++ post) =
      bytesOf pre ++ bytesOf erudaSnippet ++ bytesOf post := by
    rw [bytesOf_append, bytesOf_append]
  constructor
  · have hboundary := Utf8.isCharBoundary_append pre.toList post.toList
    rw [bytesOf_eq, bytesOf_eq, String.toList_append]
    exact hboundary
  · rw [hout, hbody, List.take_left, List.drop_left]
  · rw [hout, hbody, List.append_assoc, List.take_left, ← List.append_assoc,
      ← List.length_append, List.drop_left]
  · rw [(fromUtf8_eq_some_iff _ _).mpr rfl]
    rfl

/-- An uncompressed HTML page of any text gets the snippet at the insertion point and loses its
content length, and nothing else about it changes. -/
theorem transform_inserts (response : HttpResponseData) (ct text : String)
    (hct : response.header "content-type" = some ct)
    (hhtml : "text/html".toList <:+: Ascii.toLowercase ct.toList)
    (henc : ∀ enc, response.header "content-encoding" = some enc →
      eqIgnoreAsciiCase enc "identity" = true)
    (hbody : response.body = bytesOf text) :
    ∃ (pre post : String) (out : List UInt8), text = pre ++ post ∧
      InsertionPoint pre.toList post.toList ∧
      transform? response = some
        { status := response.status
          headers := response.headers.filter fun h => !eqIgnoreAsciiCase h.1 "content-length"
          body := out } ∧
      InsertedAt response.body out (bytesOf pre).length := by
  have hishtml : isHtml response = true := by
    rw [isHtml, hct]
    exact decide_eq_true hhtml
  have hplain : isCompressed response = false := by
    unfold isCompressed
    cases he : response.header "content-encoding" with
    | none => rfl
    | some enc => simp [henc enc he]
  have htext : fromUtf8 response.body = some text := (fromUtf8_eq_some_iff _ _).mpr hbody
  obtain ⟨pre, post, hs, hpoint, hinject⟩ := inject_eq text
  refine ⟨pre, post, bytesOf (pre ++ erudaSnippet ++ post), hs, hpoint, ?_, ?_⟩
  · unfold transform?
    simp only [hishtml, hplain, htext, hinject, Option.map_some]
    rfl
  · rw [hbody, hs]
    exact insertedAt pre post

/-- A page with a multi-byte character, a tag in mixed case and another tag inside a comment. -/
theorem transform_inserts_page :
    let page : HttpResponseData := ⟨200, [("Content-Type", "Text/HTML"), ("content-length", "31")],
      bytesOf "é<!--</body>-->ü</BoDy></html>"⟩
    ∃ pre post out, page.body = bytesOf (pre ++ post) ∧
      InsertionPoint pre.toList post.toList ∧
      transform? page = some ⟨200, [("Content-Type", "Text/HTML")], out⟩ ∧
      InsertedAt page.body out (bytesOf pre).length := by
  intro page
  obtain ⟨pre, post, out, hs, hpoint, hout, hat⟩ := transform_inserts page "Text/HTML"
    "é<!--</body>-->ü</BoDy></html>" (by decide) (by decide) (by decide) rfl
  have hkept : (page.headers.filter fun h => !eqIgnoreAsciiCase h.1 "content-length") =
      [("Content-Type", "Text/HTML")] := by decide
  rw [hkept] at hout
  exact ⟨pre, post, out, congrArg bytesOf hs, hpoint, hout, hat⟩

end ErudaInjector
end Mobilink.Server
