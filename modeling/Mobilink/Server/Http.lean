import Mobilink.Core.Http
import Mobilink.Core.Message
import Mobilink.Library.Header

/-! The public HTTP entry point: how an inbound request becomes a tunnel frame, and how a response
frame is rewritten on its way back. -/
namespace Mobilink.Server
open Mobilink.Core

/-- Maximum accepted request body size (32 MiB). -/
def maxBodyBytes : ℕ := 32 * 1024 * 1024

/-- Request headers that must not travel through the tunnel. -/
def strippedRequestHeaders : List String :=
  ["host", "connection", "accept-encoding", "content-length", "transfer-encoding"]

/-- What the public HTTP layer needs besides the pipeline and the session options. -/
structure ProxyState where
  transform : HttpResponseData → HttpResponseData
  publicUrl : String

/-- What the proxy reads of an inbound request. The body is `none` when it breaks off. -/
structure PublicRequest where
  method : String
  path : String
  query : Option String
  headers : Header.Map
  body : Option (List UInt8)

/-- Scheme of the configured public URL, "http" when the URL has none. -/
def publicScheme (publicUrl : String) : String :=
  match Ascii.splitOnce "://".toList publicUrl.toList with
  | some (scheme, _) => String.ofList scheme
  | none => "http"

/-- `axum::body::to_bytes`. -/
def toBytes (body : Option (List UInt8)) (limit : ℕ) : Option (List UInt8) :=
  body.filter fun bytes => bytes.length ≤ limit

def target (r : PublicRequest) : String :=
  match r.query with
  | some query => r.path ++ "?" ++ query
  | none => r.path

def forwardedProto (publicUrl : String) (headers : Header.Map) : String :=
  ((headers.get "x-forwarded-proto").bind Header.Value.toStr).getD (publicScheme publicUrl)

/-- An unreadable `x-forwarded-host` is not replaced by the `host` header. -/
def forwardedHost (headers : Header.Map) : Option String :=
  ((headers.get "x-forwarded-host").or (headers.get "host")).bind Header.Value.toStr

/-- The header lines that travel on as they are, readable ones among them. -/
def isForwarded (name : Header.Name) : Bool :=
  !strippedRequestHeaders.contains name.text &&
    (!eqIgnoreAsciiCase name.text "x-forwarded-proto" &&
      !eqIgnoreAsciiCase name.text "x-forwarded-host")

def readLine (line : Header.Name × Header.Value) : Option (String × String) :=
  line.2.toStr.map fun v => (line.1.text, v)

def requestHeaders (publicUrl : String) (headers : Header.Map) : List (String × String) :=
  (headers.filter fun line => isForwarded line.1).filterMap readLine ++
    [("X-Forwarded-Proto", forwardedProto publicUrl headers)] ++
    ((forwardedHost headers).map fun host => ("X-Forwarded-Host", host)).toList

def requestData (publicUrl : String) (r : PublicRequest) (bodyBytes : List UInt8) :
    HttpRequestData where
  method := r.method
  target := target r
  headers := requestHeaders publicUrl r.headers
  body := bodyBytes

/-! ### Cookies -/

/-- One turn of the loop over the attributes: the text written so far, and whether `Secure` was. -/
def rewriteAttribute (written : List Char × Bool) (attr : List Char) : List Char × Bool :=
  if attr = [] then written
  else
    let key := Ascii.toLowercase (Ascii.trim ((Ascii.split '=' attr).headD []))
    if key = "domain".toList ∨ key = "samesite".toList then written
    else (written.1 ++ "; ".toList ++ attr, written.2 || key == "secure".toList)

def rewriteSetCookieCrossSite (setCookie : String) : String :=
  let parts := (Ascii.split ';' setCookie.toList).map Ascii.trim
  let (out, hasSecure) := parts.tail.foldl rewriteAttribute (parts.headD [], false)
  let out := if hasSecure then out else out ++ "; Secure".toList
  String.ofList (out ++ "; SameSite=None".toList)

def rewriteCookiesCrossSite (response : HttpResponseData) : HttpResponseData :=
  { response with
    headers := response.headers.map fun line =>
      if eqIgnoreAsciiCase line.1 "set-cookie" then (line.1, rewriteSetCookieCrossSite line.2)
      else line }

/-- What the authentication mode asks for on the way back. -/
def applyAuthMode (auth : AuthMode) (response : HttpResponseData) : HttpResponseData :=
  if auth = .cookie then rewriteCookiesCrossSite response else response

/-- What the Eruda flag asks for on the way back. -/
def applyEruda (proxy : ProxyState) (erudaDisabled : Bool) (response : HttpResponseData) :
    HttpResponseData :=
  if erudaDisabled then response else proxy.transform response

end Mobilink.Server
