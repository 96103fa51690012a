import Mathlib.Data.List.Dedup
import Mathlib.Data.List.Sort
import Mobilink.Library.Header

/-! The checks that a browser makes on the responses to a cross-origin request: the CORS check, and
the check of a preflight response. -/
namespace Fetch

/-- A cross-origin request of a page, with the header lines the page sets. `credentials` is the
credentials mode `include`. -/
structure Request where
  origin : Header.Value
  method : String
  headers : Header.Map
  credentials : Bool
  usePreflight : Bool

/-- Six methods are recognized in any letter case; the others are sent as they are. -/
def normalizeMethod (method : String) : String :=
  (["DELETE", "GET", "HEAD", "OPTIONS", "POST", "PUT"].find? fun m =>
    Ascii.eqIgnoreCase method.toList m.toList).getD method

def isSafelistedMethod (method : String) : Bool := ["GET", "HEAD", "POST"].contains method

/-- The method that goes over the wire. -/
def Request.sentMethod (f : Request) : String := normalizeMethod f.method

section

-- The rules that a browser has for the values of the names below.
variable (isSafeValue : Header.Name → Header.Value → Bool)

def isSafelisted (line : Header.Name × Header.Value) : Bool :=
  ["accept", "accept-language", "content-language", "content-type", "range"].contains line.1.text &&
    line.2.bytes.length ≤ 128 && isSafeValue line.1 line.2

/-- The names that need the server's consent. -/
def unsafelistedNames (headers : Header.Map) : List String :=
  let safelisted := headers.filter (isSafelisted isSafeValue)
  let lines := if 1024 < (safelisted.map fun line => line.2.bytes.length).sum then headers
    else headers.filter fun line => !isSafelisted isSafeValue line
  ((lines.map fun line => line.1.text).dedup).insertionSort (· ≤ ·)

/-- The header lines of the preflight for `f`: the origin, and the names that need consent, if there
are any. -/
structure IsPreflight (f : Request) (headers : Header.Map) : Prop where
  origin : headers.get "origin" = some f.origin
  names : (headers.get "access-control-request-headers").map Header.Value.octets =
    if unsafelistedNames isSafeValue f.headers = [] then none
    else some ([','].intercalate ((unsafelistedNames isSafeValue f.headers).map String.toList))

end

/-- The values of a name, combined into one. -/
def combined (headers : Header.Map) (name : Header.Name) : Option (List Char) :=
  match headers.getAll name with
  | [] => none
  | values => some (", ".toList.intercalate (values.map Header.Value.octets))

def corsCheck (f : Request) (headers : Header.Map) : Bool :=
  match combined headers .allowOrigin with
  | none => false
  | some origin =>
    if !f.credentials && origin == "*".toList then true
    else if origin != f.origin.octets then false
    else if !f.credentials then true
    else combined headers .allowCredentials == some "true".toList

def isToken (s : List Char) : Bool := s != [] && s.all Header.isTokenChar

/-- The members of all lines of a name, none when there is no line. A member that is no token is a
failure of its own. -/
def extract (headers : Header.Map) (name : Header.Name) : Option (Option (List (List Char))) :=
  match headers.getAll name with
  | [] => some none
  | values =>
    let listed := values.flatMap fun v => Header.members v.octets
    if listed.all isToken then some (some listed) else none

/-- Whether the listed names let the name through. `*` counts without credentials only. -/
def allowsName (f : Request) (listed : List (List Char)) (name : String) : Bool :=
  listed.any (fun n => Ascii.eqIgnoreCase name.toList n) ||
    (!f.credentials && listed.contains "*".toList)

def allowsMethod (f : Request) (listed : List (List Char)) : Bool :=
  listed.contains f.sentMethod.toList || isSafelistedMethod f.sentMethod ||
    (!f.credentials && listed.contains "*".toList)

/-- `authorization` has to be listed by name in any case. -/
def namesAuthorization (f : Request) (listed : List (List Char)) : Bool :=
  f.headers.all fun line => line.1.text != "authorization" ||
    listed.any fun n => Ascii.eqIgnoreCase line.1.text.toList n

def preflightCheck (isSafeValue : Header.Name → Header.Value → Bool) (f : Request) (status : ℕ)
    (headers : Header.Map) : Bool :=
  corsCheck f headers && (200 ≤ status && status ≤ 299) &&
    match extract headers .allowMethods, extract headers .allowHeaders with
    | some methods, some names =>
      let methods := methods.getD (if f.usePreflight then [f.sentMethod.toList] else [])
      let names := names.getD []
      allowsMethod f methods && namesAuthorization f names &&
        (unsafelistedNames isSafeValue f.headers).all (allowsName f names)
    | _, _ => false

variable {isSafeValue : Header.Name → Header.Value → Bool}

/-- Every name that needs consent is a header name of the request. -/
theorem exists_of_mem_unsafelistedNames {headers : Header.Map} {name : String}
    (h : name ∈ unsafelistedNames isSafeValue headers) : ∃ line ∈ headers, line.1.text = name := by
  unfold unsafelistedNames at h
  dsimp only at h
  rw [List.mem_insertionSort, List.mem_dedup] at h
  split_ifs at h
  · obtain ⟨line, hline, hname⟩ := List.mem_map.mp h
    exact ⟨line, hline, hname⟩
  · obtain ⟨line, hline, hname⟩ := List.mem_map.mp h
    exact ⟨line, (List.mem_filter.mp hline).1, hname⟩

theorem mem_unsafelistedNames {headers : Header.Map} {line : Header.Name × Header.Value}
    (hline : line ∈ headers) (h : isSafelisted isSafeValue line = false) :
    line.1.text ∈ unsafelistedNames isSafeValue headers := by
  unfold unsafelistedNames
  dsimp only
  rw [List.mem_insertionSort, List.mem_dedup]
  split_ifs
  · exact List.mem_map_of_mem hline
  · exact List.mem_map_of_mem (f := fun line : Header.Name × Header.Value => line.1.text)
      (List.mem_filter.mpr ⟨hline, by simp [h]⟩)

theorem isToken_text (n : Header.Name) : isToken n.text.toList = true := by
  have hchars := List.all_eq_true.mp n.valid.2.2
  have hne : n.text.toList ≠ [] := by simpa using n.valid.1
  rw [isToken, Bool.and_eq_true, bne_iff_ne, List.all_eq_true]
  refine ⟨hne, ?_⟩
  intro c hc
  rw [Header.isTokenChar, Header.toLower_of_isNameChar (hchars c hc)]
  exact hchars c hc

end Fetch
