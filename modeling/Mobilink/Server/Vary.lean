import Mobilink.Server.Cors
import Mobilink.Server.Rewrites

/-! What a cache between the browser and the proxy is told: the names that `Vary` lists in the final
response, beside those that the application listed. -/
namespace Mobilink.Server
open Mobilink.Core Header ErudaInjector

/-- The names that the application lists in its `Vary` lines, in any number and letter case. -/
def appVary (headers : List (String × String)) : List (List Char) :=
  (headers.filter fun line => eqIgnoreAsciiCase line.1 Name.vary.text).flatMap fun line =>
    members (octets line.2)

/-- The names that a response lists in its `Vary` lines. -/
def listedVary (headers : Header.Map) : List (List Char) :=
  (headers.getAll .vary).flatMap fun value => members value.octets

def Lists (names : List (List Char)) (name : List Char) : Prop :=
  ∃ n ∈ names, Ascii.eqIgnoreCase n name = true

/-- Either spelling tells a cache to look at the `Origin`. -/
def ListsOrigin (names : List (List Char)) : Prop :=
  Lists names "origin".toList ∨ "*".toList ∈ names

/-- A frame of the tunnel after both rewrites. -/
def rewritten (publicUrl : String) (auth : AuthMode) (erudaDisabled : Bool)
    (frame : HttpResponseData) : HttpResponseData :=
  applyEruda ⟨transform, publicUrl⟩ erudaDisabled (applyAuthMode auth frame)

/-- The response to a request whose frame has gone through both rewrites. -/
def finalResponse (data : HttpResponseData) (r : PublicRequest) : Response :=
  corsLayer r (buildResponse data)

/-- Every name that the application lists is still listed. -/
def KeepsVary (headers : List (String × String)) (response : Response) : Prop :=
  ∀ name ∈ appVary headers, Lists (listedVary response.headers) name

/-- Two responses that differ both tell a cache to look at the `Origin`. -/
def Separates (response response' : Response) : Prop :=
  response ≠ response' →
    ListsOrigin (listedVary response.headers) ∧ ListsOrigin (listedVary response'.headers)

/-- Two requests with the same content but for their `Origin` lines. -/
structure DifferOnlyInOrigin (r r' : PublicRequest) : Prop where
  method : r.method = r'.method
  path : r.path = r'.path
  query : r.query = r'.query
  headers : r.headers.filter (fun line => line.1.text ≠ "origin") =
    r'.headers.filter fun line => line.1.text ≠ "origin"
  body : r.body = r'.body

/-! ### What is listed -/

theorem lists_singleton (n name : List Char) :
    Lists [n] name ↔ Ascii.eqIgnoreCase n name = true := by
  simp [Lists]

theorem lists_of_mem {names : List (List Char)} {name : List Char} (h : name ∈ names) :
    Lists names name := ⟨name, h, by simp [Ascii.eqIgnoreCase]⟩

theorem eqIgnoreCase_comm (a b : List Char) : Ascii.eqIgnoreCase a b = Ascii.eqIgnoreCase b a := by
  rw [Ascii.eqIgnoreCase, Ascii.eqIgnoreCase, Bool.eq_iff_iff, beq_iff_eq, beq_iff_eq]
  exact eq_comm

/-- A text page does not speak of caches. -/
theorem listedVary_textResponse (status : StatusCode) (message : String) :
    listedVary (textResponse status message).headers = [] := by
  rw [listedVary, getAll_textResponse status message (by decide), List.flatMap_nil]

/-- A frame that can be built keeps the application's names. -/
theorem listedVary_of_buildable {data : HttpResponseData} (h : Buildable data.headers) :
    listedVary (buildResponse data).headers = appVary data.headers := by
  rw [listedVary, getAll_buildResponse h, getAll_passedLines _ (by decide), appVary]
  have hvalues : ∀ line ∈ data.headers.filter fun line => eqIgnoreAsciiCase line.1 Name.vary.text,
      ∃ value, Header.Value.ofString? line.2 = some value := by
    intro line hline
    obtain ⟨hmem, hname⟩ := List.mem_filter.mp hline
    have hpass : isPassed line.1 = true := (isPassed_congr hname).trans (by decide)
    obtain ⟨⟨_, value⟩, hparsed⟩ := Option.isSome_iff_exists.mp (h line hmem hpass)
    exact ⟨value, (Header.line?_eq_some_iff.mp hparsed).2⟩
  generalize data.headers.filter (fun line => eqIgnoreAsciiCase line.1 Name.vary.text) = lines
    at hvalues
  induction lines with
  | nil => rfl
  | cons line lines ih =>
    obtain ⟨value, hvalue⟩ := hvalues line (by simp)
    have hrest := ih fun l hl => hvalues l (by simp [hl])
    rw [List.filterMap_cons, hvalue]
    dsimp only
    rw [List.flatMap_cons, List.flatMap_cons, hrest, Header.Value.octets_of_ofString? hvalue]

theorem listedVary_of_not_buildable {data : HttpResponseData} (h : ¬ Buildable data.headers) :
    listedVary (buildResponse data).headers = [] := by
  rw [buildResponse_of_not_buildable h]
  exact listedVary_textResponse _ _

/-- With an `Origin`, the layer's own line takes the place of all others. -/
theorem listedVary_of_origin {r : PublicRequest} {origin : Header.Value} (hr : r.method ≠ "OPTIONS")
    (h : r.headers.get "origin" = some origin) (data : HttpResponseData) :
    listedVary (finalResponse data r).headers = ["Origin".toList] := by
  rw [listedVary, finalResponse, corsLayer, if_neg hr, h]
  dsimp only
  rw [vary_addCorsHeaders_some]
  decide

theorem listedVary_of_no_origin {r : PublicRequest} (hr : r.method ≠ "OPTIONS")
    (h : r.headers.get "origin" = none) (data : HttpResponseData) :
    listedVary (finalResponse data r).headers = listedVary (buildResponse data).headers := by
  rw [listedVary, finalResponse, corsLayer, if_neg hr, h]
  dsimp only
  rw [getAll_addCorsHeaders_none _ (by decide), listedVary]

/-- Neither rewrite touches a `Vary` line. -/
theorem appVary_rewritten (publicUrl : String) (auth : AuthMode) (erudaDisabled : Bool)
    (frame : HttpResponseData) :
    appVary (rewritten publicUrl auth erudaDisabled frame).headers = appVary frame.headers := by
  rw [appVary, rewritten, filter_rewritten publicUrl auth erudaDisabled frame (by decide) (by decide),
    appVary]

/-! ### One response -/

/-- The condition under which the names of the application survive. -/
def VarySurvives (data : HttpResponseData) (origin : Option Header.Value) : Prop :=
  match origin with
  | some _ => ∀ name ∈ appVary data.headers, Ascii.eqIgnoreCase name "origin".toList = true
  | none => Buildable data.headers ∨ appVary data.headers = []

theorem keepsVary_iff {r : PublicRequest} (hr : r.method ≠ "OPTIONS") (data : HttpResponseData) :
    KeepsVary data.headers (finalResponse data r) ↔
      VarySurvives data (r.headers.get "origin") := by
  unfold KeepsVary
  cases ho : r.headers.get "origin" with
  | some origin =>
    rw [listedVary_of_origin hr ho]
    apply forall₂_congr
    intro name _
    rw [lists_singleton, eqIgnoreCase_comm]
    have hcase : Ascii.toLowercase "Origin".toList = Ascii.toLowercase "origin".toList := by decide
    rw [Ascii.eqIgnoreCase, Ascii.eqIgnoreCase, hcase]
  | none =>
    rw [listedVary_of_no_origin hr ho]
    by_cases hb : Buildable data.headers
    · rw [listedVary_of_buildable hb]
      exact iff_of_true (fun _ hname => lists_of_mem hname) (Or.inl hb)
    · rw [listedVary_of_not_buildable hb]
      constructor
      · intro h
        right
        rw [List.eq_nil_iff_forall_not_mem]
        intro name hname
        obtain ⟨_, hn, _⟩ := h name hname
        exact absurd hn (by simp)
      · intro h name hname
        rcases h with hb' | hnil
        · exact absurd hb' hb
        · rw [hnil] at hname
          exact absurd hname (by simp)

/-! ### Two responses -/

/-- The application itself tells a cache to look at the `Origin`, in a frame that can be built. -/
def AppVariesByOrigin (data : HttpResponseData) : Prop :=
  Buildable data.headers ∧ ListsOrigin (appVary data.headers)

theorem listsOrigin_of_origin {r : PublicRequest} {origin : Header.Value} (hr : r.method ≠ "OPTIONS")
    (h : r.headers.get "origin" = some origin) (data : HttpResponseData) :
    ListsOrigin (listedVary (finalResponse data r).headers) := by
  rw [listedVary_of_origin hr h]
  exact Or.inl ((lists_singleton _ _).mpr (by decide))

theorem listsOrigin_of_no_origin {r : PublicRequest} (hr : r.method ≠ "OPTIONS")
    (h : r.headers.get "origin" = none) (data : HttpResponseData) :
    ListsOrigin (listedVary (finalResponse data r).headers) ↔ AppVariesByOrigin data := by
  rw [listedVary_of_no_origin hr h, AppVariesByOrigin]
  by_cases hb : Buildable data.headers
  · rw [listedVary_of_buildable hb]
    simp [hb]
  · rw [listedVary_of_not_buildable hb]
    simp [hb, ListsOrigin, Lists]

/-- A response with an `Origin` and one without are separated exactly when the application does it
itself. -/
theorem separates_one_origin {r r' : PublicRequest} {origin : Header.Value}
    (hr : r.method ≠ "OPTIONS") (hr' : r'.method ≠ "OPTIONS")
    (h : r.headers.get "origin" = some origin) (h' : r'.headers.get "origin" = none)
    (data : HttpResponseData) :
    Separates (finalResponse data r) (finalResponse data r') ↔ AppVariesByOrigin data := by
  have hlists := listsOrigin_of_origin hr h data
  have happ := listsOrigin_of_no_origin hr' h' data
  constructor
  · intro hsep
    by_contra hnot
    -- Only one of them lists the origin, so they differ.
    have hne : finalResponse data r ≠ finalResponse data r' := by
      intro heq
      rw [heq] at hlists
      exact hnot (happ.mp hlists)
    exact hnot (happ.mp (hsep hne).2)
  · exact fun hvaries _ => ⟨hlists, happ.mpr hvaries⟩

theorem Separates.symm {response response' : Response} (h : Separates response response') :
    Separates response' response := fun hne => (h hne.symm).symm

theorem finalResponse_congr {r r' : PublicRequest} (hr : r.method ≠ "OPTIONS")
    (hr' : r'.method ≠ "OPTIONS") (h : r.headers.get "origin" = r'.headers.get "origin")
    (data : HttpResponseData) : finalResponse data r = finalResponse data r' := by
  rw [finalResponse, finalResponse, corsLayer, corsLayer, if_neg hr, if_neg hr', h]

theorem separates_iff {r r' : PublicRequest} (hr : r.method ≠ "OPTIONS")
    (hr' : r'.method ≠ "OPTIONS") (data : HttpResponseData) :
    Separates (finalResponse data r) (finalResponse data r') ↔
      r.headers.get "origin" = r'.headers.get "origin" ∨
        ((r.headers.get "origin").isSome ∧ (r'.headers.get "origin").isSome) ∨
        AppVariesByOrigin data := by
  cases ho : r.headers.get "origin" with
  | none =>
    cases ho' : r'.headers.get "origin" with
    | none =>
      have heq := finalResponse_congr hr hr' (ho.trans ho'.symm) data
      exact iff_of_true (fun hne => absurd heq hne) (Or.inl rfl)
    | some origin' =>
      have hsep := separates_one_origin hr' hr ho' ho data
      simpa using Iff.trans ⟨Separates.symm, Separates.symm⟩ hsep
  | some origin =>
    cases ho' : r'.headers.get "origin" with
    | none => simpa using separates_one_origin hr hr' ho ho' data
    | some origin' =>
      refine iff_of_true ?_ (Or.inr (Or.inl ⟨rfl, rfl⟩))
      exact fun _ => ⟨listsOrigin_of_origin hr ho data, listsOrigin_of_origin hr' ho' data⟩

/-- For every frame, mode and flag, and every two requests that differ only in their `Origin`: when
the application's names are still listed, and when a cache can tell the two responses apart. -/
theorem vary_iff (publicUrl : String) (auth : AuthMode) (erudaDisabled : Bool)
    (frame : HttpResponseData) (r r' : PublicRequest) (hr : r.method ≠ "OPTIONS")
    (hsame : DifferOnlyInOrigin r r') :
    let data := rewritten publicUrl auth erudaDisabled frame
    (KeepsVary frame.headers (finalResponse data r) ↔
      VarySurvives data (r.headers.get "origin")) ∧
    (Separates (finalResponse data r) (finalResponse data r') ↔
      r.headers.get "origin" = r'.headers.get "origin" ∨
        ((r.headers.get "origin").isSome ∧ (r'.headers.get "origin").isSome) ∨
        AppVariesByOrigin data) := by
  intro data
  have hr' : r'.method ≠ "OPTIONS" := hsame.method ▸ hr
  constructor
  · rw [KeepsVary, ← appVary_rewritten publicUrl auth erudaDisabled]
    exact keepsVary_iff hr data
  · exact separates_iff hr hr' data

/-- A page that its application varies by origin, asked for with an `Origin` and without one. -/
theorem vary_iff_page :
    let frame : HttpResponseData := ⟨200, [("Vary", "Origin")], []⟩
    let origin := (⟨"origin", by decide⟩, .fromStatic "https://app.test" (by decide))
    let r : PublicRequest := ⟨"GET", "/", none, [origin], some []⟩
    let r' : PublicRequest := ⟨"GET", "/", none, [], some []⟩
    let data := rewritten "https://my-vps.com" .cookie true frame
    KeepsVary frame.headers (finalResponse data r) ∧
      Separates (finalResponse data r) (finalResponse data r') := by
  intro frame origin r r' data
  have hsame : DifferOnlyInOrigin r r' := ⟨rfl, rfl, rfl, rfl, rfl⟩
  have hiff := vary_iff "https://my-vps.com" .cookie true frame r r' (by decide) hsame
  have hvary : appVary data.headers = ["Origin".toList] := by decide
  have hbuilds : Buildable data.headers := by
    intro line hline _
    rw [List.mem_singleton.mp hline]
    decide
  refine ⟨hiff.1.mpr ?_, hiff.2.mpr (Or.inr (Or.inr ⟨hbuilds, Or.inl ?_⟩))⟩
  · intro name hname
    rw [hvary, List.mem_singleton] at hname
    rw [hname]
    decide
  · rw [hvary, lists_singleton]
    decide

/-- The application varies by `Accept-Encoding`: with an `Origin` that name is lost, and without one
nothing tells a cache that the other response is not the same. -/
theorem vary_overwritten :
    let frame : HttpResponseData := ⟨200, [("Vary", "Accept-Encoding")], []⟩
    let origin := (⟨"origin", by decide⟩, .fromStatic "https://app.test" (by decide))
    let r : PublicRequest := ⟨"GET", "/", none, [origin], some []⟩
    let r' : PublicRequest := ⟨"GET", "/", none, [], some []⟩
    let data := rewritten "https://my-vps.com" .passthrough true frame
    DifferOnlyInOrigin r r' ∧
      ¬ KeepsVary frame.headers (finalResponse data r) ∧
      ¬ Separates (finalResponse data r) (finalResponse data r') := by
  intro frame origin r r' data
  have happ : appVary frame.headers = ["Accept-Encoding".toList] := by decide
  have hlisted : listedVary (finalResponse data r).headers = ["Origin".toList] := by decide
  have hlisted' : listedVary (finalResponse data r').headers = ["Accept-Encoding".toList] := by
    decide
  refine ⟨⟨rfl, rfl, rfl, rfl, rfl⟩, ?_, ?_⟩
  · intro hkeeps
    have hlost := hkeeps "Accept-Encoding".toList (by rw [happ]; simp)
    rw [hlisted, lists_singleton] at hlost
    exact absurd hlost (by decide)
  · intro hsep
    have hne : finalResponse data r ≠ finalResponse data r' := by
      intro heq
      rw [heq, hlisted'] at hlisted
      exact absurd hlisted (by decide)
    have horigin := (hsep hne).2
    rw [hlisted', ListsOrigin, lists_singleton] at horigin
    rcases horigin with h | h
    · exact absurd h (by decide)
    · exact absurd (List.mem_singleton.mp h) (by decide)

end Mobilink.Server
