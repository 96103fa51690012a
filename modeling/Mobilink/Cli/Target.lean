import Mobilink.Cli.Local

/-! Where the URL of a replayed request leads: the target of a frame is appended to the digits of
the port, and what of it belongs to the authority decides. -/
namespace Mobilink.Cli
open Mobilink.Core

variable {η : Type*} {client : HttpClient η} {localhost : η}

/-- The replay is refused, or its URL denotes `localhost` and the exposed port. -/
def Confined (client : HttpClient η) (localhost : η) (port : UInt16) (request : HttpRequestData) :
    Prop :=
  ∀ q, buildRequest client port request = .ok q → reaches localhost port q

/-- What the target adds to the authority keeps it: behind an `@` it is refused or names the exposed
port itself, and as further digits it is refused or leaves the port as it was. -/
def KeepsAuthority (parseHost : List Char → Option η) (localhost : η) (port : UInt16)
    (target : String) : Prop :=
  let added := Url.addedAuthority target.toList
  let extended := Url.extended (Nat.toDigits 10 port.toNat) added
  ('@' ∈ added → ∀ x, Url.parseAuthority parseHost added = some x →
      x = (localhost, port.toNat)) ∧
    ('@' ∉ added → added.all Char.isDigit = true → 65535 < extended ∨ extended = port.toNat)

private theorem toList_append_append (a b c : String) :
    (a ++ b ++ c).toList = a.toList ++ b.toList ++ c.toList := by
  simp only [String.toList_append]

theorem toList_replayUrl (port : UInt16) (target : String) :
    (replayUrl port target).toList =
      "http://".toList ++ "localhost".toList ++ ':' :: Nat.toDigits 10 port.toNat ++
        target.toList := by
  have hbase : "http://localhost:".toList = "http://".toList ++ "localhost".toList ++ [':'] := by
    decide
  have happ := toList_append_append "http://localhost:" port.toNat.repr target
  rw [hbase, Nat.toList_repr] at happ
  refine happ.trans ?_
  simp only [List.append_assoc, List.cons_append, List.nil_append]

/-- The host and the port of the URL that is built for a target. -/
theorem parse_replayUrl (hlocalhost : client.parseHost "localhost".toList = some localhost)
    (port : UInt16) (target : String) :
    ((Url.parse client.parseHost (replayUrl port target).toList).map fun u => (u.host, u.port)) =
      if '@' ∈ Url.addedAuthority target.toList then
        Url.parseAuthority client.parseHost (Url.addedAuthority target.toList)
      else if (Url.addedAuthority target.toList).all Char.isDigit ∧
          Url.extended (Nat.toDigits 10 port.toNat) (Url.addedAuthority target.toList) ≤ 65535 then
        some (localhost,
          Url.extended (Nat.toDigits 10 port.toNat) (Url.addedAuthority target.toList))
      else none := by
  have hplain : ∀ c ∈ "localhost".toList, Url.isPlain c = true :=
    List.all_eq_true.mp (show "localhost".toList.all Url.isPlain = true by decide)
  have hdigits : ∀ c ∈ Nat.toDigits 10 port.toNat, c.isDigit = true :=
    fun c hc => Nat.isDigit_of_mem_toDigits (by omega) (by omega) hc
  have htext := toList_replayUrl port target
  rw [htext, Url.parse_append client.parseHost hplain hdigits]
  exact Url.parseAuthority_append client.parseHost hlocalhost hplain Nat.toDigits_ne_nil hdigits _

/-- A target that starts with a slash, as every path does, keeps the authority. -/
theorem keepsAuthority_of_path {parseHost : List Char → Option η} (port : UInt16) {target : String}
    {rest : List Char} (h : target.toList = '/' :: rest) :
    KeepsAuthority parseHost localhost port target := by
  have hadded : Url.addedAuthority target.toList = [] := by
    rw [h, Url.addedAuthority_slash]
  unfold KeepsAuthority
  rw [hadded]
  dsimp only
  constructor
  · intro hat
    simp at hat
  · intro _ _
    right
    rw [Url.extended, List.append_nil, Nat.ofDigitChars_ten_toDigits]

/-- A frame that the builder accepts is replayed to the exposed port, or nowhere, exactly when its
target keeps the authority. -/
theorem confined_iff (hlocalhost : client.parseHost "localhost".toList = some localhost)
    (port : UInt16) (request : HttpRequestData) :
    Confined client localhost port request ↔
      (isMethod request.method = true → (buildLines request.headers).isSome = true →
        KeepsAuthority client.parseHost localhost port request.target) := by
  have hparse := parse_replayUrl hlocalhost port request.target
  constructor
  · intro hconfined hmethod hlines
    obtain ⟨headers, hheaders⟩ := Option.isSome_iff_exists.mp hlines
    have hreach : ∀ x, ((Url.parse client.parseHost (replayUrl port request.target).toList).map
        fun u => (u.host, u.port)) = some x → x = (localhost, port.toNat) := by
      intro x hx
      obtain ⟨url, hurl, heq⟩ := Option.map_eq_some_iff.mp hx
      have hq := hconfined _ (buildRequest_eq_ok_iff.mpr
        ⟨hmethod, url, headers, hurl, hheaders, rfl⟩)
      rw [← heq, Prod.mk.injEq]
      exact hq
    rw [hparse] at hreach
    unfold KeepsAuthority
    dsimp only
    constructor
    · intro hat
      rw [if_pos hat] at hreach
      exact hreach
    · intro hat hall
      rw [if_neg hat] at hreach
      by_cases hsmall : Url.extended (Nat.toDigits 10 port.toNat)
          (Url.addedAuthority request.target.toList) ≤ 65535
      · rw [if_pos ⟨hall, hsmall⟩] at hreach
        have hsame := hreach _ rfl
        rw [Prod.mk.injEq] at hsame
        exact Or.inr hsame.2
      · left
        omega
  · intro hkeeps q hq
    obtain ⟨hmethod, url, headers, hurl, hheaders, heq⟩ := buildRequest_eq_ok_iff.mp hq
    have hkept := hkeeps hmethod (by rw [hheaders]; rfl)
    unfold KeepsAuthority at hkept
    dsimp only at hkept
    obtain ⟨hkeptAt, hkeptDigits⟩ := hkept
    rw [hurl, Option.map_some] at hparse
    have hpair : (url.host, url.port) = (localhost, port.toNat) := by
      split_ifs at hparse with hat hport
      · exact hkeptAt hat _ hparse.symm
      · rw [Option.some.inj hparse, Prod.mk.injEq]
        refine ⟨rfl, ?_⟩
        rcases hkeptDigits hat hport.1 with hlarge | hsame
        · exact absurd hport.2 (by omega)
        · exact hsame
    rw [heq]
    exact Prod.mk.inj hpair

/-- A client for the runs below, which takes lowercase host names as they are and knows the Basic
credentials of one user, `localhost:3000`. -/
def plainHosts : HttpClient (List Char) where
  parseHost s := if s ≠ [] ∧ s.all (fun c => c.isLower || c == '.') then some s else none
  credentials userinfo :=
    if userinfo = "localhost:3000".toList then
      [(⟨"authorization", by decide⟩,
        ⟨"Basic bG9jYWxob3N0OjMwMDA=".toByteArray.data.toList, by decide⟩)]
    else []
  follow _ _ := none
  describe _ := ⟨"error", []⟩

/-- An ordinary path stays behind the exposed port. -/
theorem confined_iff_path :
    Confined plainHosts "localhost".toList 3000 ⟨"GET", "/api/items?page=2@home", [], []⟩ := by
  have hlocalhost : plainHosts.parseHost "localhost".toList = some "localhost".toList := by decide
  have hpath : "/api/items?page=2@home".toList = '/' :: "api/items?page=2@home".toList := by decide
  rw [confined_iff hlocalhost]
  intro _ _
  exact keepsAuthority_of_path 3000 hpath

/-- Two frames for port 3000: a digit in front of the path leads to port 30000, and an `@` to
another host. -/
theorem target_leaves_port :
    let digit : HttpRequestData := ⟨"GET", "0/", [], []⟩
    let userinfo : HttpRequestData := ⟨"GET", "@evil.example/", [], []⟩
    (Wire.encode digit).bind Wire.decode = some digit ∧
      (Wire.encode userinfo).bind Wire.decode = some userinfo ∧
      buildRequest plainHosts 3000 digit =
        .ok ⟨"GET", ⟨none, "localhost".toList, 30000, "/".toList⟩, [], []⟩ ∧
      buildRequest plainHosts 3000 userinfo =
        .ok ⟨"GET", ⟨none, "evil.example".toList, 80, "/".toList⟩,
          plainHosts.credentials "localhost:3000".toList, []⟩ ∧
      ¬ Confined plainHosts "localhost".toList 3000 digit ∧
      ¬ Confined plainHosts "localhost".toList 3000 userinfo := by
  intro digit userinfo
  have hdigit : buildRequest plainHosts 3000 digit =
      .ok ⟨"GET", ⟨none, "localhost".toList, 30000, "/".toList⟩, [], []⟩ := by decide
  have huserinfo : buildRequest plainHosts 3000 userinfo =
      .ok ⟨"GET", ⟨none, "evil.example".toList, 80, "/".toList⟩,
        plainHosts.credentials "localhost:3000".toList, []⟩ := by decide
  refine ⟨by decide, by decide, hdigit, huserinfo, ?_, ?_⟩
  · intro hconfined
    exact absurd (hconfined _ hdigit).2 (by decide)
  · intro hconfined
    exact absurd (hconfined _ huserinfo).1 (by decide)

end Mobilink.Cli
