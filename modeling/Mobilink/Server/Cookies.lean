import Mobilink.Library.Cookie
import Mobilink.Server.Http

/-! Cookies on their way to the public host: the text that the rewriting loop writes, read as a
browser reads it, is the cookie that was meant. -/
namespace Mobilink.Server
open Cookie (SetCookie readAttribute isNamed)

/-! ### The text -/

/-- What the loop takes for the name of an attribute. -/
def attributeKey (attr : List Char) : List Char :=
  Ascii.toLowercase (Ascii.trim ((Ascii.split '=' attr).headD []))

def isKept (attr : List Char) : Bool :=
  attr ≠ [] ∧ ¬ (attributeKey attr = "domain".toList ∨ attributeKey attr = "samesite".toList)

def isSecure (attr : List Char) : Bool := attributeKey attr == "secure".toList

/-- The attributes that are written, without the blank in front of each. -/
def rewrittenAttributes (attrs : List (List Char)) : List (List Char) :=
  attrs.filter isKept ++ (if (attrs.filter isKept).any isSecure then [] else ["Secure".toList]) ++
    ["SameSite=None".toList]

theorem rewriteAttribute_eq (written : List Char × Bool) (attr : List Char) :
    rewriteAttribute written attr =
      if isKept attr then (written.1 ++ "; ".toList ++ attr, written.2 || isSecure attr)
      else written := by
  rw [rewriteAttribute]
  by_cases hempty : attr = []
  · rw [if_pos hempty, if_neg (by simp [isKept, hempty])]
  · rw [if_neg hempty]
    by_cases hreplaced :
        attributeKey attr = "domain".toList ∨ attributeKey attr = "samesite".toList
    · have hnot : ¬ isKept attr = true := fun hkept => (of_decide_eq_true hkept).2 hreplaced
      rw [if_neg hnot]
      exact if_pos hreplaced
    · have hkept : isKept attr = true := decide_eq_true ⟨hempty, hreplaced⟩
      rw [if_pos hkept]
      exact if_neg hreplaced

theorem foldl_rewriteAttribute (attrs : List (List Char)) (written : List Char × Bool) :
    attrs.foldl rewriteAttribute written =
      (written.1 ++ (attrs.filter isKept).flatMap ("; ".toList ++ ·),
        written.2 || (attrs.filter isKept).any isSecure) := by
  induction attrs generalizing written with
  | nil => simp
  | cons attr attrs ih =>
    rw [List.foldl_cons, ih, rewriteAttribute_eq]
    by_cases hkept : isKept attr = true
    · rw [if_pos hkept, List.filter_cons_of_pos hkept, List.flatMap_cons, List.any_cons]
      simp only [List.append_assoc, Bool.or_assoc]
    · rw [if_neg hkept, List.filter_cons_of_neg hkept]

theorem intercalate_written (first : List Char) (attrs : List (List Char)) :
    [';'].intercalate (first :: attrs.map (' ' :: ·)) =
      first ++ attrs.flatMap ("; ".toList ++ ·) := by
  induction attrs generalizing first with
  | nil => simp
  | cons attr attrs ih =>
    rw [List.map_cons, List.intercalate_cons_cons, List.intercalate_cons_cons_left, ih,
      List.flatMap_cons]
    simp [List.append_assoc]

/-- The pair and the attributes as the loop takes them. -/
def cookieParts (v : String) : List (List Char) := (Ascii.split ';' v.toList).map Ascii.trim

theorem toList_rewriteSetCookieCrossSite (v : String) :
    (rewriteSetCookieCrossSite v).toList =
      [';'].intercalate ((cookieParts v).headD [] ::
        (rewrittenAttributes (cookieParts v).tail).map (' ' :: ·)) := by
  have hloop := foldl_rewriteAttribute (cookieParts v).tail ((cookieParts v).headD [], false)
  rw [intercalate_written, rewriteSetCookieCrossSite, String.toList_ofList, ← cookieParts, hloop,
    rewrittenAttributes]
  simp only [Bool.false_or]
  split_ifs <;> simp

/-! ### The text again -/

/-- A piece between two semicolons, without whitespace around it. -/
def IsPiece (piece : List Char) : Prop := ';' ∉ piece ∧ Ascii.trim piece = piece

theorem isPiece_of_mem_cookieParts {v : String} {piece : List Char} (h : piece ∈ cookieParts v) :
    IsPiece piece := by
  obtain ⟨whole, hwhole, rfl⟩ := List.mem_map.mp h
  constructor
  · intro hmem
    exact (Ascii.mem_split hwhole ';' (Ascii.mem_of_mem_trimBy hmem)).2 rfl
  · exact Ascii.trimBy_trimBy Ascii.isWhitespace whole

theorem isPiece_headD_cookieParts (v : String) : IsPiece ((cookieParts v).headD []) := by
  apply isPiece_of_mem_cookieParts (v := v)
  obtain ⟨first, rest, hpieces⟩ := List.exists_cons_of_ne_nil (List.splitOn_ne_nil ';' v.toList)
  simp [cookieParts, Ascii.split, hpieces]

theorem mem_rewrittenAttributes {attrs : List (List Char)} {attr : List Char}
    (h : attr ∈ rewrittenAttributes attrs) :
    attr ∈ attrs.filter isKept ∨ attr = "Secure".toList ∨ attr = "SameSite=None".toList := by
  simp only [rewrittenAttributes, List.mem_append, List.mem_singleton] at h
  rcases h with (h | h) | h
  · exact Or.inl h
  · split_ifs at h
    · exact absurd h List.not_mem_nil
    · exact Or.inr (Or.inl (List.mem_singleton.mp h))
  · exact Or.inr (Or.inr h)

theorem isPiece_of_mem_rewritten {v : String} {attr : List Char}
    (h : attr ∈ rewrittenAttributes (cookieParts v).tail) : IsPiece attr := by
  rcases mem_rewrittenAttributes h with h | rfl | rfl
  · exact isPiece_of_mem_cookieParts (List.mem_of_mem_tail (List.mem_filter.mp h).1)
  · exact ⟨by decide, by decide⟩
  · exact ⟨by decide, by decide⟩

/-- What has been written is written once more as it is. -/
theorem rewrittenAttributes_rewrittenAttributes (attrs : List (List Char)) :
    rewrittenAttributes (rewrittenAttributes attrs) = rewrittenAttributes attrs := by
  have hsecure : ["Secure".toList].filter isKept = ["Secure".toList] := by decide
  have hsamesite : ["SameSite=None".toList].filter isKept = [] := by decide
  have hidem : (attrs.filter isKept).filter isKept = attrs.filter isKept := by
    rw [List.filter_filter]
    simp only [Bool.and_self]
  by_cases hany : (attrs.filter isKept).any isSecure = true
  · have hwritten : rewrittenAttributes attrs = attrs.filter isKept ++ ["SameSite=None".toList] := by
      rw [rewrittenAttributes, if_pos hany, List.append_nil]
    have hkept : (rewrittenAttributes attrs).filter isKept = attrs.filter isKept := by
      rw [hwritten, List.filter_append, hidem, hsamesite, List.append_nil]
    rw [rewrittenAttributes, hkept, if_pos hany, List.append_nil, hwritten]
  · have hwritten : rewrittenAttributes attrs =
        attrs.filter isKept ++ ["Secure".toList] ++ ["SameSite=None".toList] := by
      rw [rewrittenAttributes, if_neg hany]
    have hkept : (rewrittenAttributes attrs).filter isKept =
        attrs.filter isKept ++ ["Secure".toList] := by
      rw [hwritten, List.filter_append, List.filter_append, hidem, hsecure, hsamesite,
        List.append_nil]
    have hany' : (attrs.filter isKept ++ ["Secure".toList]).any isSecure = true := by
      rw [List.any_append, show ["Secure".toList].any isSecure = true by decide, Bool.or_true]
    rw [rewrittenAttributes, hkept, if_pos hany', List.append_nil, hwritten]

theorem split_rewriteSetCookieCrossSite (v : String) :
    Ascii.split ';' (rewriteSetCookieCrossSite v).toList =
      (cookieParts v).headD [] :: (rewrittenAttributes (cookieParts v).tail).map (' ' :: ·) := by
  rw [toList_rewriteSetCookieCrossSite, Ascii.split, List.splitOn_intercalate _ _ (by simp)]
  intro piece hpiece
  rcases List.mem_cons.mp hpiece with rfl | hpiece
  · exact (isPiece_headD_cookieParts v).1
  · obtain ⟨attr, hattr, rfl⟩ := List.mem_map.mp hpiece
    simpa using (isPiece_of_mem_rewritten hattr).1

theorem cookieParts_rewriteSetCookieCrossSite (v : String) :
    cookieParts (rewriteSetCookieCrossSite v) =
      (cookieParts v).headD [] :: rewrittenAttributes (cookieParts v).tail := by
  rw [cookieParts, split_rewriteSetCookieCrossSite, List.map_cons, List.map_map,
    (isPiece_headD_cookieParts v).2]
  congr 1
  conv_rhs => rw [← List.map_id (rewrittenAttributes (cookieParts v).tail)]
  apply List.map_congr_left
  intro attr hattr
  have htrim : Ascii.trim (' ' :: attr) = Ascii.trim attr := Ascii.trimBy_cons (by decide) attr
  exact htrim.trans (isPiece_of_mem_rewritten hattr).2

/-- The rewriting changes nothing in what it has written. -/
theorem rewriteSetCookieCrossSite_rewritten (v : String) :
    rewriteSetCookieCrossSite (rewriteSetCookieCrossSite v) = rewriteSetCookieCrossSite v := by
  apply String.toList_inj.mp
  rw [toList_rewriteSetCookieCrossSite, cookieParts_rewriteSetCookieCrossSite,
    toList_rewriteSetCookieCrossSite v, List.headD_cons, List.tail_cons,
    rewrittenAttributes_rewrittenAttributes]

/-! ### The cookie -/

/-- The cookie that may cross sites: for the host that the browser is on, and over HTTPS only. -/
def crossSite (cookie : SetCookie) : SetCookie where
  pair := cookie.pair
  attributes :=
    cookie.attributes.filter (fun a => !(isNamed "domain" a || isNamed "samesite" a)) ++
      (if cookie.attributes.any (isNamed "secure") then [] else [("Secure".toList, [])]) ++
      [("SameSite".toList, "None".toList)]

/-- Visible ASCII, a space or a tab. -/
def isReadableChar (c : Char) : Bool := (32 ≤ c.toNat && c.toNat < 127) || c.toNat == 9

/-- Where a value can be read, all whitespace is blanks. -/
theorem isWhitespace_eq_isBlank {c : Char} (h : isReadableChar c = true) :
    Ascii.isWhitespace c = Header.isBlank c := by
  have hspace : c = ' ' ↔ c.toNat = 32 := by
    rw [← Char.toNat_inj]
    rfl
  have htab : c = '\t' ↔ c.toNat = 9 := by
    rw [← Char.toNat_inj]
    rfl
  simp only [isReadableChar, Bool.or_eq_true, Bool.and_eq_true, decide_eq_true_eq,
    beq_iff_eq] at h
  rw [Bool.eq_iff_iff]
  simp only [Ascii.isWhitespace, Header.isBlank, Bool.or_eq_true, Bool.and_eq_true,
    decide_eq_true_eq, beq_iff_eq, hspace, htab]
  omega

theorem trim_eq_strip {s : List Char} (h : ∀ c ∈ s, isReadableChar c = true) :
    Ascii.trim s = Cookie.strip s :=
  Ascii.trimBy_congr fun c hc => isWhitespace_eq_isBlank (h c hc)

section

variable {v : String} (hv : ∀ c ∈ v.toList, isReadableChar c = true)

include hv

theorem cookieParts_of_readable : cookieParts v = (Ascii.split ';' v.toList).map Cookie.strip := by
  apply List.map_congr_left
  intro piece hpiece
  exact trim_eq_strip fun c hc => hv c (Ascii.mem_split hpiece c hc).1

theorem readable_of_mem_cookieParts {piece : List Char} (h : piece ∈ cookieParts v) :
    ∀ c ∈ piece, isReadableChar c = true := by
  obtain ⟨whole, hwhole, rfl⟩ := List.mem_map.mp h
  intro c hc
  exact hv c (Ascii.mem_split hwhole c (Ascii.mem_of_mem_trimBy hc)).1

end

/-- The loop and the browser find the same name. -/
theorem isNamed_readAttribute_iff {attr : List Char} (h : ∀ c ∈ attr, isReadableChar c = true)
    {name : String} (hname : Ascii.toLowercase name.toList = name.toList) :
    isNamed name (readAttribute attr) = true ↔ attributeKey attr = name.toList := by
  have htrim : Ascii.trim (attr.takeWhile (· ≠ '=')) = Cookie.strip (attr.takeWhile (· ≠ '=')) :=
    trim_eq_strip fun c hc => h c ((List.takeWhile_sublist _).subset hc)
  rw [isNamed, Ascii.eqIgnoreCase, hname, attributeKey, Ascii.headD_split, htrim, readAttribute]
  exact beq_iff_eq

section

variable {attrs : List (List Char)} (h : ∀ attr ∈ attrs, ∀ c ∈ attr, isReadableChar c = true)

include h

theorem map_filter_isKept :
    (attrs.filter isKept).map readAttribute =
      ((attrs.filter (· ≠ [])).map readAttribute).filter
        fun a => !(isNamed "domain" a || isNamed "samesite" a) := by
  rw [List.filter_map, List.filter_filter]
  congr 1
  apply List.filter_congr
  intro attr hattr
  have hdomain : isNamed "domain" (readAttribute attr) = true ↔ _ :=
    isNamed_readAttribute_iff (h attr hattr) (by decide)
  have hsamesite : isNamed "samesite" (readAttribute attr) = true ↔ _ :=
    isNamed_readAttribute_iff (h attr hattr) (by decide)
  rw [Bool.eq_iff_iff, isKept, decide_eq_true_iff, ← hdomain, ← hsamesite]
  simp [and_comm]

theorem any_isSecure :
    (attrs.filter isKept).any isSecure =
      ((attrs.filter (· ≠ [])).map readAttribute).any (isNamed "secure") := by
  rw [Bool.eq_iff_iff, List.any_eq_true, List.any_eq_true]
  constructor
  · rintro ⟨attr, hattr, hsecure⟩
    obtain ⟨hmem, hkept⟩ := List.mem_filter.mp hattr
    refine ⟨readAttribute attr, List.mem_map_of_mem (List.mem_filter.mpr ⟨hmem, ?_⟩), ?_⟩
    · exact decide_eq_true (of_decide_eq_true hkept).1
    · exact (isNamed_readAttribute_iff (h attr hmem) (by decide)).mpr (beq_iff_eq.mp hsecure)
  · rintro ⟨a, ha, hsecure⟩
    obtain ⟨attr, hattr, rfl⟩ := List.mem_map.mp ha
    obtain ⟨hmem, hne⟩ := List.mem_filter.mp hattr
    have hkey : attributeKey attr = "secure".toList :=
      (isNamed_readAttribute_iff (h attr hmem) (by decide)).mp hsecure
    have hkept : isKept attr = true := by
      refine decide_eq_true ⟨of_decide_eq_true hne, ?_⟩
      rw [hkey]
      decide
    exact ⟨attr, List.mem_filter.mpr ⟨hmem, hkept⟩, beq_iff_eq.mpr hkey⟩

end

/-- What is written for an attribute is read as that attribute. -/
theorem read_written {attrs : List (List Char)}
    (h : ∀ attr ∈ attrs, Cookie.strip attr ≠ []) :
    ((attrs.map (' ' :: ·)).filter fun piece => Cookie.strip piece ≠ []).map readAttribute =
      attrs.map readAttribute := by
  have hblank : ∀ c ∈ [' '], Header.isBlank c = true := List.forall_mem_singleton.mpr rfl
  have hall : (attrs.map (' ' :: ·)).filter (fun piece => Cookie.strip piece ≠ []) =
      attrs.map (' ' :: ·) := by
    rw [List.filter_eq_self]
    intro piece hpiece
    obtain ⟨attr, hattr, rfl⟩ := List.mem_map.mp hpiece
    have hstrip : Cookie.strip (' ' :: attr) = Cookie.strip attr :=
      Ascii.trimBy_cons (by decide) attr
    rw [hstrip]
    exact decide_eq_true (h attr hattr)
  rw [hall, List.map_map]
  apply List.map_congr_left
  intro attr _
  have happend := Cookie.readAttribute_append (s := attr) (r := []) hblank (by simp)
  rwa [List.append_nil] at happend

/-- A browser reads the rewritten text as the cookie that may cross sites. -/
theorem parse_rewriteSetCookieCrossSite {v : String}
    (hv : ∀ c ∈ v.toList, isReadableChar c = true) :
    Cookie.parse (rewriteSetCookieCrossSite v).toList = crossSite (Cookie.parse v.toList) := by
  have hreadable : ∀ attr ∈ (cookieParts v).tail, ∀ c ∈ attr, isReadableChar c = true :=
    fun attr hattr => readable_of_mem_cookieParts hv (List.mem_of_mem_tail hattr)
  have hold : Cookie.parse v.toList = ⟨Cookie.pair ((cookieParts v).headD []),
      ((cookieParts v).tail.filter (· ≠ [])).map readAttribute⟩ := by
    rw [Cookie.parse_eq, ← cookieParts_of_readable hv]
  have hstrip : ∀ attr ∈ rewrittenAttributes (cookieParts v).tail, Cookie.strip attr ≠ [] := by
    intro attr hattr
    rcases mem_rewrittenAttributes hattr with hkept | rfl | rfl
    · obtain ⟨hmem, hkept⟩ := List.mem_filter.mp hkept
      rw [← trim_eq_strip (hreadable attr hmem), (isPiece_of_mem_rewritten hattr).2]
      exact (of_decide_eq_true hkept).1
    · decide
    · decide
  rw [hold, Cookie.parse, split_rewriteSetCookieCrossSite]
  simp only [List.headD_cons, List.tail_cons]
  rw [read_written hstrip, rewrittenAttributes, List.map_append, List.map_append,
    map_filter_isKept hreadable, any_isSecure hreadable, crossSite]
  congr 3
  split_ifs <;> rfl

/-- What becomes of a cookie: the pair stays, `Domain` goes, `SameSite` is `None` and `Secure` is
there, and all other attributes stay as they are. -/
structure IsCrossSite (old new : SetCookie) : Prop where
  pair : new.pair = old.pair
  domain : ∀ a ∈ new.attributes, isNamed "domain" a = false
  sameSite : new.attributes.filter (isNamed "samesite") = [("SameSite".toList, "None".toList)]
  secure : new.attributes.filter (isNamed "secure") =
    if old.attributes.any (isNamed "secure") then old.attributes.filter (isNamed "secure")
    else [("Secure".toList, [])]
  others : new.attributes.filter (fun a =>
      !(isNamed "domain" a || isNamed "samesite" a || isNamed "secure" a)) =
    old.attributes.filter fun a =>
      !(isNamed "domain" a || isNamed "samesite" a || isNamed "secure" a)

theorem isNamed_unique {a : Cookie.Attribute} {name other : String} (h : isNamed name a = true)
    (hne : Ascii.toLowercase name.toList ≠ Ascii.toLowercase other.toList) :
    isNamed other a = false := by
  have hname : Ascii.toLowercase a.1 = Ascii.toLowercase name.toList := beq_iff_eq.mp h
  rw [isNamed, Ascii.eqIgnoreCase, hname]
  exact beq_eq_false_iff_ne.mpr hne

/-- The attributes that are not replaced. -/
theorem filter_crossSite {P : Cookie.Attribute → Bool}
    (hP : ∀ a, (isNamed "domain" a || isNamed "samesite" a) = true → P a = false)
    (cookie : SetCookie) :
    (crossSite cookie).attributes.filter P = cookie.attributes.filter P ++
      (if cookie.attributes.any (isNamed "secure") then [] else [("Secure".toList, [])]).filter P ++
      [("SameSite".toList, "None".toList)].filter P := by
  rw [crossSite, List.filter_append, List.filter_append, List.filter_filter]
  congr 2
  apply List.filter_congr
  intro a _
  cases hreplaced : isNamed "domain" a || isNamed "samesite" a with
  | true =>
    rw [hP a hreplaced]
    rfl
  | false => simp

theorem isNamed_replacement : isNamed "samesite" ("SameSite".toList, "None".toList) = true := by
  decide

theorem isNamed_addition : isNamed "secure" ("Secure".toList, []) = true := by
  decide

theorem domain_crossSite (cookie : SetCookie) :
    ∀ a ∈ (crossSite cookie).attributes, isNamed "domain" a = false := by
  intro a ha
  rw [crossSite, List.mem_append, List.mem_append, List.mem_singleton] at ha
  rcases ha with (ha | ha) | rfl
  · have hkept := (List.mem_filter.mp ha).2
    simp only [Bool.not_eq_true', Bool.or_eq_false_iff] at hkept
    exact hkept.1
  · split_ifs at ha
    · exact absurd ha List.not_mem_nil
    · rw [List.mem_singleton.mp ha]
      exact isNamed_unique isNamed_addition (by decide)
  · exact isNamed_unique isNamed_replacement (by decide)

theorem sameSite_crossSite (cookie : SetCookie) :
    (crossSite cookie).attributes.filter (isNamed "samesite") =
      [("SameSite".toList, "None".toList)] := by
  have hgone : (cookie.attributes.filter fun a =>
      !(isNamed "domain" a || isNamed "samesite" a)).filter (isNamed "samesite") = [] := by
    rw [List.filter_filter, List.filter_eq_nil_iff]
    intro a _
    cases isNamed "samesite" a <;> simp
  rw [crossSite, List.filter_append, List.filter_append, hgone]
  split_ifs <;> decide

theorem secure_crossSite (cookie : SetCookie) :
    (crossSite cookie).attributes.filter (isNamed "secure") =
      if cookie.attributes.any (isNamed "secure") then cookie.attributes.filter (isNamed "secure")
      else [("Secure".toList, [])] := by
  have hother : ∀ a, (isNamed "domain" a || isNamed "samesite" a) = true →
      isNamed "secure" a = false := by
    intro a hreplaced
    rcases (Bool.or_eq_true _ _).mp hreplaced with hnamed | hnamed
    · exact isNamed_unique hnamed (by decide)
    · exact isNamed_unique hnamed (by decide)
  have hreplacement : [("SameSite".toList, "None".toList)].filter (isNamed "secure") = [] := by
    decide
  rw [filter_crossSite hother, hreplacement, List.append_nil]
  split_ifs with hany
  · rw [List.filter_nil, List.append_nil]
  · have hnone : cookie.attributes.filter (isNamed "secure") = [] := by
      rw [List.filter_eq_nil_iff]
      intro a ha hnamed
      exact hany (List.any_eq_true.mpr ⟨a, ha, hnamed⟩)
    rw [hnone]
    decide

theorem others_crossSite (cookie : SetCookie) :
    (crossSite cookie).attributes.filter (fun a =>
        !(isNamed "domain" a || isNamed "samesite" a || isNamed "secure" a)) =
      cookie.attributes.filter fun a =>
        !(isNamed "domain" a || isNamed "samesite" a || isNamed "secure" a) := by
  rw [filter_crossSite]
  · have hadded : (if cookie.attributes.any (isNamed "secure") then []
        else [("Secure".toList, [])]).filter (fun a =>
          !(isNamed "domain" a || isNamed "samesite" a || isNamed "secure" a)) = [] := by
      split_ifs <;> decide
    rw [hadded, List.append_nil]
    exact List.append_nil _
  · intro a hreplaced
    rw [hreplaced]
    rfl

theorem isCrossSite_crossSite (cookie : SetCookie) : IsCrossSite cookie (crossSite cookie) where
  pair := rfl
  domain := domain_crossSite cookie
  sameSite := sameSite_crossSite cookie
  secure := secure_crossSite cookie
  others := others_crossSite cookie

/-- The text of a value that can be read. -/
theorem isReadableChar_of_toStr {value : Header.Value} {s : String} (h : value.toStr = some s) :
    ∀ c ∈ s.toList, isReadableChar c = true := by
  obtain ⟨hvisible, rfl⟩ := Header.Value.toStr_eq_some_iff.mp h
  intro c hc
  rw [String.toList_ofList] at hc
  obtain ⟨b, hb, rfl⟩ := List.mem_map.mp hc
  have hbyte := List.all_eq_true.mp hvisible b hb
  have hchar := Utf8.toNat_ofNat (Header.toNat_lt_of_isVisibleAscii hbyte)
  simpa [isReadableChar, hchar, Header.isVisibleAscii, UInt8.le_iff_toNat_le,
    UInt8.lt_iff_toNat_lt, ← UInt8.toNat_inj] using hbyte

/-- For every readable value: the rewritten cookie is the one that may cross sites, and a second
rewriting changes nothing. -/
theorem rewriteSetCookieCrossSite_spec (v : String) (hv : ∀ c ∈ v.toList, isReadableChar c = true) :
    IsCrossSite (Cookie.parse v.toList) (Cookie.parse (rewriteSetCookieCrossSite v).toList) ∧
      rewriteSetCookieCrossSite (rewriteSetCookieCrossSite v) = rewriteSetCookieCrossSite v := by
  rw [parse_rewriteSetCookieCrossSite hv]
  exact ⟨isCrossSite_crossSite _, rewriteSetCookieCrossSite_rewritten v⟩

/-- Blanks around `=`, an empty attribute, a valued `Secure`, and a name inside of a value. -/
theorem rewriteSetCookieCrossSite_spec_session :
    let old := "sid = a=b ; Domain=localhost; ; SECURE=1;Path=/domain; samesite = Lax"
    let new := rewriteSetCookieCrossSite old
    new = "sid = a=b; SECURE=1; Path=/domain; SameSite=None" ∧
      IsCrossSite (Cookie.parse old.toList) (Cookie.parse new.toList) ∧
      rewriteSetCookieCrossSite new = new := by
  intro old new
  have hnew : new = "sid = a=b; SECURE=1; Path=/domain; SameSite=None" := by decide
  have hreadable : old.toList.all isReadableChar = true := by decide
  exact ⟨hnew, rewriteSetCookieCrossSite_spec old (List.all_eq_true.mp hreadable)⟩

end Mobilink.Server
