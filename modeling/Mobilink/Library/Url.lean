import Mathlib.Data.List.DropRight
import Mathlib.Data.Nat.Notation

/-! The host and port of an `http` URL by the rules of the URL standard, and what becomes of them
when arbitrary text is appended to `http://host:port`. -/

/-- `rest` is the text from the path on. -/
structure Url (η : Type*) where
  userinfo : Option (List Char)
  host : η
  port : ℕ
  rest : List Char
  deriving DecidableEq

namespace Url

variable {η : Type*}

/-- A C0 control or a space. -/
def isBlank (c : Char) : Bool := c.toNat ≤ 0x20

def isTabOrNewline (c : Char) : Bool := c == '\t' || c == '\n' || c == '\r'

/-- Trailing blanks, and tabs and newlines anywhere, do not count. -/
def cleanEnd (s : List Char) : List Char := (s.rdropWhile isBlank).filter fun c => !isTabOrNewline c

def clean (s : List Char) : List Char := cleanEnd (s.dropWhile isBlank)

def endsAuthority (c : Char) : Bool := c == '/' || c == '\\' || c == '?' || c == '#'

def authority (s : List Char) : List Char := s.takeWhile fun c => !endsAuthority c

/-- All of `s` when `sep` is not in it. -/
def afterLast (sep : Char) (s : List Char) : List Char := s.rtakeWhile (· ≠ sep)

/-- What stands before the last `sep`. -/
def beforeLast (sep : Char) (s : List Char) : List Char := (s.rdropWhile (· ≠ sep)).dropLast

/-- The port behind the last colon, unless that colon is inside the brackets of an IPv6 address. -/
def splitPort (s : List Char) : List Char × Option (List Char) :=
  if ':' ∈ s ∧ ']' ∉ afterLast ':' s then (beforeLast ':' s, some (afterLast ':' s)) else (s, none)

/-- No port, or an empty one, is the default of the scheme. -/
def parsePort : Option (List Char) → Option ℕ
  | none | some [] => some 80
  | some digits =>
    if digits.all Char.isDigit ∧ Nat.ofDigitChars 10 digits 0 ≤ 65535 then
      some (Nat.ofDigitChars 10 digits 0)
    else none

/-- User information ends at the last `@`. -/
def splitUserinfo (s : List Char) : Option (List Char) :=
  if '@' ∈ s then some (beforeLast '@' s) else none

variable (parseHost : List Char → Option η)

/-- A host with a colon in it has to be a bracketed address. -/
def parseHostPort (s : List Char) : Option (η × ℕ) :=
  let (host, port) := splitPort s
  if ':' ∈ host ∧ host.head? ≠ some '[' then none
  else (parseHost host).bind fun h => (parsePort port).map fun p => (h, p)

def parseAuthority (s : List Char) : Option (η × ℕ) := parseHostPort parseHost (afterLast '@' s)

def parse (s : List Char) : Option (Url η) :=
  let s := clean s
  if "http://".toList.isPrefixOf s then
    (parseAuthority parseHost (authority (s.drop 7))).map fun x =>
      ⟨splitUserinfo (authority (s.drop 7)), x.1, x.2,
        (s.drop 7).dropWhile fun c => !endsAuthority c⟩
  else none

/-! ### Appending text -/

/-- The characters of a host name that no rule above gives a meaning to. -/
def isPlain (c : Char) : Bool :=
  !isBlank c && !isTabOrNewline c && !endsAuthority c && c != '@' && c != ':' && c != '[' &&
    c != ']'

theorem isPlain_of_isDigit {c : Char} (h : c.isDigit = true) : isPlain c = true := by
  have hne : ∀ x : Char, x.isDigit = false → c ≠ x := by
    intro x hx he
    rw [he, hx] at h
    exact absurd h (by decide)
  have hlow : 48 ≤ c.toNat := by
    simp only [Char.isDigit, Bool.and_eq_true, decide_eq_true_eq, ge_iff_le] at h
    exact h.1
  have hblank : ¬ c.toNat ≤ 0x20 := by omega
  simp [isPlain, isBlank, isTabOrNewline, endsAuthority, hblank, hne]

theorem afterLast_of_not_mem {sep : Char} {s : List Char} (h : sep ∉ s) : afterLast sep s = s := by
  rw [afterLast, List.rtakeWhile_eq_self_iff]
  intro c hc
  simp only [decide_not, Bool.not_eq_true', decide_eq_false_iff_not]
  intro he
  exact h (he ▸ hc)

private theorem takeWhile_reverse_split {sep : Char} (s : List Char) {t : List Char} (h : sep ∉ t) :
    (s ++ sep :: t).reverse.takeWhile (· ≠ sep) = t.reverse ∧
      (s ++ sep :: t).reverse.dropWhile (· ≠ sep) = sep :: s.reverse := by
  have hall : ∀ c ∈ t.reverse, decide (c ≠ sep) = true := by
    intro c hc
    simp only [List.mem_reverse] at hc
    simp only [ne_eq, decide_eq_true_eq]
    intro he
    exact h (he ▸ hc)
  have hrev : (s ++ sep :: t).reverse = t.reverse ++ sep :: s.reverse := by simp
  rw [hrev, List.takeWhile_append_of_pos hall, List.dropWhile_append_of_pos hall]
  simp

theorem afterLast_split {sep : Char} (s : List Char) {t : List Char} (h : sep ∉ t) :
    afterLast sep (s ++ sep :: t) = t := by
  have hsplit := (takeWhile_reverse_split s h).1
  rw [afterLast, List.rtakeWhile, hsplit, List.reverse_reverse]

theorem beforeLast_split {sep : Char} (s : List Char) {t : List Char} (h : sep ∉ t) :
    beforeLast sep (s ++ sep :: t) = s := by
  have hsplit := (takeWhile_reverse_split s h).2
  rw [beforeLast, List.rdropWhile, hsplit]
  simp

theorem exists_last {sep : Char} {t : List Char} (h : sep ∈ t) :
    ∃ t₁ t₂, t = t₁ ++ sep :: t₂ ∧ sep ∉ t₂ := by
  obtain ⟨a, b, hab, hnot⟩ := List.eq_append_cons_of_mem (List.mem_reverse.mpr h)
  refine ⟨b.reverse, a.reverse, ?_, by simpa using hnot⟩
  have hrev := congrArg List.reverse hab
  simpa using hrev

theorem afterLast_append {sep : Char} (s : List Char) {t : List Char} (h : sep ∈ t) :
    afterLast sep (s ++ t) = afterLast sep t := by
  obtain ⟨t₁, t₂, ht, hnot⟩ := exists_last h
  have happ : s ++ t = (s ++ t₁) ++ sep :: t₂ := by
    rw [ht, List.append_assoc]
  rw [happ, afterLast_split _ hnot, ht, afterLast_split _ hnot]

variable {host digits : List Char}

theorem cleanEnd_append {base : List Char}
    (hlast : ∀ h : base ≠ [], isBlank (base.getLast h) = false)
    (hclean : ∀ c ∈ base, isTabOrNewline c = false) (t : List Char) :
    cleanEnd (base ++ t) = base ++ cleanEnd t := by
  have hend : (base ++ t).rdropWhile isBlank = base ++ t.rdropWhile isBlank := by
    have hbase : base.rdropWhile isBlank = base :=
      List.rdropWhile_eq_self_iff.mpr (fun h => by simp [hlast h])
    rw [List.rdropWhile, List.reverse_append, List.dropWhile_append]
    split_ifs with hall
    · have hnil : t.reverse.dropWhile isBlank = [] := by simpa using hall
      have hb : (base.reverse.dropWhile isBlank).reverse = base := hbase
      rw [hb, List.rdropWhile, hnil]
      simp
    · rw [List.reverse_append, List.reverse_reverse]
      rfl
  have hfilter : base.filter (fun c => !isTabOrNewline c) = base :=
    List.filter_eq_self.mpr (fun c hc => by simp [hclean c hc])
  rw [cleanEnd, hend, List.filter_append, hfilter]
  rfl

/-- Text appended to a URL that ends in a plain character leaves what stands before it. -/
theorem clean_append {base : List Char} (hhead : ∀ c ∈ base.head?, isBlank c = false)
    (hne : base ≠ []) (hlast : ∀ h : base ≠ [], isBlank (base.getLast h) = false)
    (hclean : ∀ c ∈ base, isTabOrNewline c = false) (t : List Char) :
    clean (base ++ t) = base ++ cleanEnd t := by
  have hstart : (base ++ t).dropWhile isBlank = base ++ t := by
    cases base with
    | nil => exact absurd rfl hne
    | cons c base =>
      have hc := hhead c (by simp)
      simp [hc]
  rw [clean, hstart, cleanEnd_append hlast hclean]

/-- What a target adds to the authority of the URL it is appended to. -/
def addedAuthority (t : List Char) : List Char := authority (cleanEnd t)

theorem cleanEnd_cons {c : Char} (hblank : isBlank c = false) (htab : isTabOrNewline c = false)
    (t : List Char) : cleanEnd (c :: t) = c :: cleanEnd t := by
  have hlast : ∀ h : [c] ≠ [], isBlank ([c].getLast h) = false := fun _ => by simpa using hblank
  exact cleanEnd_append hlast (List.forall_mem_singleton.mpr htab) t

/-- Text that ends the authority adds nothing. -/
theorem addedAuthority_cons {c : Char} (hblank : isBlank c = false) (htab : isTabOrNewline c = false)
    (hends : endsAuthority c = true) (t : List Char) : addedAuthority (c :: t) = [] := by
  rw [addedAuthority, cleanEnd_cons hblank htab]
  simp [authority, hends]

/-- Any other visible character is added. -/
theorem addedAuthority_cons_of_not_ends {c : Char} (hblank : isBlank c = false)
    (htab : isTabOrNewline c = false) (hends : endsAuthority c = false) (t : List Char) :
    addedAuthority (c :: t) = c :: addedAuthority t := by
  rw [addedAuthority, cleanEnd_cons hblank htab]
  simp [authority, addedAuthority, hends]

/-- A path adds nothing. -/
theorem addedAuthority_slash (t : List Char) : addedAuthority ('/' :: t) = [] :=
  addedAuthority_cons (by decide) (by decide) (by decide) t

/-- The colon is the only character before the port that means anything. -/
theorem plain_of_mem_hostPort (hhost : ∀ c ∈ host, isPlain c = true)
    (hdigits : ∀ c ∈ digits, c.isDigit = true) {c : Char} (hc : c ∈ host ++ ':' :: digits) :
    c = ':' ∨ isPlain c = true := by
  rcases List.mem_append.mp hc with hmem | hmem
  · exact Or.inr (hhost c hmem)
  · rcases List.mem_cons.mp hmem with rfl | hmem
    · exact Or.inl rfl
    · exact Or.inr (isPlain_of_isDigit (hdigits c hmem))

/-- Text behind the port counts from where it ends the authority on. -/
theorem parse_append_eq (hhost : ∀ c ∈ host, isPlain c = true)
    (hdigits : ∀ c ∈ digits, c.isDigit = true) (t : List Char) :
    parse parseHost ("http://".toList ++ host ++ ':' :: digits ++ t) =
      (parseAuthority parseHost (host ++ ':' :: digits ++ addedAuthority t)).map fun x =>
        ⟨splitUserinfo (host ++ ':' :: digits ++ addedAuthority t), x.1, x.2,
          (host ++ ':' :: digits ++ cleanEnd t).dropWhile fun c => !endsAuthority c⟩ := by
  have hplain : ∀ c ∈ host ++ ':' :: digits, isBlank c = false ∧ isTabOrNewline c = false ∧
      endsAuthority c = false := by
    intro c hc
    rcases plain_of_mem_hostPort hhost hdigits hc with rfl | hp
    · decide
    · simp only [isPlain, Bool.and_eq_true, Bool.not_eq_true'] at hp
      exact ⟨hp.1.1.1.1.1.1, hp.1.1.1.1.1.2, hp.1.1.1.1.2⟩
  have hscheme : ∀ c ∈ "http://".toList, isBlank c = false ∧ isTabOrNewline c = false := by
    have hall : ("http://".toList.all fun c => !isBlank c && !isTabOrNewline c) = true := by decide
    intro c hc
    simpa using List.all_eq_true.mp hall c hc
  have hbase : ∀ c ∈ "http://".toList ++ (host ++ ':' :: digits),
      isBlank c = false ∧ isTabOrNewline c = false := by
    intro c hc
    rcases List.mem_append.mp hc with hmem | hmem
    · exact hscheme c hmem
    · exact ⟨(hplain c hmem).1, (hplain c hmem).2.1⟩
  have hclean : clean ("http://".toList ++ host ++ ':' :: digits ++ t) =
      "http://".toList ++ (host ++ ':' :: digits) ++ cleanEnd t := by
    rw [List.append_assoc "http://".toList]
    apply clean_append
    · intro c hc
      exact (hbase c (List.mem_of_mem_head? hc)).1
    · simp
    · intro h
      exact (hbase _ (List.getLast_mem h)).1
    · exact fun c hc => (hbase c hc).2
  have hauthority : authority (host ++ ':' :: digits ++ cleanEnd t) =
      host ++ ':' :: digits ++ addedAuthority t := by
    apply List.takeWhile_append_of_pos
    intro c hc
    simp [(hplain c hc).2.2]
  unfold parse
  rw [hclean, List.append_assoc "http://".toList]
  have hstarts : "http://".toList.isPrefixOf
      ("http://".toList ++ (host ++ ':' :: digits ++ cleanEnd t)) = true := by
    rw [List.isPrefixOf_iff_prefix]
    exact List.prefix_append _ _
  have hdrop : ("http://".toList ++ (host ++ ':' :: digits ++ cleanEnd t)).drop 7 =
      host ++ ':' :: digits ++ cleanEnd t := rfl
  simp only [hstarts, if_true, hdrop, hauthority]

theorem parse_append (hhost : ∀ c ∈ host, isPlain c = true)
    (hdigits : ∀ c ∈ digits, c.isDigit = true) (t : List Char) :
    ((parse parseHost ("http://".toList ++ host ++ ':' :: digits ++ t)).map
        fun u => (u.host, u.port)) =
      parseAuthority parseHost (host ++ ':' :: digits ++ addedAuthority t) := by
  rw [parse_append_eq parseHost hhost hdigits, Option.map_map]
  cases parseAuthority parseHost (host ++ ':' :: digits ++ addedAuthority t) <;> rfl

/-- Without an `@` in what is added there is no user information. -/
theorem userinfo_of_parse_append (hhost : ∀ c ∈ host, isPlain c = true)
    (hdigits : ∀ c ∈ digits, c.isDigit = true) {t : List Char} (hat : '@' ∉ addedAuthority t)
    {u : Url η} (h : parse parseHost ("http://".toList ++ host ++ ':' :: digits ++ t) = some u) :
    u.userinfo = none := by
  have hnot : '@' ∉ host ++ ':' :: digits ++ addedAuthority t := by
    intro hmem
    rcases List.mem_append.mp hmem with hmem | hmem
    · exact absurd (plain_of_mem_hostPort hhost hdigits hmem) (by decide)
    · exact hat hmem
  rw [parse_append_eq parseHost hhost hdigits] at h
  obtain ⟨_, -, hu⟩ := Option.map_eq_some_iff.mp h
  rw [← hu]
  exact if_neg hnot

theorem parsePort_digits {s : List Char} (h : s ≠ []) :
    parsePort (some s) = if s.all Char.isDigit ∧ Nat.ofDigitChars 10 s 0 ≤ 65535 then
      some (Nat.ofDigitChars 10 s 0) else none := by
  cases s with
  | nil => exact absurd rfl h
  | cons c s => rfl

/-- The number that is written when more digits follow. -/
def extended (digits more : List Char) : ℕ := Nat.ofDigitChars 10 (digits ++ more) 0

/-- Without another colon or a bracket behind it, a colon ends the host. -/
theorem splitPort_colon (s : List Char) {t : List Char} (hcolon : ':' ∉ t) (hbracket : ']' ∉ t) :
    splitPort (s ++ ':' :: t) = (s, some t) := by
  have hmem : ':' ∈ s ++ ':' :: t := by simp
  rw [splitPort, afterLast_split _ hcolon, beforeLast_split _ hcolon, if_pos ⟨hmem, hbracket⟩]

/-- With one of them behind it, the colon stays in the host. -/
theorem splitPort_of_spoiled (s : List Char) {t : List Char} (h : ':' ∈ t ∨ ']' ∈ t) :
    ∃ t' port, splitPort (s ++ ':' :: t) = (s ++ ':' :: t', port) := by
  unfold splitPort
  split_ifs with hport
  · have hcolon : ':' ∈ t := by
      by_contra hcolon
      rw [afterLast_split _ hcolon] at hport
      exact hport.2 (h.resolve_left hcolon)
    obtain ⟨t₁, t₂, ht, hlast⟩ := exists_last hcolon
    have happ : s ++ ':' :: t = (s ++ ':' :: t₁) ++ ':' :: t₂ := by simp [ht]
    rw [happ, beforeLast_split _ hlast]
    exact ⟨t₁, _, rfl⟩
  · exact ⟨t, none, rfl⟩

/-- A colon behind plain characters is in no bracketed address. -/
theorem parseHostPort_of_colon (hhost : ∀ c ∈ host, isPlain c = true) {s t : List Char}
    {port : Option (List Char)} (hsplit : splitPort s = (host ++ ':' :: t, port)) :
    parseHostPort parseHost s = none := by
  have hhead : (host ++ ':' :: t).head? ≠ some '[' := by
    intro hbracket
    cases host with
    | nil => simp at hbracket
    | cons c host =>
      have hc : c = '[' := by simpa using hbracket
      have hplain := hhost c (by simp)
      rw [hc] at hplain
      exact absurd hplain (by decide)
  have hcolon : ':' ∈ host ++ ':' :: t := by simp
  rw [parseHostPort, hsplit]
  exact if_pos ⟨hcolon, hhead⟩

/-- Text behind the port either hides it behind an `@`, or extends its digits, or spoils them. -/
theorem parseAuthority_append {h : η} (hparse : parseHost host = some h)
    (hhost : ∀ c ∈ host, isPlain c = true) (hnonempty : digits ≠ [])
    (hdigits : ∀ c ∈ digits, c.isDigit = true) (a : List Char) :
    parseAuthority parseHost (host ++ ':' :: digits ++ a) =
      if '@' ∈ a then parseAuthority parseHost a
      else if a.all Char.isDigit ∧ extended digits a ≤ 65535 then some (h, extended digits a)
      else none := by
  have hnot : ∀ x : Char, isPlain x = false → x ∉ host := by
    intro x hx hmem
    rw [hhost x hmem] at hx
    exact absurd hx (by decide)
  have hnotDigit : ∀ x : Char, x.isDigit = false → x ∉ digits := by
    intro x hx hmem
    rw [hdigits x hmem] at hx
    exact absurd hx (by decide)
  by_cases hat : '@' ∈ a
  · rw [if_pos hat, parseAuthority, afterLast_append _ hat, parseAuthority]
  · have hat' : '@' ∉ host ++ ':' :: digits ++ a := by
      simp [hnot '@' (by decide), hnotDigit '@' (by decide), hat]
    have happ : host ++ ':' :: digits ++ a = host ++ ':' :: (digits ++ a) := by simp
    rw [if_neg hat, parseAuthority, afterLast_of_not_mem hat', happ]
    by_cases hspoiled : ':' ∈ digits ++ a ∨ ']' ∈ digits ++ a
    · have hbad : a.all Char.isDigit = false := by
        rw [List.all_eq_false]
        rcases hspoiled with hmem | hmem
        · exact ⟨':', (List.mem_append.mp hmem).resolve_left (hnotDigit ':' (by decide)), by decide⟩
        · exact ⟨']', (List.mem_append.mp hmem).resolve_left (hnotDigit ']' (by decide)), by decide⟩
      obtain ⟨t, port, hsplit⟩ := splitPort_of_spoiled host hspoiled
      rw [parseHostPort_of_colon parseHost hhost hsplit, hbad]
      simp
    · obtain ⟨hcolon, hbracket⟩ := not_or.mp hspoiled
      have hall : (digits ++ a).all Char.isDigit = a.all Char.isDigit := by
        rw [List.all_append, List.all_eq_true.mpr hdigits, Bool.true_and]
      have hport : parsePort (some (digits ++ a)) =
          if a.all Char.isDigit ∧ extended digits a ≤ 65535 then some (extended digits a)
          else none := by
        rw [parsePort_digits (by simp [hnonempty]), hall]
        rfl
      rw [parseHostPort, splitPort_colon host hcolon hbracket]
      simp only [hnot ':' (by decide), false_and, if_false, hparse, Option.bind_some, hport]
      split_ifs <;> rfl

end Url
