import Mathlib.Algebra.Ring.Nat
import Mobilink.Library.Utf8

/-! Header lines as an HTTP library represents them: lowercase token names, values without control
characters, and a map that lists its lines in its own iteration order. -/
namespace Header

/-- The characters of a token, in lowercase. -/
def isNameChar (c : Char) : Bool :=
  c.isLower || c.isDigit || c.toNat == 0x60 || c.toNat == 0x27 || "!#$%&*+-.^_|~".toList.contains c

def isTokenChar (c : Char) : Bool := isNameChar c.toLower

structure Name where
  text : String
  valid : text ≠ "" ∧ text.utf8ByteSize < 2 ^ 16 ∧ text.toList.all isNameChar = true
  deriving DecidableEq

/-- Names are folded to lowercase. -/
def Name.ofString? (s : String) : Option Name :=
  let text := String.ofList (Ascii.toLowercase s.toList)
  if h : text ≠ "" ∧ text.utf8ByteSize < 2 ^ 16 ∧ text.toList.all isNameChar = true then
    some ⟨text, h⟩
  else none

/-- A space or a tab. -/
def isBlank (c : Char) : Bool := c == ' ' || c == '\t'

def Name.allowOrigin : Name := ⟨"access-control-allow-origin", by decide⟩
def Name.allowCredentials : Name := ⟨"access-control-allow-credentials", by decide⟩
def Name.allowMethods : Name := ⟨"access-control-allow-methods", by decide⟩
def Name.allowHeaders : Name := ⟨"access-control-allow-headers", by decide⟩
def Name.maxAge : Name := ⟨"access-control-max-age", by decide⟩
def Name.vary : Name := ⟨"vary", by decide⟩

def isValueByte (b : UInt8) : Bool := (32 ≤ b && b ≠ 127) || b == 9

def isVisibleAscii (b : UInt8) : Bool := (32 ≤ b && b < 127) || b == 9

structure Value where
  bytes : List UInt8
  valid : bytes.all isValueByte = true
  deriving DecidableEq

/-- The value as text, if every byte is visible ASCII, a space or a tab. -/
def Value.toStr (v : Value) : Option String :=
  if v.bytes.all isVisibleAscii then
    some (String.ofList (v.bytes.map fun b => Char.ofNat b.toNat))
  else none

/-- Every byte of the value is visible ASCII, a space or a tab. -/
def Value.isReadable (v : Value) : Bool := v.bytes.all isVisibleAscii

def Value.ofString? (s : String) : Option Value :=
  if h : s.toByteArray.data.toList.all isValueByte = true then some ⟨s.toByteArray.data.toList, h⟩
  else none

/-- `HeaderValue::from_static`. -/
def Value.fromStatic (s : String) (h : s.toByteArray.data.toList.all isValueByte = true) : Value :=
  ⟨s.toByteArray.data.toList, h⟩

/-- A line of a map from its name and its value as text, if both are valid. -/
def line? (line : String × String) : Option (Name × Value) := do
  let name ← Name.ofString? line.1
  let value ← Value.ofString? line.2
  some (name, value)

/-- The octets of a value, one character each. -/
def Value.octets (v : Value) : List Char := v.bytes.map fun b => Char.ofNat b.toNat

/-- The members of a comma-separated list, without blanks around them. -/
def members (s : List Char) : List (List Char) :=
  ((Ascii.split ',' s).map fun part =>
    (part.dropWhile isBlank).rdropWhile isBlank).filter (· ≠ [])

/-- The octets that a text has in UTF-8. -/
def octets (s : String) : List Char := s.toByteArray.data.toList.map fun b => Char.ofNat b.toNat

abbrev Map := List (Name × Value)

namespace Map

/-- The first value of a name, given in lowercase. -/
def get (m : Map) (name : String) : Option Value :=
  (m.find? fun line => line.1.text == name).map Prod.snd

/-- All values of a name, in order. -/
def getAll (m : Map) (name : Name) : List Value :=
  (m.filter fun line => line.1 = name).map Prod.snd

/-- The value takes the place of all values that the name had. -/
def insert : Map → Name → Value → Map
  | [], name, value => [(name, value)]
  | line :: m, name, value =>
    if line.1 = name then (name, value) :: m.filter fun l => l.1 ≠ name
    else line :: insert m name value

/-- The value comes behind the last one that the name has. -/
def append : Map → Name → Value → Map
  | [], name, value => [(name, value)]
  | line :: m, name, value =>
    if line.1 = name ∧ name ∉ m.map Prod.fst then line :: (name, value) :: m
    else line :: append m name value

/-- The lines of a name stand together, as a map lists them. -/
def Grouped (m : Map) : Prop := ∀ a b c, [a, b, c].Sublist m → a.1 = c.1 → b.1 = a.1

@[simp] theorem getAll_nil (name : Name) : getAll [] name = [] := rfl

theorem getAll_cons (line : Name × Value) (m : Map) (name : Name) :
    getAll (line :: m) name = if line.1 = name then line.2 :: getAll m name else getAll m name := by
  unfold getAll
  by_cases h : line.1 = name <;> simp [h]

theorem getAll_filter_ne {name other : Name} (h : other ≠ name) (m : Map) :
    getAll (m.filter fun l => l.1 ≠ name) other = getAll m other := by
  unfold getAll
  rw [List.filter_filter]
  congr 2
  funext line
  by_cases hline : line.1 = other
  · simp [hline, h]
  · simp [hline]

@[simp] theorem getAll_insert_self (m : Map) (name : Name) (value : Value) :
    getAll (m.insert name value) name = [value] := by
  induction m with
  | nil => simp [insert, getAll_cons]
  | cons line m ih =>
    rw [insert]
    split_ifs with h
    · have hrest : getAll (m.filter fun l => l.1 ≠ name) name = [] := by
        simp [getAll, List.filter_filter]
      rw [getAll_cons, if_pos rfl, hrest]
    · rw [getAll_cons, if_neg h, ih]

theorem getAll_insert_of_ne {name other : Name} (h : other ≠ name) (m : Map) (value : Value) :
    getAll (m.insert name value) other = getAll m other := by
  induction m with
  | nil => simp [insert, getAll_cons, h.symm]
  | cons line m ih =>
    rw [insert]
    split_ifs with hline
    · rw [getAll_cons, if_neg h.symm, getAll_filter_ne h, getAll_cons, if_neg (hline ▸ h.symm)]
    · rw [getAll_cons, getAll_cons, ih]

theorem getAll_insert (m : Map) (name other : Name) (value : Value) :
    getAll (m.insert name value) other = if name = other then [value] else getAll m other := by
  split_ifs with h
  · rw [← h, getAll_insert_self]
  · exact getAll_insert_of_ne (fun he => h he.symm) m value

theorem getAll_eq_nil_of_not_mem {m : Map} {name : Name} (h : name ∉ m.map Prod.fst) :
    getAll m name = [] := by
  rw [getAll, List.map_eq_nil_iff, List.filter_eq_nil_iff]
  intro line hline
  have hne : line.1 ≠ name := fun he => h (he ▸ List.mem_map_of_mem hline)
  simpa using hne

theorem getAll_append (m : Map) (name other : Name) (value : Value) :
    getAll (m.append name value) other = if name = other then getAll m other ++ [value]
      else getAll m other := by
  induction m with
  | nil => by_cases h : name = other <;> simp [append, getAll_cons, h]
  | cons line m ih =>
    rw [append]
    split_ifs with hlast hother hother
    · have hrest := getAll_eq_nil_of_not_mem hlast.2
      rw [← hother]
      simp [getAll_cons, hlast.1, hrest]
    · simp [getAll_cons, hother]
    · rw [getAll_cons, getAll_cons, ih, if_pos hother]
      split_ifs <;> rfl
    · rw [getAll_cons, getAll_cons, ih, if_neg hother]

/-- A map that is built line by line lists for each name the values in the order of the lines. -/
theorem getAll_foldl_append (lines m : Map) (name : Name) :
    getAll (lines.foldl (fun m line => m.append line.1 line.2) m) name =
      getAll m name ++ getAll lines name := by
  induction lines generalizing m with
  | nil => simp
  | cons line lines ih =>
    rw [List.foldl_cons, ih, getAll_append, getAll_cons]
    by_cases h : line.1 = name <;> simp [h]

theorem mem_getAll {m : Map} {name : Name} {value : Value} :
    value ∈ getAll m name ↔ (name, value) ∈ m := by
  simp [getAll]

/-- Of a filtered map, a name that stays has the values that stay. -/
theorem getAll_filter (m : Map) (keepsName : Name → Bool) (keepsValue : Value → Bool) {name : Name}
    (h : keepsName name = true) :
    getAll (m.filter fun line => keepsName line.1 && keepsValue line.2) name =
      (getAll m name).filter keepsValue := by
  induction m with
  | nil => rfl
  | cons line m ih =>
    rw [List.filter_cons, getAll_cons]
    by_cases hname : line.1 = name
    · rw [if_pos hname, hname, h, Bool.true_and, List.filter_cons, ← ih]
      split_ifs with hvalue
      · rw [getAll_cons, if_pos hname]
      · rfl
    · rw [if_neg hname, ← ih]
      split_ifs
      · rw [getAll_cons, if_neg hname]
      · rfl

theorem Grouped.sublist {m m' : Map} (h : Grouped m) (hm : m'.Sublist m) : Grouped m' :=
  fun a b c habc => h a b c (habc.trans hm)

/-- A line of another name can follow. -/
theorem Grouped.concat {m : Map} (h : Grouped m) {line : Name × Value}
    (hline : line.1 ∉ m.map Prod.fst) : Grouped (m ++ [line]) := by
  intro a b c habc hac
  obtain ⟨front, back, heq, hfront, hback⟩ := List.sublist_append_iff.mp habc
  rcases List.sublist_singleton.mp hback with hnil | hlast
  · rw [hnil, List.append_nil] at heq
    exact h a b c (heq ▸ hfront) hac
  · rw [hlast] at heq
    have hsplit : [a, b] ++ [c] = front ++ [line] := heq
    obtain ⟨hfirst, hc⟩ := List.append_inj' hsplit rfl
    have ha : a ∈ m := hfront.subset (hfirst ▸ by simp)
    rw [← List.singleton_inj.mp hc, ← hac] at hline
    exact absurd (List.mem_map_of_mem ha) hline

theorem append_of_grouped {m : Map} {line : Name × Value} (h : Grouped (m ++ [line])) :
    m.append line.1 line.2 = m ++ [line] := by
  induction m with
  | nil => rfl
  | cons first m ih =>
    rw [append]
    split_ifs with hlast
    · cases m with
      | nil => rfl
      | cons second m =>
        have hsecond := h first second line (by simp) hlast.1
        rw [hlast.1] at hsecond
        exact absurd (by simp [hsecond]) hlast.2
    · rw [ih (h.sublist (List.sublist_cons_self _ _)), List.cons_append]

/-- A map that is built of its own lines is the same map. -/
theorem foldl_append_of_grouped {lines : Map} (h : Grouped lines) :
    lines.foldl (fun (m : Map) line => m.append line.1 line.2) [] = lines := by
  induction lines using List.reverseRecOn with
  | nil => rfl
  | append_singleton lines line ih =>
    rw [List.foldl_concat, ih (h.sublist (List.sublist_append_left _ _)), append_of_grouped h]

end Map

/-! ### Names -/

theorem toLower_of_isNameChar {c : Char} (h : isNameChar c = true) : c.toLower = c := by
  have hlist : ∀ x ∈ "!#$%&*+-.^_|~".toList, x.val.toNat < 65 ∨ 90 < x.val.toNat := by
    have hall : ("!#$%&*+-.^_|~".toList.all fun x =>
        decide (x.val.toNat < 65 ∨ 90 < x.val.toNat)) = true := by decide
    intro x hx
    simpa using List.all_eq_true.mp hall x hx
  have hcases : c.val.toNat < 65 ∨ 90 < c.val.toNat := by
    simp only [isNameChar, Bool.or_eq_true, List.contains_iff_mem] at h
    rcases h with (((h | h) | h) | h) | h
    · change (decide ('a'.val ≤ c.val) && decide (c.val ≤ 'z'.val)) = true at h
      simp only [Bool.and_eq_true, decide_eq_true_eq, UInt32.le_iff_toNat_le] at h
      have ha : 'a'.val.toNat = 97 := rfl
      omega
    · simp only [Char.isDigit, Bool.and_eq_true, decide_eq_true_eq, ge_iff_le,
        UInt32.le_iff_toNat_le] at h
      have h9 : '9'.val.toNat = 57 := rfl
      omega
    · have hc : c.val.toNat = 0x60 := by simpa using h
      omega
    · have hc : c.val.toNat = 0x27 := by simpa using h
      omega
    · exact hlist c h
  apply Char.ext
  apply UInt32.toNat_inj.mp
  rw [Utf8.toNat_val_toLower, if_neg (by omega)]

theorem ne_of_isNameChar {c d : Char} (hc : isNameChar c = true) (hd : isNameChar d = false) :
    c ≠ d := by
  intro he
  rw [he, hd] at hc
  exact absurd hc (by simp)

theorem Name.toLowercase_text (n : Name) : Ascii.toLowercase n.text.toList = n.text.toList := by
  have hchars := List.all_eq_true.mp n.valid.2.2
  rw [Ascii.toLowercase, List.map_congr_left fun c hc => toLower_of_isNameChar (hchars c hc)]
  exact List.map_id' _

theorem Name.ofString?_text (n : Name) : Name.ofString? n.text = some n := by
  have htext : String.ofList (Ascii.toLowercase n.text.toList) = n.text := by
    rw [n.toLowercase_text, String.ofList_toList]
  unfold Name.ofString?
  simp only [htext]
  rw [dif_pos n.valid]

theorem Name.ofString?_eq_some_iff {s : String} {n : Name} :
    Name.ofString? s = some n ↔ Ascii.eqIgnoreCase s.toList n.text.toList = true := by
  rw [Ascii.eqIgnoreCase, beq_iff_eq, n.toLowercase_text]
  constructor
  · intro h
    unfold Name.ofString? at h
    dsimp only at h
    split_ifs at h
    have hn : _ = n := Option.some.inj h
    rw [← hn, String.toList_ofList]
  · intro h
    rw [← n.ofString?_text]
    unfold Name.ofString?
    rw [h, n.toLowercase_text]

/-- The text of a name is its own lowercase. -/
theorem Name.eqIgnoreCase_text_iff (n : Name) {s : String}
    (hs : Ascii.toLowercase s.toList = s.toList) :
    Ascii.eqIgnoreCase n.text.toList s.toList = true ↔ n.text = s := by
  rw [Ascii.eqIgnoreCase, beq_iff_eq, n.toLowercase_text, hs]
  exact String.toList_inj

/-! ### Values -/

theorem Value.toStr_eq_some_iff {v : Value} {s : String} :
    v.toStr = some s ↔ v.bytes.all isVisibleAscii = true ∧ String.ofList v.octets = s := by
  unfold toStr
  split_ifs with hv <;> simp [hv, octets]

theorem Value.isReadable_eq (v : Value) : v.isReadable = v.toStr.isSome := by
  unfold toStr isReadable
  split_ifs with hv <;> simp [hv]

theorem toNat_lt_of_isVisibleAscii {b : UInt8} (h : isVisibleAscii b = true) : b.toNat < 128 := by
  simp only [isVisibleAscii, Bool.or_eq_true, Bool.and_eq_true, decide_eq_true_eq, beq_iff_eq,
    UInt8.lt_iff_toNat_lt] at h
  rcases h with ⟨-, hlt⟩ | heq
  · have h127 : (127 : UInt8).toNat = 127 := rfl
    omega
  · rw [heq]
    decide

/-- The text of a readable value has the value's own bytes. -/
theorem Value.toByteArray_toStr {v : Value} {s : String} (h : v.toStr = some s) :
    s.toByteArray.data.toList = v.bytes := by
  obtain ⟨hv, hs⟩ := toStr_eq_some_iff.mp h
  rw [← hs, Utf8.toList_toByteArray, String.toList_ofList]
  exact Utf8.encode_ascii v.bytes fun b hb =>
    toNat_lt_of_isVisibleAscii (List.all_eq_true.mp hv b hb)

/-- Readable text has one byte for each byte of the value. -/
theorem Value.utf8ByteSize_toStr {v : Value} {s : String} (h : v.toStr = some s) :
    s.utf8ByteSize = v.bytes.length := by
  rw [← toByteArray_toStr h, Array.length_toList]
  rfl

theorem Value.ofString?_eq_some_iff {s : String} {v : Value} :
    Value.ofString? s = some v ↔ s.toByteArray.data.toList = v.bytes := by
  unfold Value.ofString?
  constructor
  · intro h
    split_ifs at h
    have hv : _ = v := Option.some.inj h
    rw [← hv]
  · intro h
    have hvalid : s.toByteArray.data.toList.all isValueByte = true := h ▸ v.valid
    rw [dif_pos hvalid]
    congr 1
    cases v
    congr 1

/-- What is read of a value can be sent again. -/
theorem Value.ofString?_of_toStr {v : Value} {s : String} (h : v.toStr = some s) :
    Value.ofString? s = some v := ofString?_eq_some_iff.mpr (toByteArray_toStr h)

theorem line?_eq_some_iff {line : String × String} {name : Name} {value : Value} :
    line? line = some (name, value) ↔
      Name.ofString? line.1 = some name ∧ Value.ofString? line.2 = some value := by
  simp [line?, Option.bind_eq_some_iff]

/-- What is read of a line can be sent again. -/
theorem line?_text (name : Name) {value : Value} {s : String} (h : value.toStr = some s) :
    line? (name.text, s) = some (name, value) :=
  line?_eq_some_iff.mpr ⟨name.ofString?_text, Value.ofString?_of_toStr h⟩

theorem Value.octets_of_ofString? {s : String} {v : Value} (h : Value.ofString? s = some v) :
    v.octets = Header.octets s := by
  rw [Value.octets, Header.octets, ofString?_eq_some_iff.mp h]

/-! ### Comma-separated lists -/

/-- A list of tokens that is written with commas is read back. -/
theorem members_intercalate {names : List (List Char)} (hne : names ≠ [])
    (h : ∀ n ∈ names, n ≠ [] ∧ ∀ c ∈ n, c ≠ ',' ∧ isBlank c = false) :
    members ([','].intercalate names) = names := by
  have hcomma : ∀ n ∈ names, ',' ∉ n := fun n hn hc => ((h n hn).2 ',' hc).1 rfl
  have htrim : ∀ n ∈ names, (n.dropWhile isBlank).rdropWhile isBlank = n := by
    intro n hn
    have hblank := (h n hn).2
    have hleft : n.dropWhile isBlank = n := by
      rw [List.dropWhile_eq_self_iff]
      intro hlen
      simp [hblank _ (List.getElem_mem hlen)]
    rw [hleft, List.rdropWhile_eq_self_iff]
    intro hnonempty
    simp [hblank _ (List.getLast_mem hnonempty)]
  rw [members, Ascii.split, List.splitOn_intercalate ',' hcomma hne, List.map_congr_left htrim,
    List.map_id', List.filter_eq_self]
  intro n hn
  simpa using (h n hn).1

end Header
