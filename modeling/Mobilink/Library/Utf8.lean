import Mathlib.Data.List.Infix
import Mobilink.Library.Ascii

/-! UTF-8 as bytes: character boundaries, searching from the end, and ASCII case folding, against the
characters that the bytes spell. -/
namespace Utf8

def encode (s : List Char) : List UInt8 := s.flatMap String.utf8EncodeChar

/-- The second, third or fourth byte of a character. -/
def isContinuation (b : UInt8) : Bool := 0x80 ≤ b && b < 0xC0

/-- `str::is_char_boundary`. -/
def isCharBoundary (bytes : List UInt8) (i : ℕ) : Bool :=
  i = 0 || i = bytes.length || (bytes[i]?).any fun b => !isContinuation b

/-- The last offset up to `i` at which `pat` stands. -/
def rfindUpTo (pat bytes : List UInt8) : ℕ → Option ℕ
  | 0 => if pat.isPrefixOf bytes then some 0 else none
  | i + 1 => if pat.isPrefixOf (bytes.drop (i + 1)) then some (i + 1) else rfindUpTo pat bytes i

/-- `str::rfind`: the offset of the last occurrence. -/
def rfind (pat bytes : List UInt8) : Option ℕ := rfindUpTo pat bytes bytes.length

def lowercaseByte (b : UInt8) : UInt8 := if 65 ≤ b ∧ b ≤ 90 then b + 32 else b

/-! ### Encoding -/

theorem toList_toByteArray (s : String) : s.toByteArray.data.toList = encode s.toList := by
  rw [← String.utf8Encode_toList, List.utf8Encode, List.toList_data_toByteArray]
  rfl

theorem encode_append (s t : List Char) : encode (s ++ t) = encode s ++ encode t :=
  List.flatMap_append

theorem encode_cons (c : Char) (s : List Char) :
    encode (c :: s) = String.utf8EncodeChar c ++ encode s := rfl

theorem utf8Encode_eq (s : List Char) : s.utf8Encode = (encode s).toByteArray := rfl

/-- Text is determined by its bytes, prefix by prefix. -/
theorem prefix_of_encode_prefix {s t : List Char} (h : encode s <+: encode t) : s <+: t := by
  obtain ⟨rest, hrest⟩ := h
  apply List.isPrefix_of_utf8Encode_append_eq_utf8Encode rest.toByteArray
  rw [utf8Encode_eq, utf8Encode_eq, ← hrest, List.toByteArray_append]

theorem encode_eq_nil_iff {s : List Char} : encode s = [] ↔ s = [] := by
  cases s with
  | nil => simp [encode]
  | cons c s => simp [encode_cons]

private theorem isContinuation_ofNat (n : ℕ) : isContinuation (UInt8.ofNat (n % 0x40 + 0x80)) = true := by
  have hn : (UInt8.ofNat (n % 0x40 + 0x80)).toNat = n % 0x40 + 0x80 := by
    rw [UInt8.toNat_ofNat']
    omega
  simp only [isContinuation, Bool.and_eq_true, decide_eq_true_eq, UInt8.le_iff_toNat_le,
    UInt8.lt_iff_toNat_lt, hn]
  constructor
  · change 128 ≤ _
    omega
  · change _ < 192
    omega

/-- What a character's bytes look like: one ASCII byte, or a leading byte and continuations. -/
theorem utf8EncodeChar_cases (c : Char) :
    (c.val.toNat < 0x80 ∧ String.utf8EncodeChar c = [UInt8.ofNat c.val.toNat]) ∨
    (0x80 ≤ c.val.toNat ∧ ∃ lead rest, String.utf8EncodeChar c = lead :: rest ∧
      0xC0 ≤ lead.toNat ∧ rest.all isContinuation = true) := by
  unfold String.utf8EncodeChar
  dsimp only
  split_ifs with h1 h2 h3
  · exact Or.inl ⟨by omega, rfl⟩
  · refine Or.inr ⟨by omega, _, _, rfl, ?_, ?_⟩
    · rw [UInt8.toNat_ofNat']
      omega
    · simp only [List.all_cons, List.all_nil, isContinuation_ofNat, Bool.and_self]
  · refine Or.inr ⟨by omega, _, _, rfl, ?_, ?_⟩
    · rw [UInt8.toNat_ofNat']
      omega
    · simp only [List.all_cons, List.all_nil, isContinuation_ofNat, Bool.and_self]
  · refine Or.inr ⟨by omega, _, _, rfl, ?_, ?_⟩
    · rw [UInt8.toNat_ofNat']
      omega
    · simp only [List.all_cons, List.all_nil, isContinuation_ofNat, Bool.and_self]

theorem toNat_ofNat {n : ℕ} (h : n < 128) : (Char.ofNat n).toNat = n := by
  rw [Char.ofNat, dif_pos (Or.inl (by omega))]
  rfl

/-- ASCII bytes spell themselves. -/
theorem encode_ascii (bytes : List UInt8) (h : ∀ b ∈ bytes, b.toNat < 128) :
    encode (bytes.map fun b => Char.ofNat b.toNat) = bytes := by
  induction bytes with
  | nil => rfl
  | cons b bytes ih =>
    have hb : b.toNat < 128 := h b (by simp)
    have hval : (Char.ofNat b.toNat).val.toNat = b.toNat := toNat_ofNat hb
    rw [List.map_cons, encode_cons, ih fun c hc => h c (by simp [hc])]
    rcases utf8EncodeChar_cases (Char.ofNat b.toNat) with ⟨-, he⟩ | ⟨hc, -⟩
    · rw [he, hval, UInt8.ofNat_toNat, List.singleton_append]
    · omega

/-- Only the first byte of a character is no continuation. -/
theorem isContinuation_getElem_utf8EncodeChar (c : Char) (i : ℕ) (b : UInt8)
    (h : (String.utf8EncodeChar c)[i]? = some b) : isContinuation b = true ↔ i ≠ 0 := by
  rcases utf8EncodeChar_cases c with ⟨hc, he⟩ | ⟨hc, lead, rest, he, hlead, hrest⟩
  · rw [he] at h
    cases i with
    | zero =>
      have hb : UInt8.ofNat c.val.toNat = b := Option.some.inj h
      have hn : b.toNat < 128 := by
        rw [← hb, UInt8.toNat_ofNat']
        omega
      have h128 : (0x80 : UInt8).toNat = 128 := rfl
      simp [isContinuation, UInt8.le_iff_toNat_le, h128]
      omega
    | succ i => simp at h
  · rw [he] at h
    cases i with
    | zero =>
      have hb : lead = b := Option.some.inj h
      have h192 : (0xC0 : UInt8).toNat = 192 := rfl
      simp [isContinuation, UInt8.lt_iff_toNat_lt, ← hb, h192]
      omega
    | succ i =>
      have hmem : b ∈ rest := List.mem_of_getElem? h
      simp [List.all_eq_true.mp hrest b hmem]

theorem head_utf8EncodeChar (c : Char) :
    ∃ b, (String.utf8EncodeChar c)[0]? = some b ∧ isContinuation b = false := by
  have hne : (String.utf8EncodeChar c)[0]? ≠ none := by simp [c.utf8Size_pos.ne']
  obtain ⟨b, hb⟩ := Option.ne_none_iff_exists'.mp hne
  refine ⟨b, hb, ?_⟩
  rw [Bool.eq_false_iff]
  exact fun hcont => (isContinuation_getElem_utf8EncodeChar c 0 b hb).mp hcont rfl

/-- At a character boundary the text splits. -/
theorem split_of_isCharBoundary {s : List Char} {i : ℕ}
    (h : isCharBoundary (encode s) i = true) :
    ∃ pre post, s = pre ++ post ∧ (encode pre).length = i := by
  induction s generalizing i with
  | nil =>
    have hi : i = 0 := by simpa [isCharBoundary, encode] using h
    exact ⟨[], [], rfl, hi.symm⟩
  | cons c s ih =>
    by_cases h0 : i = 0
    · exact ⟨[], c :: s, rfl, h0.symm⟩
    · -- Within the bytes of `c` there are continuations only, so the boundary is behind them.
      have hlen : (String.utf8EncodeChar c).length ≤ i := by
        by_contra hlt
        have hin : i < (String.utf8EncodeChar c).length := by omega
        have hget : (encode (c :: s))[i]? = some (String.utf8EncodeChar c)[i] := by
          rw [encode_cons, List.getElem?_append_left hin, List.getElem?_eq_getElem hin]
        have hcont := (isContinuation_getElem_utf8EncodeChar c i _
          (List.getElem?_eq_getElem hin)).mpr h0
        have hne : i ≠ (encode (c :: s)).length := by
          rw [encode_cons, List.length_append]
          omega
        simp [isCharBoundary, h0, hne, hget, hcont] at h
      have hrest : isCharBoundary (encode s) (i - (String.utf8EncodeChar c).length) = true := by
        unfold isCharBoundary at h ⊢
        rw [encode_cons, List.length_append, List.getElem?_append_right hlen] at h
        simp only [Bool.or_eq_true, decide_eq_true_eq] at h ⊢
        rcases h with (h | h) | h
        · exact absurd h h0
        · left; right; omega
        · right; exact h
      obtain ⟨pre, post, hs, hpre⟩ := ih hrest
      refine ⟨c :: pre, post, by rw [hs, List.cons_append], ?_⟩
      rw [encode_cons, List.length_append, hpre]
      omega

/-- Wherever a text splits there is a character boundary. -/
theorem isCharBoundary_append (pre post : List Char) :
    isCharBoundary (encode (pre ++ post)) (encode pre).length = true := by
  unfold isCharBoundary
  rw [encode_append]
  cases post with
  | nil => simp [encode]
  | cons c post =>
    have hget : (encode pre ++ encode (c :: post))[(encode pre).length]? =
        (String.utf8EncodeChar c)[0]? := by
      rw [List.getElem?_append_right le_rfl, Nat.sub_self, encode_cons,
        List.getElem?_append_left (by simp [c.utf8Size_pos])]
    obtain ⟨b, hb, hstart⟩ := head_utf8EncodeChar c
    rw [hget, hb]
    simp [hstart]

/-- A text that occurs among the bytes of another one occurs in it as a text. -/
theorem split_of_prefix_drop {pat s : List Char} (hpat : pat ≠ []) {i : ℕ}
    (h : encode pat <+: (encode s).drop i) :
    ∃ pre post, s = pre ++ post ∧ (encode pre).length = i ∧ pat <+: post := by
  have hboundary : isCharBoundary (encode s) i = true := by
    obtain ⟨c, pat', rfl⟩ := List.exists_cons_of_ne_nil hpat
    obtain ⟨rest, hrest⟩ := h
    have hhead : (encode s)[i]? = (encode (c :: pat'))[0]? := by
      have hne : encode (c :: pat') ≠ [] := by simp [encode_eq_nil_iff]
      rw [← Nat.add_zero i, ← List.getElem?_drop, ← hrest,
        List.getElem?_append_left (List.length_pos_of_ne_nil hne)]
    have hfirst : (encode (c :: pat'))[0]? = (String.utf8EncodeChar c)[0]? := by
      rw [encode_cons, List.getElem?_append_left (by simp [c.utf8Size_pos])]
    obtain ⟨b, hb, hstart⟩ := head_utf8EncodeChar c
    rw [isCharBoundary, hhead, hfirst, hb]
    simp [hstart]
  obtain ⟨pre, post, hs, hi⟩ := split_of_isCharBoundary hboundary
  refine ⟨pre, post, hs, hi, ?_⟩
  rw [hs, encode_append, ← hi, List.drop_left] at h
  exact prefix_of_encode_prefix h

/-! ### Case folding -/

theorem toNat_val_toLower (c : Char) :
    c.toLower.val.toNat = if 65 ≤ c.val.toNat ∧ c.val.toNat ≤ 90 then c.val.toNat + 32
      else c.val.toNat := by
  have hA : 'A'.val.toNat = 65 := rfl
  have hZ : 'Z'.val.toNat = 90 := rfl
  have hstep : ('a'.val - 'A'.val).toNat = 32 := rfl
  unfold Char.toLower
  simp only [ge_iff_le, UInt32.le_iff_toNat_le, hA, hZ]
  split_ifs with h
  · change (c.val + ('a'.val - 'A'.val)).toNat = _
    rw [UInt32.toNat_add, hstep]
    omega
  · rfl

theorem utf8EncodeChar_toLower (c : Char) :
    String.utf8EncodeChar c.toLower = (String.utf8EncodeChar c).map lowercaseByte := by
  have hval := toNat_val_toLower c
  have hA : (65 : UInt8).toNat = 65 := rfl
  have hZ : (90 : UInt8).toNat = 90 := rfl
  have hstep : (32 : UInt8).toNat = 32 := rfl
  rcases utf8EncodeChar_cases c with ⟨hc, he⟩ | ⟨hc, lead, rest, he, hlead, hrest⟩
  · have hlower : c.toLower.val.toNat < 0x80 := by
      split_ifs at hval <;> omega
    rcases utf8EncodeChar_cases c.toLower with ⟨-, he'⟩ | ⟨hc', -⟩
    · have hn : (UInt8.ofNat c.val.toNat).toNat = c.val.toNat := by
        rw [UInt8.toNat_ofNat']
        omega
      rw [he, he', List.map_singleton, hval]
      congr 1
      apply UInt8.toNat_inj.mp
      unfold lowercaseByte
      simp only [UInt8.le_iff_toNat_le, hn, hA, hZ]
      split_ifs with h
      · rw [UInt8.toNat_add, hn, hstep, UInt8.toNat_ofNat']
      · exact rfl
    · omega
  · -- No byte of a longer character is a letter.
    have hsame : c.toLower = c := by
      apply Char.ext
      apply UInt32.toNat_inj.mp
      rw [hval, if_neg (by omega)]
    have hmap : ∀ b ∈ lead :: rest, lowercaseByte b = b := by
      intro b hb
      apply if_neg
      rw [UInt8.le_iff_toNat_le, UInt8.le_iff_toNat_le, hA, hZ]
      rcases List.mem_cons.mp hb with rfl | hb
      · omega
      · have hcont := List.all_eq_true.mp hrest b hb
        have h128 : (0x80 : UInt8).toNat = 128 := rfl
        simp only [isContinuation, Bool.and_eq_true, decide_eq_true_eq, UInt8.le_iff_toNat_le,
          h128] at hcont
        omega
    rw [hsame, he, List.map_congr_left hmap, List.map_id']

/-- Folding the bytes folds the text, and keeps every offset. -/
theorem encode_toLowercase (s : List Char) :
    encode (Ascii.toLowercase s) = (encode s).map lowercaseByte := by
  induction s with
  | nil => rfl
  | cons c s ih =>
    rw [Ascii.toLowercase, List.map_cons, encode_cons, encode_cons, List.map_append,
      utf8EncodeChar_toLower]
    congr 1

theorem length_encode_toLowercase (s : List Char) :
    (encode (Ascii.toLowercase s)).length = (encode s).length := by
  rw [encode_toLowercase, List.length_map]

/-! ### Searching from the end -/

theorem rfindUpTo_eq_some {pat bytes : List UInt8} {n i : ℕ} (h : rfindUpTo pat bytes n = some i) :
    pat <+: bytes.drop i ∧ ∀ j, i < j → j ≤ n → ¬ pat <+: bytes.drop j := by
  induction n with
  | zero =>
    rw [rfindUpTo] at h
    split_ifs at h with hpat
    have hi : 0 = i := Option.some.inj h
    subst hi
    exact ⟨List.isPrefixOf_iff_prefix.mp hpat, fun j h0 hj => by omega⟩
  | succ n ih =>
    rw [rfindUpTo] at h
    split_ifs at h with hpat
    · have hi : n + 1 = i := Option.some.inj h
      subst hi
      exact ⟨List.isPrefixOf_iff_prefix.mp hpat, fun j h0 hj => by omega⟩
    · obtain ⟨hstands, hlater⟩ := ih h
      refine ⟨hstands, ?_⟩
      intro j hij hj hpre
      by_cases hlast : j = n + 1
      · exact hpat (List.isPrefixOf_iff_prefix.mpr (hlast ▸ hpre))
      · exact hlater j hij (by omega) hpre

theorem rfindUpTo_eq_none {pat bytes : List UInt8} {n : ℕ} (h : rfindUpTo pat bytes n = none) :
    ∀ j ≤ n, ¬ pat <+: bytes.drop j := by
  induction n with
  | zero =>
    rw [rfindUpTo] at h
    split_ifs at h with hpat
    intro j hj hpre
    have h0 : j = 0 := by omega
    rw [h0, List.drop_zero] at hpre
    exact hpat (List.isPrefixOf_iff_prefix.mpr hpre)
  | succ n ih =>
    rw [rfindUpTo] at h
    split_ifs at h with hpat
    intro j hj hpre
    by_cases hlast : j = n + 1
    · exact hpat (List.isPrefixOf_iff_prefix.mpr (hlast ▸ hpre))
    · exact ih h j (by omega) hpre

/-- A text can be cut in front of its last occurrence of another one. -/
theorem split_of_rfind {pat s : List Char} (hpat : pat ≠ []) {i : ℕ}
    (h : rfind (encode pat) (encode s) = some i) :
    ∃ pre post, s = pre ++ post ∧ (encode pre).length = i ∧ pat <+: post ∧
      ∀ pre' post', s = pre' ++ post' → pat <+: post' → pre'.length ≤ pre.length := by
  obtain ⟨hstands, hlater⟩ := rfindUpTo_eq_some h
  obtain ⟨pre, post, hs, hi, hpost⟩ := split_of_prefix_drop hpat hstands
  refine ⟨pre, post, hs, hi, hpost, ?_⟩
  intro pre' post' hs' hpost'
  by_contra hlt
  have hpre : pre <+: pre' := by
    have hleft : pre <+: s := ⟨post, hs.symm⟩
    have hleft' : pre' <+: s := ⟨post', hs'.symm⟩
    exact List.prefix_of_prefix_length_le hleft hleft' (by omega)
  obtain ⟨mid, hmid⟩ := hpre
  have hmidne : mid ≠ [] := by
    intro hnil
    rw [hnil, List.append_nil] at hmid
    rw [hmid] at hlt
    omega
  have hlen : i < (encode pre').length := by
    have hpos := List.length_pos_of_ne_nil (fun hnil => hmidne (encode_eq_nil_iff.mp hnil))
    rw [← hmid, encode_append, List.length_append, hi]
    omega
  refine hlater (encode pre').length hlen ?_ ?_
  · rw [hs', encode_append, List.length_append]
    omega
  · rw [hs', encode_append, List.drop_left]
    obtain ⟨rest, hrest⟩ := hpost'
    rw [← hrest, encode_append]
    exact List.prefix_append _ _

theorem not_prefix_of_rfind {pat s : List Char} (h : rfind (encode pat) (encode s) = none)
    {pre post : List Char} (hs : s = pre ++ post) : ¬ pat <+: post := by
  intro hpost
  refine rfindUpTo_eq_none h (encode pre).length ?_ ?_
  · rw [hs, encode_append, List.length_append]
    omega
  · rw [hs, encode_append, List.drop_left]
    obtain ⟨rest, hrest⟩ := hpost
    rw [← hrest, encode_append]
    exact List.prefix_append _ _

end Utf8
