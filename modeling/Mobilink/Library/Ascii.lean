import Mathlib.Data.List.DropRight

/-! The parts of a string library that a text protocol needs: ASCII case folding, Unicode
whitespace, trimming and splitting, over lists of characters. -/
namespace Ascii

def toLowercase (s : List Char) : List Char := s.map Char.toLower

def eqIgnoreCase (a b : List Char) : Bool := toLowercase a == toLowercase b

/-- The characters with the Unicode property `White_Space`. -/
def isWhitespace (c : Char) : Bool :=
  (0x9 ≤ c.toNat && c.toNat ≤ 0xD) || c.toNat == 0x20 || c.toNat == 0x85 || c.toNat == 0xA0 ||
    c.toNat == 0x1680 || (0x2000 ≤ c.toNat && c.toNat ≤ 0x200A) || c.toNat == 0x2028 ||
    c.toNat == 0x2029 || c.toNat == 0x202F || c.toNat == 0x205F || c.toNat == 0x3000

def trim (s : List Char) : List Char := (s.dropWhile isWhitespace).rdropWhile isWhitespace

def trimEndMatches (c : Char) (s : List Char) : List Char := s.rdropWhile (· = c)

/-- The pieces between the separators; there is always at least one. -/
def split (sep : Char) (s : List Char) : List (List Char) := s.splitOn sep

/-- What stands before and after the first occurrence of `pat`. -/
def splitOnce (pat : List Char) : List Char → Option (List Char × List Char)
  | [] => if pat = [] then some ([], []) else none
  | c :: s =>
    if pat.isPrefixOf (c :: s) then some ([], (c :: s).drop pat.length)
    else (splitOnce pat s).map fun x => (c :: x.1, x.2)

/-! ### Trimming -/

def trimBy (p : Char → Bool) (s : List Char) : List Char := (s.dropWhile p).rdropWhile p

variable {p q : Char → Bool} {s : List Char}

theorem trimBy_append {l r : List Char} (hl : ∀ c ∈ l, p c = true) (hr : ∀ c ∈ r, p c = true) :
    trimBy p (l ++ s ++ r) = trimBy p s := by
  rw [trimBy, List.append_assoc, List.dropWhile_append_of_pos hl, List.dropWhile_append]
  split_ifs with hempty
  · rw [trimBy, List.isEmpty_iff.mp hempty, List.dropWhile_eq_nil_iff.mpr hr]
  · have hrev : ∀ c ∈ r.reverse, p c = true := fun c hc => hr c (List.mem_reverse.mp hc)
    rw [List.rdropWhile, List.reverse_append, List.dropWhile_append_of_pos hrev]
    rfl

/-- What is cut off at the ends. -/
theorem exists_trimBy (p : Char → Bool) (s : List Char) :
    ∃ l r, s = l ++ trimBy p s ++ r ∧ (∀ c ∈ l, p c = true) ∧ ∀ c ∈ r, p c = true := by
  refine ⟨s.takeWhile p, (s.dropWhile p).rtakeWhile p, ?_, fun c hc => List.mem_takeWhile_imp hc,
    fun c hc => List.mem_rtakeWhile_imp hc⟩
  rw [trimBy, List.append_assoc, List.rdropWhile_append_rtakeWhile, List.takeWhile_append_dropWhile]

@[simp] theorem trimBy_trimBy (p : Char → Bool) (s : List Char) :
    trimBy p (trimBy p s) = trimBy p s := by
  obtain ⟨l, r, hs, hl, hr⟩ := exists_trimBy p s
  conv_rhs => rw [hs]
  exact (trimBy_append hl hr).symm

theorem trimBy_cons {c : Char} (h : p c = true) (s : List Char) : trimBy p (c :: s) = trimBy p s := by
  rw [trimBy, List.dropWhile_cons_of_pos h, trimBy]

theorem mem_of_mem_trimBy {c : Char} (h : c ∈ trimBy p s) : c ∈ s := by
  obtain ⟨l, r, hs, -, -⟩ := exists_trimBy p s
  rw [hs]
  exact List.mem_append_left r (List.mem_append_right l h)

private theorem dropWhile_congr (h : ∀ c ∈ s, p c = q c) : s.dropWhile p = s.dropWhile q := by
  induction s with
  | nil => rfl
  | cons c s ih =>
    rw [List.dropWhile_cons, List.dropWhile_cons, h c List.mem_cons_self,
      ih fun d hd => h d (List.mem_cons_of_mem c hd)]

theorem trimBy_congr (h : ∀ c ∈ s, p c = q c) : trimBy p s = trimBy q s := by
  have hdrop : ∀ c ∈ (s.dropWhile q).reverse, p c = q c := fun c hc =>
    h c ((List.dropWhile_sublist q).subset (List.mem_reverse.mp hc))
  rw [trimBy, dropWhile_congr h, List.rdropWhile, dropWhile_congr hdrop]
  rfl

/-! ### Splitting -/

theorem mem_split {sep : Char} {piece : List Char} (h : piece ∈ split sep s) :
    ∀ c ∈ piece, c ∈ s ∧ c ≠ sep := by
  induction s generalizing piece with
  | nil =>
    rw [split, List.splitOn_nil, List.mem_singleton] at h
    rw [h]
    exact fun c hc => absurd hc List.not_mem_nil
  | cons d s ih =>
    obtain ⟨first, rest, hsplit⟩ := List.exists_cons_of_ne_nil (List.splitOn_ne_nil sep s)
    have hrest : ∀ piece ∈ first :: rest, ∀ c ∈ piece, c ∈ d :: s ∧ c ≠ sep := by
      intro piece hpiece c hc
      rw [← hsplit] at hpiece
      exact ⟨List.mem_cons_of_mem d (ih hpiece c hc).1, (ih hpiece c hc).2⟩
    rw [split, List.splitOn_cons_eq_if_modifyHead, hsplit] at h
    split_ifs at h with hd
    · rcases List.mem_cons.mp h with rfl | h
      · exact fun c hc => absurd hc List.not_mem_nil
      · exact hrest piece h
    · rcases List.mem_cons.mp h with rfl | h
      · intro c hc
        rcases List.mem_cons.mp hc with rfl | hc
        · exact ⟨List.mem_cons_self, by simpa using hd⟩
        · exact hrest first List.mem_cons_self c hc
      · exact hrest piece (List.mem_cons_of_mem first h)

theorem headD_split (sep : Char) (s : List Char) :
    (split sep s).headD [] = s.takeWhile (· ≠ sep) := by
  induction s with
  | nil => rfl
  | cons c s ih =>
    obtain ⟨first, rest, hsplit⟩ := List.exists_cons_of_ne_nil (List.splitOn_ne_nil sep s)
    rw [split, hsplit, List.headD_cons] at ih
    rw [split, List.splitOn_cons_eq_if_modifyHead, hsplit, List.takeWhile_cons]
    by_cases hc : c = sep
    · simp [hc]
    · simp [hc, ih]

end Ascii
