import Mobilink.Library.Header

/-! How a browser reads the value of a `Set-Cookie` line: a name and a value, then attributes. -/
namespace Cookie
open Header (isBlank)

/-- A name and a value. -/
abbrev Attribute := List Char × List Char

def strip (s : List Char) : List Char := Ascii.trimBy isBlank s

/-- The name ends at the first `=`. Without one it is the whole text, and the value is empty. -/
def readAttribute (s : List Char) : Attribute :=
  (strip (s.takeWhile (· ≠ '=')), strip ((s.dropWhile (· ≠ '=')).drop 1))

/-- A text without `=`, or without a name in front of it, sets no cookie. -/
def pair (s : List Char) : Option Attribute :=
  if '=' ∈ s ∧ (readAttribute s).1 ≠ [] then some (readAttribute s) else none

structure SetCookie where
  pair : Option Attribute
  /-- In the order of the text, with repetitions. -/
  attributes : List Attribute
  deriving DecidableEq

/-- A piece of nothing but blanks is no attribute. -/
def parse (s : List Char) : SetCookie :=
  let pieces := Ascii.split ';' s
  ⟨pair (pieces.headD []), (pieces.tail.filter fun piece => strip piece ≠ []).map readAttribute⟩

/-- Letter case makes no difference to an attribute's name. -/
def isNamed (name : String) (a : Attribute) : Bool := Ascii.eqIgnoreCase a.1 name.toList

/-! ### Blanks at the ends make no difference -/

theorem strip_append {l s r : List Char} (hl : ∀ c ∈ l, isBlank c = true)
    (hr : ∀ c ∈ r, isBlank c = true) : strip (l ++ s ++ r) = strip s := Ascii.trimBy_append hl hr

theorem readAttribute_of_mem {t u : List Char} (ht : '=' ∉ t) :
    readAttribute (t ++ '=' :: u) = (strip t, strip u) := by
  have hne : ∀ c ∈ t, decide (c ≠ '=') = true := by
    intro c hc
    exact decide_eq_true fun he => ht (he ▸ hc)
  rw [readAttribute, List.takeWhile_append_of_pos hne, List.dropWhile_append_of_pos hne]
  simp

theorem readAttribute_of_notMem {s : List Char} (hs : '=' ∉ s) :
    readAttribute s = (strip s, []) := by
  have hne : ∀ c ∈ s, decide (c ≠ '=') = true := by
    intro c hc
    exact decide_eq_true fun he => hs (he ▸ hc)
  rw [readAttribute, List.takeWhile_eq_self_iff.mpr hne, List.dropWhile_eq_nil_iff.mpr hne]
  rfl

theorem equals_notMem_of_blank {l : List Char} (h : ∀ c ∈ l, isBlank c = true) : '=' ∉ l :=
  fun hc => absurd (h '=' hc) (by decide)

theorem readAttribute_append {l s r : List Char} (hl : ∀ c ∈ l, isBlank c = true)
    (hr : ∀ c ∈ r, isBlank c = true) : readAttribute (l ++ s ++ r) = readAttribute s := by
  have hnil : ∀ c ∈ ([] : List Char), isBlank c = true := by simp
  have hll := equals_notMem_of_blank hl
  by_cases hs : '=' ∈ s
  · obtain ⟨t, u, rfl, ht⟩ := List.eq_append_cons_of_mem hs
    have hname : strip (l ++ t) = strip t := by
      simpa using strip_append (s := t) hl hnil
    have hvalue : strip (u ++ r) = strip u := by
      simpa using strip_append (s := u) hnil hr
    have hsame : l ++ (t ++ '=' :: u) ++ r = (l ++ t) ++ '=' :: (u ++ r) := by simp
    rw [hsame, readAttribute_of_mem (by simp [hll, ht]), readAttribute_of_mem ht, hname, hvalue]
  · -- Without `=` the blanks behind belong to the name as well.
    have hrr := equals_notMem_of_blank hr
    rw [readAttribute_of_notMem (by simp [hll, hs, hrr]), readAttribute_of_notMem hs,
      strip_append hl hr]

@[simp] theorem readAttribute_strip (s : List Char) : readAttribute (strip s) = readAttribute s := by
  obtain ⟨l, r, hs, hl, hr⟩ := Ascii.exists_trimBy isBlank s
  conv_rhs => rw [hs]
  exact (readAttribute_append hl hr).symm

@[simp] theorem pair_strip (s : List Char) : pair (strip s) = pair s := by
  have hequals : '=' ∈ strip s ↔ '=' ∈ s := by
    obtain ⟨l, r, hs, hl, hr⟩ := Ascii.exists_trimBy isBlank s
    conv_rhs => rw [hs]
    simp [equals_notMem_of_blank hl, equals_notMem_of_blank hr, strip]
  rw [pair, pair, readAttribute_strip]
  simp only [hequals]

/-- Only what stands between the blanks of each piece is read. -/
theorem parse_eq (s : List Char) :
    parse s =
      let pieces := (Ascii.split ';' s).map strip
      ⟨pair (pieces.headD []), (pieces.tail.filter (· ≠ [])).map readAttribute⟩ := by
  obtain ⟨first, rest, hpieces⟩ := List.exists_cons_of_ne_nil (List.splitOn_ne_nil ';' s)
  rw [parse, Ascii.split, hpieces]
  simp only [List.headD_cons, List.tail_cons, List.map_cons, pair_strip, List.filter_map,
    List.map_map]
  congr 1
  exact List.map_congr_left fun piece _ => (readAttribute_strip piece).symm

end Cookie
