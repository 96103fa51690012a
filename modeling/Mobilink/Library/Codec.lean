import Mathlib.Algebra.Ring.Nat
import Mathlib.Data.List.Basic
import Mathlib.Data.Option.Basic

/-! Self-delimiting byte codecs. A decoder returns what it leaves unread, so that codecs compose;
each codec carries the proofs that decoding inverts encoding and that only encodings decode. -/

/-- `Fits` is the range of values whose lengths the format can express. -/
structure Codec (α : Type*) where
  encode : α → List UInt8
  decode : List UInt8 → Option (α × List UInt8)
  Fits : α → Prop
  decode_encode : ∀ a rest, Fits a → decode (encode a ++ rest) = some (a, rest)
  encode_of_decode : ∀ bytes a rest, decode bytes = some (a, rest) →
    Fits a ∧ bytes = encode a ++ rest

namespace Codec

variable {α β : Type*}

theorem decode_eq_some_iff (c : Codec α) (bytes : List UInt8) (a : α) (rest : List UInt8) :
    c.decode bytes = some (a, rest) ↔ c.Fits a ∧ bytes = c.encode a ++ rest := by
  constructor
  · exact c.encode_of_decode bytes a rest
  · rintro ⟨hf, rfl⟩
    exact c.decode_encode a rest hf

/-- No strict prefix of an encoding decodes, not even to another value. -/
theorem decode_prefix (c : Codec α) {a : α} (hf : c.Fits a) {p q : List UInt8} (hq : q ≠ [])
    (h : c.encode a = p ++ q) : c.decode p = none := by
  cases hp : c.decode p with
  | none => rfl
  | some out =>
    obtain ⟨b, rest⟩ := out
    obtain ⟨hb, hpb⟩ := c.encode_of_decode p b rest hp
    have ha : c.decode (c.encode a) = some (a, []) := by
      simpa using c.decode_encode a [] hf
    have hab : c.decode (c.encode a) = some (b, rest ++ q) := by
      rw [h, hpb, List.append_assoc]
      exact c.decode_encode b _ hb
    have heq : ([] : List UInt8) = rest ++ q :=
      congrArg Prod.snd (Option.some.inj (ha.symm.trans hab))
    exact absurd (List.append_eq_nil_iff.mp heq.symm).2 hq

def pair (c : Codec α) (d : Codec β) : Codec (α × β) where
  encode p := c.encode p.1 ++ d.encode p.2
  decode bytes := (c.decode bytes).bind fun x =>
    (d.decode x.2).map fun y => ((x.1, y.1), y.2)
  Fits p := c.Fits p.1 ∧ d.Fits p.2
  decode_encode := by
    rintro ⟨a, b⟩ rest ⟨ha, hb⟩
    simp [List.append_assoc, c.decode_encode a _ ha, d.decode_encode b _ hb]
  encode_of_decode := by
    rintro bytes ⟨a, b⟩ rest h
    obtain ⟨⟨a', mid⟩, hc, h'⟩ := Option.bind_eq_some_iff.mp h
    obtain ⟨⟨b', rest'⟩, hd, he⟩ := Option.map_eq_some_iff.mp h'
    obtain ⟨ha, hbytes⟩ := c.encode_of_decode _ _ _ hc
    obtain ⟨hb, hmid⟩ := d.encode_of_decode _ _ _ hd
    dsimp only at hmid
    simp only [Prod.mk.injEq] at he
    obtain ⟨⟨rfl, rfl⟩, rfl⟩ := he
    exact ⟨⟨ha, hb⟩, by rw [hbytes, hmid, List.append_assoc]⟩

/-- Read through `c` and accept only what spells some `β`. -/
def refine (c : Codec α) (fields : β → α) (build : α → Option β)
    (hbuild : ∀ b, build (fields b) = some b)
    (hfields : ∀ a b, build a = some b → fields b = a) : Codec β where
  encode b := c.encode (fields b)
  decode bytes := (c.decode bytes).bind fun x => (build x.1).map fun b => (b, x.2)
  Fits b := c.Fits (fields b)
  decode_encode := by
    intro b rest hb
    simp [c.decode_encode _ _ hb, hbuild]
  encode_of_decode := by
    intro bytes b rest h
    obtain ⟨⟨a, rest'⟩, hc, h'⟩ := Option.bind_eq_some_iff.mp h
    obtain ⟨b', hb', he⟩ := Option.map_eq_some_iff.mp h'
    simp only [Prod.mk.injEq] at he
    obtain ⟨rfl, rfl⟩ := he
    rw [hfields a b' hb']
    exact c.encode_of_decode _ _ _ hc

/-- `refine` where `build` is total but only invertible on a range of values. -/
def restrict (c : Codec α) (fields : β → α) (build : α → β) (hbuild : ∀ b, build (fields b) = b)
    (hfields : ∀ a, c.Fits a → fields (build a) = a) : Codec β where
  encode b := c.encode (fields b)
  decode bytes := (c.decode bytes).map fun x => (build x.1, x.2)
  Fits b := c.Fits (fields b)
  decode_encode := by
    intro b rest hb
    simp [c.decode_encode _ _ hb, hbuild]
  encode_of_decode := by
    intro bytes b rest h
    obtain ⟨⟨a, rest'⟩, hc, he⟩ := Option.map_eq_some_iff.mp h
    simp only [Prod.mk.injEq] at he
    obtain ⟨rfl, rfl⟩ := he
    obtain ⟨ha, hbytes⟩ := c.encode_of_decode _ _ _ hc
    rw [hfields a ha]
    exact ⟨ha, hbytes⟩

/-- Exactly `n` values, one after the other. -/
def decodeMany (c : Codec α) : ℕ → List UInt8 → Option (List α × List UInt8)
  | 0, bytes => some ([], bytes)
  | n + 1, bytes => (c.decode bytes).bind fun x =>
      (c.decodeMany n x.2).map fun y => (x.1 :: y.1, y.2)

theorem decodeMany_encode (c : Codec α) (l : List α) (rest : List UInt8)
    (h : ∀ a ∈ l, c.Fits a) :
    c.decodeMany l.length (l.flatMap c.encode ++ rest) = some (l, rest) := by
  induction l with
  | nil => rfl
  | cons a l ih =>
    have ha := c.decode_encode a (l.flatMap c.encode ++ rest) (h a (by simp))
    have hl := ih (fun b hb => h b (by simp [hb]))
    simp [decodeMany, List.append_assoc, ha, hl]

theorem encode_of_decodeMany (c : Codec α) (n : ℕ) (bytes : List UInt8) (l : List α)
    (rest : List UInt8) (h : c.decodeMany n bytes = some (l, rest)) :
    l.length = n ∧ (∀ a ∈ l, c.Fits a) ∧ bytes = l.flatMap c.encode ++ rest := by
  induction n generalizing bytes l with
  | zero =>
    have he : [] = l ∧ bytes = rest := by simpa [decodeMany] using h
    obtain ⟨rfl, rfl⟩ := he
    simp
  | succ n ih =>
    obtain ⟨⟨a, mid⟩, hc, h'⟩ := Option.bind_eq_some_iff.mp h
    obtain ⟨⟨l', rest'⟩, hd, he⟩ := Option.map_eq_some_iff.mp h'
    simp only [Prod.mk.injEq] at he
    obtain ⟨rfl, rfl⟩ := he
    obtain ⟨ha, hbytes⟩ := c.encode_of_decode _ _ _ hc
    obtain ⟨hlen, hall, hmid⟩ := ih mid l' hd
    refine ⟨by simp [hlen], ?_, by simp [hbytes, hmid, List.append_assoc]⟩
    intro b hb
    rcases List.mem_cons.mp hb with rfl | hb
    · exact ha
    · exact hall b hb

/-- A count, then that many values. -/
def counted (count : Codec ℕ) (c : Codec α) : Codec (List α) where
  encode l := count.encode l.length ++ l.flatMap c.encode
  decode bytes := (count.decode bytes).bind fun x => c.decodeMany x.1 x.2
  Fits l := count.Fits l.length ∧ ∀ a ∈ l, c.Fits a
  decode_encode := by
    rintro l rest ⟨hlen, hl⟩
    simp [List.append_assoc, count.decode_encode _ _ hlen, c.decodeMany_encode l rest hl]
  encode_of_decode := by
    intro bytes l rest h
    obtain ⟨⟨n, mid⟩, hn, h'⟩ := Option.bind_eq_some_iff.mp h
    obtain ⟨hfit, hbytes⟩ := count.encode_of_decode _ _ _ hn
    obtain ⟨hlen, hall, hmid⟩ := c.encode_of_decodeMany n mid l rest h'
    subst hlen
    exact ⟨⟨hfit, hall⟩, by rw [hbytes, hmid, List.append_assoc]⟩

/-! ### Fixed-width little-endian numbers -/

def encodeLE : ℕ → ℕ → List UInt8
  | 0, _ => []
  | k + 1, n => UInt8.ofNat (n % 256) :: encodeLE k (n / 256)

def decodeLE : ℕ → List UInt8 → Option (ℕ × List UInt8)
  | 0, bytes => some (0, bytes)
  | _ + 1, [] => none
  | k + 1, b :: bytes => (decodeLE k bytes).map fun x => (b.toNat + 256 * x.1, x.2)

@[simp] theorem length_encodeLE (k n : ℕ) : (encodeLE k n).length = k := by
  induction k generalizing n with
  | zero => rfl
  | succ k ih => simp [encodeLE, ih]

theorem decodeLE_encodeLE (k n : ℕ) (rest : List UInt8) (h : n < 256 ^ k) :
    decodeLE k (encodeLE k n ++ rest) = some (n, rest) := by
  induction k generalizing n with
  | zero =>
    have hn : n = 0 := by simpa using h
    simp [encodeLE, decodeLE, hn]
  | succ k ih =>
    have hdiv : n / 256 < 256 ^ k := by
      rw [Nat.pow_succ] at h
      omega
    have hbyte : (UInt8.ofNat (n % 256)).toNat = n % 256 := by
      simp
    simp only [encodeLE, decodeLE, List.cons_append, ih _ hdiv, Option.map_some, hbyte]
    rw [Nat.mod_add_div]

theorem encodeLE_of_decodeLE (k : ℕ) (bytes : List UInt8) (n : ℕ) (rest : List UInt8)
    (h : decodeLE k bytes = some (n, rest)) : n < 256 ^ k ∧ bytes = encodeLE k n ++ rest := by
  induction k generalizing bytes n with
  | zero =>
    have he : 0 = n ∧ bytes = rest := by simpa [decodeLE] using h
    obtain ⟨rfl, rfl⟩ := he
    simp [encodeLE]
  | succ k ih =>
    cases bytes with
    | nil => simp [decodeLE] at h
    | cons b bytes =>
      obtain ⟨⟨m, rest'⟩, hm, he⟩ := Option.map_eq_some_iff.mp h
      simp only [Prod.mk.injEq] at he
      obtain ⟨rfl, rfl⟩ := he
      obtain ⟨hlt, hbytes⟩ := ih bytes m hm
      have hb := b.toNat_lt
      have hmod : (b.toNat + 256 * m) % 256 = b.toNat := by omega
      have hdiv : (b.toNat + 256 * m) / 256 = m := by omega
      refine ⟨by rw [Nat.pow_succ]; omega, ?_⟩
      rw [encodeLE, hmod, hdiv, hbytes]
      simp

def littleEndian (k : ℕ) : Codec ℕ where
  encode := encodeLE k
  decode := decodeLE k
  Fits n := n < 256 ^ k
  decode_encode n rest h := decodeLE_encodeLE k n rest h
  encode_of_decode bytes n rest h := encodeLE_of_decodeLE k bytes n rest h

@[simp] theorem length_littleEndian (k n : ℕ) : ((littleEndian k).encode n).length = k :=
  length_encodeLE k n

@[simp] theorem length_pair (c : Codec α) (d : Codec β) (p : α × β) :
    ((c.pair d).encode p).length = (c.encode p.1).length + (d.encode p.2).length := by
  simp [pair]

theorem length_counted (count : Codec ℕ) (c : Codec α) (l : List α) :
    ((counted count c).encode l).length =
      (count.encode l.length).length + (l.map fun a => (c.encode a).length).sum := by
  simp [counted, List.length_flatMap]

end Codec
