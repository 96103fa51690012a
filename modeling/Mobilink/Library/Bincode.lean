import Mobilink.Library.Codec

/-! The default layout of bincode 1.3: little-endian fixed-width integers, a `u64` length before
every string and sequence, a `u32` index before every enum variant, structs as their fields. -/
namespace Bincode

def u8 : Codec UInt8 where
  encode b := [b]
  decode
    | [] => none
    | b :: rest => some (b, rest)
  Fits _ := True
  decode_encode _ _ _ := rfl
  encode_of_decode := by
    intro bytes b rest h
    cases bytes with
    | nil => simp at h
    | cons b' bytes =>
      have he : b' = b ∧ bytes = rest := by simpa using h
      obtain ⟨rfl, rfl⟩ := he
      exact ⟨trivial, rfl⟩

def u16 : Codec UInt16 :=
  (Codec.littleEndian 2).restrict UInt16.toNat UInt16.ofNat (fun _ => UInt16.ofNat_toNat)
    (fun n (h : n < 256 ^ 2) => by simp; omega)

/-- The index of an enum variant. -/
def variant : Codec ℕ := Codec.littleEndian 4

/-- The length before a string or a sequence. -/
def length : Codec ℕ := Codec.littleEndian 8

/-- Any byte but 0 and 1 is refused. -/
def bool : Codec Bool :=
  u8.refine (fun b => if b then 1 else 0)
    (fun n => if n = 0 then some false else if n = 1 then some true else none)
    (by decide)
    (by
      intro n b h
      split_ifs at h with h0 h1
      · have hb : false = b := Option.some.inj h
        simp [← hb, h0]
      · have hb : true = b := Option.some.inj h
        simp [← hb, h1])

def vec {α : Type*} (c : Codec α) : Codec (List α) := Codec.counted length c

def bytes : Codec (List UInt8) := vec u8

/-- Bytes that are not UTF-8 are refused. -/
def string : Codec String :=
  bytes.refine (fun s => s.toByteArray.data.toList) (fun l => String.fromUTF8? ⟨l.toArray⟩)
    (by
      intro s
      have hs : (⟨s.toByteArray.data.toList.toArray⟩ : ByteArray) = s.toByteArray := by simp
      rw [hs, String.fromUTF8?, dif_pos s.isValidUTF8]
      rfl)
    (by
      intro l s h
      unfold String.fromUTF8? at h
      split_ifs at h with hv
      have hs : String.fromUTF8 ⟨l.toArray⟩ hv = s := Option.some.inj h
      simp [← hs, String.fromUTF8])

/-- A type that derives `Serialize` and `Deserialize`. -/
class Serde (α : Type*) where
  codec : Codec α

variable {α : Type*} [Serde α]

/-- Writing to a `Vec` cannot fail: no size limit is set. -/
def serialize (a : α) : Option (List UInt8) := some (Serde.codec.encode a)

/-- Bytes behind a complete value are allowed and ignored. -/
def deserialize (l : List UInt8) : Option α := (Serde.codec.decode l).map Prod.fst

theorem deserialize_encode (a : α) (h : (Serde.codec (α := α)).Fits a) :
    deserialize (Serde.codec.encode a) = some a := by
  have hd := Serde.codec.decode_encode a [] h
  rw [List.append_nil] at hd
  rw [deserialize, hd, Option.map_some]

theorem deserialize_eq_some_iff (l : List UInt8) (a : α) :
    deserialize l = some a ↔
      (Serde.codec (α := α)).Fits a ∧ ∃ rest, l = Serde.codec.encode a ++ rest := by
  unfold deserialize
  constructor
  · intro h
    obtain ⟨⟨b, rest⟩, hd, hb⟩ := Option.map_eq_some_iff.mp h
    obtain ⟨hf, hl⟩ := Serde.codec.encode_of_decode l b rest hd
    dsimp only at hb
    subst hb
    exact ⟨hf, rest, hl⟩
  · rintro ⟨hf, rest, rfl⟩
    rw [Serde.codec.decode_encode a rest hf, Option.map_some]

/-! ### Encoded sizes -/

@[simp] theorem length_u8 (b : UInt8) : (u8.encode b).length = 1 := rfl

@[simp] theorem length_u16 (n : UInt16) : (u16.encode n).length = 2 :=
  Codec.length_littleEndian 2 _

@[simp] theorem length_variant (n : ℕ) : (variant.encode n).length = 4 :=
  Codec.length_littleEndian 4 n

@[simp] theorem length_vec {β : Type*} (c : Codec β) (l : List β) :
    ((vec c).encode l).length = 8 + (l.map fun a => (c.encode a).length).sum := by
  rw [vec, Codec.length_counted]
  congr 1

@[simp] theorem length_bytes (l : List UInt8) : (bytes.encode l).length = 8 + l.length := by
  rw [bytes, length_vec]
  simp

@[simp] theorem length_string (s : String) : (string.encode s).length = 8 + s.utf8ByteSize := by
  change (bytes.encode s.toByteArray.data.toList).length = _
  rw [length_bytes, Array.length_toList]
  rfl

end Bincode
