import BootImage.Text.Utf8
import Mathlib.Data.String.Basic
import Mathlib.Tactic.SplitIfs

/-! Texts in the order of their bytes.

    Texts are compared character by character, and files hold bytes. Both orders are the same: the
    first byte of a character says how many there are, and more bytes stand for larger characters;
    among as many, the bytes are digits of the character, the highest first. The main statement is
    `Text.encode_le_encode_iff`.

        é    c3 a9            before      漢    e6 bc a2
        é    c3 a9            before      ê     c3 aa    -/

namespace BootImage.Text

/-- The bytes of a text are those of its characters. -/
theorem encode_eq_flatMap (text : String) :
    encode text = text.toList.flatMap String.utf8EncodeChar := by
  rw [encode]
  conv_lhs => rw [← String.ofList_toList (s := text)]
  rw [String.toByteArray_ofList, List.utf8Encode, List.toList_data_toByteArray]

theorem encode_append (a b : String) : encode (a ++ b) = encode a ++ encode b := by
  simp only [encode_eq_flatMap, String.toList_append, List.flatMap_append]

theorem toNat_lt (c : Char) : c.val.toNat < 0x110000 := by
  rcases c.valid with h | ⟨-, h⟩
  · exact Nat.lt_trans h (by decide)
  · exact h

/-- A character of one byte stands in a text if its byte does. -/
theorem mem_toList_of_mem_encode {c : Char} (hc : c.val.toNat < 128) {text : String}
    (h : c.toUInt8 ∈ encode text) : c ∈ text.toList := by
  rw [encode_eq_flatMap] at h
  obtain ⟨d, hd, h⟩ := List.mem_flatMap.1 h
  have hbyte : c.toUInt8.toNat = c.val.toNat := Nat.mod_eq_of_lt (Nat.lt_trans hc (by decide))
  have hmax := toNat_lt d
  -- the bytes of longer characters are 128 or more
  have hsame : d.val.toNat = c.val.toNat := by
    simp only [String.utf8EncodeChar] at h
    split_ifs at h <;>
      simp only [List.mem_cons, List.not_mem_nil, or_false, ← UInt8.toNat_inj, hbyte,
        UInt8.toNat_ofNat', Nat.reducePow] at h <;>
      omega
  have hchar : d = c := Char.ext (UInt32.toNat_inj.1 hsame)
  exact hchar ▸ hd

/-- The bytes of a smaller character come first, whatever follows. -/
theorem utf8EncodeChar_append_lt {c d : Char} (h : c < d) (xs ys : List UInt8) :
    String.utf8EncodeChar c ++ xs < String.utf8EncodeChar d ++ ys := by
  have hlt : c.val.toNat < d.val.toNat := h
  have hmax : d.val.toNat < 0x110000 := toNat_lt d
  simp only [String.utf8EncodeChar]
  generalize c.val.toNat = m at *
  generalize d.val.toNat = n at *
  -- no byte wraps around, and the digits can be compared as numbers
  have hlead : ∀ k, k < 0x110000 → (k / 262144 % 8 + 240) % 256 = k / 262144 + 240 := by omega
  have hdigit : ∀ k, (k % 64 + 128) % 256 = k % 64 + 128 := by omega
  split_ifs <;>
    simp only [List.cons_append, List.nil_append, List.cons_lt_cons_iff, UInt8.lt_iff_toNat_lt,
      ← UInt8.toNat_inj, UInt8.toNat_ofNat', Nat.reducePow, hdigit, hlead n hmax,
      hlead m (Nat.lt_trans hlt hmax)] <;>
    omega

/-- Smaller lists of characters have smaller bytes. -/
theorem flatMap_utf8EncodeChar_lt : ∀ {cs ds : List Char}, cs < ds →
    cs.flatMap String.utf8EncodeChar < ds.flatMap String.utf8EncodeChar
  | [], [], h => absurd h (List.lt_irrefl _)
  | [], d :: ds, _ => by
    obtain ⟨b, bs, hb⟩ := List.exists_cons_of_ne_nil (String.utf8EncodeChar_ne_nil (c := d))
    rw [List.flatMap_nil, List.flatMap_cons, hb]
    exact List.nil_lt_cons _ _
  | _ :: _, [], h => absurd h (List.not_lt_nil _)
  | c :: cs, d :: ds, h => by
    rw [List.flatMap_cons, List.flatMap_cons]
    rcases List.cons_lt_cons_iff.1 h with hlt | ⟨rfl, hlt⟩
    · exact utf8EncodeChar_append_lt hlt _ _
    · exact List.append_left_lt (flatMap_utf8EncodeChar_lt hlt)

/-- Texts compare as their bytes do. -/
theorem encode_lt_encode_iff {a b : String} : encode a < encode b ↔ a < b := by
  have hmono : ∀ {a b : String}, a < b → encode a < encode b := fun {a b} h => by
    rw [encode_eq_flatMap, encode_eq_flatMap]
    exact flatMap_utf8EncodeChar_lt (String.lt_iff_toList_lt.1 h)
  refine ⟨fun h => ?_, hmono⟩
  rcases lt_trichotomy a b with hlt | rfl | hgt
  · exact hlt
  · exact absurd h (List.lt_irrefl _)
  · exact absurd h (List.lt_asymm (hmono hgt))

theorem encode_le_encode_iff {a b : String} : encode a ≤ encode b ↔ a ≤ b := by
  rw [← List.not_lt, ← String.not_lt, encode_lt_encode_iff]

/-- Different texts have different bytes. -/
theorem encode_inj {a b : String} : encode a = encode b ↔ a = b := by
  refine ⟨fun h => ?_, congrArg encode⟩
  exact le_antisymm (encode_le_encode_iff.1 (h ▸ List.le_refl _))
    (encode_le_encode_iff.1 (h ▸ List.le_refl _))

/-- Of lists of characters, one starts with the other if its bytes do. -/
theorem prefix_of_flatMap_utf8EncodeChar : ∀ {cs ds : List Char},
    cs.flatMap String.utf8EncodeChar <+: ds.flatMap String.utf8EncodeChar → cs <+: ds
  | [], _, _ => List.nil_prefix
  | c :: cs, [], h => by
    rw [List.flatMap_nil, List.prefix_nil, List.flatMap_cons, List.append_eq_nil_iff] at h
    exact absurd h.1 String.utf8EncodeChar_ne_nil
  | c :: cs, d :: ds, ⟨rest, h⟩ => by
    rw [List.flatMap_cons, List.flatMap_cons, List.append_assoc] at h
    -- were the first characters different, the bytes would be, whatever follows
    have hsame : c = d := by
      rcases lt_trichotomy c d with hlt | heq | hgt
      · exact absurd (h ▸ utf8EncodeChar_append_lt hlt _ _) (List.lt_irrefl _)
      · exact heq
      · exact absurd (h ▸ utf8EncodeChar_append_lt hgt _ _) (List.lt_irrefl _)
    subst hsame
    have hrest := prefix_of_flatMap_utf8EncodeChar ⟨rest, List.append_cancel_left h⟩
    exact List.cons_prefix_cons.2 ⟨rfl, hrest⟩

/-- A text starts with another if its bytes do. -/
theorem encode_prefix_encode_iff {a b : String} :
    encode a <+: encode b ↔ a.toList <+: b.toList := by
  rw [encode_eq_flatMap, encode_eq_flatMap]
  refine ⟨prefix_of_flatMap_utf8EncodeChar, ?_⟩
  rintro ⟨rest, h⟩
  rw [← h, List.flatMap_append]
  exact List.prefix_append _ _

end BootImage.Text
