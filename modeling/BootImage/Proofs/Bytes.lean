import BootImage.Elf.Records
import Mathlib.Data.List.Basic

/-! Parts of a file.

    A file holds a part at an offset if the bytes of the part stand there. What is held can be cut
    out again, and parts of a part are held too: so what a file is put together from is found in it
    at the offsets that the lengths before it add up to. Words that stand side by side are read one
    by one exactly where the bytes of all of them are held. -/

namespace BootImage.Bytes

/-- Bytes without a zero are all that stands in front of their terminator. -/
theorem takeWhile_terminated {bytes : List UInt8} (h : 0 ∉ bytes) (rest : List UInt8) :
    (bytes ++ 0 :: rest).takeWhile (· != 0) = bytes := by
  have hkept : ∀ b ∈ bytes, (b != 0) = true := fun b hb =>
    bne_iff_ne.2 fun hzero => h (hzero ▸ hb)
  rw [List.takeWhile_append_of_pos hkept]
  exact List.append_nil _

theorem takeWhile_of_not_mem {bytes : List UInt8} (h : 0 ∉ bytes) :
    bytes.takeWhile (· != 0) = bytes := by
  induction bytes with
  | nil => rfl
  | cons b rest ih =>
    obtain ⟨hb, hrest⟩ := not_or.1 (mt List.mem_cons.2 h)
    simp [Ne.symm hb, ih hrest]

/-- The bytes in front of the first zero are none, and a zero follows them if anything does. -/
theorem takeWhile_ended (bytes : List UInt8) : 0 ∉ bytes.takeWhile (· != 0) ∧
    ∃ rest, bytes = bytes.takeWhile (· != 0) ++ rest ∧ (rest = [] ∨ rest.head? = some 0) := by
  by_cases hzero : 0 ∈ bytes
  · obtain ⟨front, rest, rfl, hfront⟩ := List.eq_append_cons_of_mem hzero
    rw [takeWhile_terminated hfront]
    exact ⟨hfront, 0 :: rest, rfl, .inr rfl⟩
  · rw [takeWhile_of_not_mem hzero]
    exact ⟨hzero, [], (List.append_nil bytes).symm, .inl rfl⟩

theorem take_little_append (width n : Nat) (rest : List UInt8) :
    (little width n ++ rest).take width = little width n := List.take_left' (length_little width n)

theorem drop_little_append (width n : Nat) (rest : List UInt8) :
    (little width n ++ rest).drop width = rest := List.drop_left' (length_little width n)

theorem capacity_le_capacity {m n : Nat} (h : m ≤ n) : capacity m ≤ capacity n := by
  induction h with
  | refl => exact Nat.le_refl _
  | step _ ih =>
    rw [capacity]
    omega

/-- The first bytes of a width hold a number that fits in it, also where some are missing. -/
theorem ofLittle_take_lt_capacity (width : Nat) (bytes : List UInt8) :
    ofLittle (bytes.take width) < capacity width :=
  Nat.lt_of_lt_of_le (ofLittle_lt_capacity _) (capacity_le_capacity (List.length_take_le _ _))

/-- There is no word where fewer than four bytes are left. -/
theorem word?_eq_none {bytes : List UInt8} {offset : Nat} (h : bytes.length < offset + 4) :
    word? bytes offset = none := by
  rw [word?, slice?, if_neg (Nat.not_le.2 h), Option.map_none]

/-- Four bytes are a word, and a word has room for their number. -/
theorem exists_word? {bytes : List UInt8} {offset : Nat} (h : offset + 4 ≤ bytes.length) :
    ∃ w, word? bytes offset = some w ∧ w.toNat = ofLittle ((bytes.drop offset).take 4) := by
  have hlength : ((bytes.drop offset).take 4).length = 4 := by
    rw [List.length_take, List.length_drop]
    omega
  have hlt := ofLittle_lt_capacity ((bytes.drop offset).take 4)
  rw [hlength] at hlt
  refine ⟨UInt32.ofNat (ofLittle ((bytes.drop offset).take 4)), ?_, UInt32.toNat_ofNat_of_lt' hlt⟩
  rw [word?, slice?, if_pos h, Option.map_some]

@[simp] theorem length_ofWord (w : UInt32) : (ofWord w).length = 4 := length_little 4 w.toNat

/-- A word reads back from its bytes. -/
theorem ofLittle_ofWord (w : UInt32) : ofLittle (ofWord w) = w.toNat :=
  ofLittle_little w.toNat_lt

/-- Four bytes that were read as a word are its bytes. -/
theorem ofWord_ofLittle {bytes : List UInt8} (h : bytes.length = 4) :
    ofWord (UInt32.ofNat (ofLittle bytes)) = bytes := by
  have hbytes := little_ofLittle bytes
  have hlt := ofLittle_lt_capacity bytes
  rw [h] at hbytes hlt
  rw [ofWord, UInt32.toNat_ofNat_of_lt' hlt, hbytes]

/-- The bytes of a part stand in a file from an offset on. -/
def Holds (file : List UInt8) (offset : Nat) (part : List UInt8) : Prop :=
  ∃ before after, file = before ++ part ++ after ∧ before.length = offset

namespace Holds

variable {file part first second : List UInt8} {offset : Nat}

theorem end_le (h : Holds file offset part) : offset + part.length ≤ file.length := by
  obtain ⟨before, after, rfl, rfl⟩ := h
  simp only [List.length_append]
  omega

theorem left (h : Holds file offset (first ++ second)) : Holds file offset first := by
  obtain ⟨before, after, rfl, rfl⟩ := h
  exact ⟨before, second ++ after, by simp only [List.append_assoc], rfl⟩

theorem right (h : Holds file offset (first ++ second)) :
    Holds file (offset + first.length) second := by
  obtain ⟨before, after, rfl, rfl⟩ := h
  exact ⟨before ++ first, after, by simp only [List.append_assoc], List.length_append⟩

/-- What follows the start of a file stands behind it. -/
theorem rest (h : Holds file 0 (first ++ second)) (hoffset : first.length = offset) :
    Holds file offset second := by
  rw [← hoffset, ← Nat.zero_add first.length]
  exact h.right

/-- Parts that stand one behind the other are held as one. -/
theorem append (hfirst : Holds file offset first)
    (hsecond : Holds file (offset + first.length) second) :
    Holds file offset (first ++ second) := by
  obtain ⟨before, after, rfl, rfl⟩ := hfirst
  obtain ⟨front, rest, hfile, hfront⟩ := hsecond
  obtain ⟨rfl, rfl⟩ : before ++ first = front ∧ after = second ++ rest := by
    refine List.append_inj (hfile.trans (List.append_assoc front second rest)) ?_
    rw [hfront, List.length_append]
  exact ⟨before, rest, by simp only [List.append_assoc], rfl⟩

/-- What a file holds can be cut out of it. -/
theorem slice?_eq (h : Holds file offset part) : slice? file offset part.length = some part := by
  have hend := h.end_le
  obtain ⟨before, after, rfl, rfl⟩ := h
  rw [slice?, if_pos hend, List.append_assoc, List.drop_left, List.take_left]

end Holds

/-- A part is cut out of a file if it is held there, and has the size. -/
theorem slice?_eq_some_iff {file part : List UInt8} {offset size : Nat} :
    slice? file offset size = some part ↔ Holds file offset part ∧ part.length = size := by
  constructor
  · intro h
    rw [slice?] at h
    split at h
    · next hend =>
      obtain rfl := Option.some.inj h
      refine ⟨⟨file.take offset, (file.drop offset).drop size, ?_, ?_⟩, ?_⟩
      · rw [List.append_assoc, List.take_append_drop, List.take_append_drop]
      · rw [List.length_take]
        omega
      · rw [List.length_take, List.length_drop]
        omega
    · cases h
  · rintro ⟨h, rfl⟩
    exact h.slice?_eq

/-- Nothing is cut out past the end of a file. -/
theorem slice?_eq_none_iff {file : List UInt8} {offset size : Nat} :
    slice? file offset size = none ↔ file.length < offset + size := by
  simp [slice?]

/-! ### Words -/

/-- A word is read where its bytes are held. -/
theorem word?_eq_some_iff {file : List UInt8} {offset : Nat} {w : UInt32} :
    word? file offset = some w ↔ Holds file offset (ofWord w) := by
  rw [word?, Option.map_eq_some_iff]
  constructor
  · rintro ⟨part, hpart, rfl⟩
    obtain ⟨hheld, hlength⟩ := slice?_eq_some_iff.1 hpart
    rwa [ofWord_ofLittle hlength]
  · intro h
    refine ⟨ofWord w, slice?_eq_some_iff.2 ⟨h, length_ofWord w⟩, ?_⟩
    rw [ofLittle_ofWord, UInt32.ofNat_toNat]

theorem length_flatMap_ofWord (ws : List UInt32) : (ws.flatMap ofWord).length = 4 * ws.length := by
  induction ws with
  | nil => rfl
  | cons w ws ih => simp [ih]; omega

/-- Bytes that are as many as those of words are the bytes of words. -/
theorem exists_flatMap_ofWord_eq {n : Nat} : ∀ {bytes : List UInt8}, bytes.length = 4 * n →
    ∃ ws : List UInt32, ws.flatMap ofWord = bytes := by
  induction n with
  | zero => exact fun h => ⟨[], (List.length_eq_zero_iff.1 h).symm⟩
  | succ n ih =>
    intro bytes h
    have hrest : (bytes.drop 4).length = 4 * n := by
      rw [List.length_drop]
      omega
    obtain ⟨ws, hws⟩ := ih hrest
    have hfour : (bytes.take 4).length = 4 := List.length_take_of_le (by omega)
    refine ⟨UInt32.ofNat (ofLittle (bytes.take 4)) :: ws, ?_⟩
    rw [List.flatMap_cons, ofWord_ofLittle hfour, hws, List.take_append_drop]

/-- Words that stand side by side are read exactly where the bytes of all of them are held. -/
theorem mapM_word?_eq_some_iff {file : List UInt8} {n offset : Nat} {ws : List UInt32}
    (hoffset : offset ≤ file.length) :
    (List.range' offset n 4).mapM (word? file) = some ws ↔
      ws.length = n ∧ Holds file offset (ws.flatMap ofWord) := by
  induction n generalizing offset ws with
  | zero =>
    rw [List.range'_zero, List.mapM_nil]
    constructor
    · intro h
      obtain rfl : [] = ws := Option.some.inj h
      exact ⟨rfl, file.take offset, file.drop offset, by simp, List.length_take_of_le hoffset⟩
    · rintro ⟨hlength, -⟩
      rw [List.length_eq_zero_iff.1 hlength]
      rfl
  | succ n ih =>
    simp only [List.range'_succ, List.mapM_cons, Option.bind_eq_bind, Option.bind_eq_some_iff,
      word?_eq_some_iff]
    constructor
    · rintro ⟨w, hw, rest, hrest, hws⟩
      obtain rfl : w :: rest = ws := Option.some.inj hws
      have hend := hw.end_le
      rw [length_ofWord] at hend
      obtain ⟨hlength, hheld⟩ := (ih hend).1 hrest
      exact ⟨congrArg (· + 1) hlength, hw.append (by rwa [length_ofWord])⟩
    · rintro ⟨hlength, hheld⟩
      obtain ⟨w, rest, rfl⟩ := List.exists_cons_of_length_eq_add_one hlength
      rw [List.flatMap_cons] at hheld
      have hend := hheld.left.end_le
      have hright := hheld.right
      rw [length_ofWord] at hend hright
      exact ⟨w, hheld.left, rest, (ih hend).2 ⟨Nat.succ.inj hlength, hright⟩, rfl⟩

namespace Holds

variable {file part first second : List UInt8} {offset : Nat}

/-- Each placed part is held where it was placed. -/
theorem of_mem_placed {α : Type} {bytes : α → List UInt8} {a : α} {k : Nat} :
    ∀ {parts : List α} {offset : Nat}, Holds file offset (parts.flatMap bytes) →
      (a, k) ∈ placed bytes offset parts → Holds file k (bytes a)
  | [], _, _, hmem => absurd hmem List.not_mem_nil
  | b :: rest, offset, h, hmem => by
    rw [List.flatMap_cons] at h
    rw [placed] at hmem
    rcases List.mem_cons.1 hmem with heq | hmem
    · obtain ⟨rfl, rfl⟩ := Prod.mk.inj heq
      exact h.left
    · exact of_mem_placed h.right hmem

end Holds

/-! ### Placed parts -/

section Placed

variable {α β : Type} {bytes : α → List UInt8} {offset : Nat} {parts : List α}

/-- Placing keeps the parts and their order. -/
@[simp] theorem map_fst_placed : ∀ (offset : Nat) (parts : List α),
    (placed bytes offset parts).map (·.1) = parts
  | _, [] => rfl
  | offset, a :: rest => by
    rw [placed, List.map_cons, map_fst_placed (offset + (bytes a).length) rest]

@[simp] theorem length_placed (offset : Nat) (parts : List α) :
    (placed bytes offset parts).length = parts.length := by
  rw [← List.length_map (·.1), map_fst_placed]

theorem map_placed (f : α → β) :
    (placed bytes offset parts).map (fun p => f p.1) = parts.map f := by
  have hparts : (placed bytes offset parts).map (·.1) = parts := map_fst_placed offset parts
  calc (placed bytes offset parts).map (fun p => f p.1)
    _ = ((placed bytes offset parts).map (·.1)).map f := List.map_map.symm
    _ = parts.map f := by rw [hparts]

/-- What is found of each placed part is found of the parts, in their order. -/
theorem filterMap_placed {find : α × Nat → Option β} {f : α → β}
    (h : ∀ p ∈ placed bytes offset parts, find p = some (f p.1)) :
    (placed bytes offset parts).filterMap find = parts.map f :=
  (List.filterMap_eq_map_iff_forall_eq_some.2 h).trans (map_placed f)

theorem fst_mem_of_mem_placed {p : α × Nat} (h : p ∈ placed bytes offset parts) : p.1 ∈ parts := by
  have hparts : (placed bytes offset parts).map (·.1) = parts := map_fst_placed offset parts
  rw [← hparts]
  exact List.mem_map_of_mem h

theorem placed_append : ∀ (offset : Nat) (parts more : List α),
    placed bytes offset (parts ++ more) =
      placed bytes offset parts ++ placed bytes (offset + (parts.flatMap bytes).length) more
  | _, [], _ => rfl
  | offset, a :: rest, more => by
    rw [List.cons_append, placed, placed, placed_append, List.flatMap_cons, List.length_append,
      Nat.add_assoc, List.cons_append]

end Placed

end BootImage.Bytes

namespace BootImage.Elf

open BootImage.Bytes

/-- Records of one size are cut apart again. -/
theorem records_flatten {size : Nat} : ∀ {found : List (List UInt8)},
    (∀ r ∈ found, r.length = size) → records size found.length found.flatten = found
  | [], _ => rfl
  | r :: rest, h => by
    obtain ⟨hr, hrest⟩ := List.forall_mem_cons.1 h
    rw [List.length_cons, List.flatten_cons, records, ← hr, List.take_left, List.drop_left, hr,
      records_flatten hrest]

theorem length_flatten {size : Nat} : ∀ {found : List (List UInt8)},
    (∀ r ∈ found, r.length = size) → found.flatten.length = size * found.length
  | [], _ => rfl
  | r :: rest, h => by
    obtain ⟨hr, hrest⟩ := List.forall_mem_cons.1 h
    rw [List.flatten_cons, List.length_append, hr, length_flatten hrest, List.length_cons,
      Nat.mul_succ, Nat.add_comm]

/-- Records that a file holds are read. -/
theorem records?_eq {file : List UInt8} {size offset count : Nat} {found : List (List UInt8)}
    (hsize : ∀ r ∈ found, r.length = size) (hcount : found.length = count)
    (h : Holds file offset found.flatten) : records? file size offset count = some found := by
  subst hcount
  rw [records?, ← length_flatten hsize, h.slice?_eq, Option.map_some, records_flatten hsize]

end BootImage.Elf
