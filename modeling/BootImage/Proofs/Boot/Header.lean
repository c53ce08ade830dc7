import BootImage.Boot.Header
import BootImage.Proofs.Bytes

/-! What is read off an image header.

    The header words stand side by side behind the entry branch, so reading them one by one reads
    one slice of the image. A header is read exactly if that slice is there, and then the slice is
    its bytes, word for word and in order. The main statement is `Header.read?_image`.

        05 00 00 ea   00 00 00 08   00 03 00 00   ..   05 00 00 80   what follows
        branch        services      appId              runFlags      is not looked at

    No value of a word is refused: flags without a name are read as the others. -/

namespace BootImage.Boot.Header

open Bytes

variable {h : Header} {image : List UInt8} {words : List UInt32}

/-- The header words stand one behind the other, from the branch on. -/
theorem headerOffsets_eq : headerOffsets = List.range' entryBranchSize 6 4 := rfl

/-- Six words make a header, and it has these words. -/
theorem ofWords?_eq_some_iff : ofWords? words = some h ↔ h.words = words := by
  constructor
  · intro heq
    match words with
    | [_, _, _, _, _, _] =>
      obtain rfl := Option.some.inj heq
      rfl
  · rintro rfl
    exact ofWords?_words h

theorem exists_ofWords? (hlength : words.length = 6) : ∃ h, ofWords? words = some h := by
  match words with
  | [_, _, _, _, _, _] => exact ⟨_, rfl⟩

@[simp] theorem length_bytes (h : Header) : h.bytes.length = headerSize := length_flatMap_ofWord _

/-- Bytes that are as many as those of a header are the bytes of one. -/
theorem exists_bytes_eq {part : List UInt8} (hlength : part.length = headerSize) :
    ∃ h : Header, h.bytes = part := by
  obtain ⟨words, rfl⟩ := exists_flatMap_ofWord_eq (n := 6) hlength
  rw [length_flatMap_ofWord, headerSize] at hlength
  obtain ⟨h, hwords⟩ := exists_ofWords? (by omega : words.length = 6)
  exact ⟨h, by rw [bytes, ofWords?_eq_some_iff.1 hwords]⟩

/-- A header is read exactly from an image that holds its bytes behind the branch. -/
theorem read?_eq_some_iff_holds : read? image = some h ↔ Holds image entryBranchSize h.bytes := by
  rcases Nat.lt_or_ge image.length entryBranchSize with hshort | hlong
  · -- not even the first word is there
    refine iff_of_false ?_ fun hheld => ?_
    · have hnone : word? image 4 = none := word?_eq_none (Nat.lt_of_lt_of_le hshort (by decide))
      simp [read?, headerOffsets, hnone]
    · exact absurd (Nat.le_trans (Nat.le_add_right _ _) hheld.end_le) (Nat.not_le.2 hshort)
  · simp only [read?, headerOffsets_eq, Option.bind_eq_bind, Option.bind_eq_some_iff,
      mapM_word?_eq_some_iff hlong, ofWords?_eq_some_iff]
    constructor
    · rintro ⟨words, ⟨-, hheld⟩, rfl⟩
      exact hheld
    · intro hheld
      exact ⟨h.words, ⟨rfl, hheld⟩, rfl⟩

theorem read?_eq_some_iff :
    read? image = some h ↔ slice? image entryBranchSize headerSize = some h.bytes := by
  rw [read?_eq_some_iff_holds, slice?_eq_some_iff, and_iff_left (length_bytes h)]

/-- A header is read exactly if the image is long enough to hold one. -/
theorem isSome_read?_iff :
    (read? image).isSome = true ↔ entryBranchSize + headerSize ≤ image.length := by
  rw [Option.isSome_iff_exists]
  constructor
  · rintro ⟨h, hread⟩
    simpa using (read?_eq_some_iff_holds.1 hread).end_le
  · intro hle
    have hslice : slice? image entryBranchSize headerSize =
        some ((image.drop entryBranchSize).take headerSize) := if_pos hle
    obtain ⟨h, hbytes⟩ := exists_bytes_eq (slice?_eq_some_iff.1 hslice).2
    exact ⟨h, read?_eq_some_iff.2 (by rw [hbytes, hslice])⟩

/-- A header is read exactly from images that are long enough, and its bytes are those behind the
    branch. Six words that stand behind some branch are read as they are, whatever follows them, and
    every bit of the flags is kept. -/
theorem read?_image :
    (∀ image : List UInt8,
      ((read? image).isSome = true ↔ entryBranchSize + headerSize ≤ image.length) ∧
      ∀ h, read? image = some h ↔ slice? image entryBranchSize headerSize = some h.bytes) ∧
    ∀ (branch rest : List UInt8)
      (services appId heapSize linearHeapSize arguments runFlags : UInt32),
      branch.length = entryBranchSize →
      let words := [services, appId, heapSize, linearHeapSize, arguments, runFlags]
      ∃ h, ofWords? words = some h ∧ read? (branch ++ words.flatMap ofWord ++ rest) = some h ∧
        h.flags.bits = runFlags := by
  refine ⟨fun image => ⟨isSome_read?_iff, fun h => read?_eq_some_iff⟩, ?_⟩
  intro branch rest services appId heapSize linearHeapSize arguments runFlags hbranch words
  exact ⟨_, rfl, read?_eq_some_iff_holds.2 ⟨branch, rest, rfl, hbranch⟩, rfl⟩

/-- A launcher's header, with a flag that has no name. -/
theorem read?_image_launcher :
    let words : List UInt32 := [0x08000000, 0x300, 0x100000, 0, 0x09000000, 0x80000005]
    [0x05, 0x00, 0x00, 0xea].length = entryBranchSize ∧
      ∃ h, ofWords? words = some h ∧
        read? ([0x05, 0x00, 0x00, 0xea] ++ words.flatMap ofWord ++ [0xff]) = some h ∧
        h.flags.bits = 0x80000005 := by
  intro words
  have hbranch : [0x05, 0x00, 0x00, 0xea].length = entryBranchSize := rfl
  exact ⟨hbranch, read?_image.2 _ _ _ _ _ _ _ _ hbranch⟩

end BootImage.Boot.Header
