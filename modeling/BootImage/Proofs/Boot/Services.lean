import BootImage.Boot.Services
import BootImage.Proofs.Bytes
import BootImage.Proofs.Text.ByteOrder
import Mathlib.Algebra.Ring.Nat

/-! What is read off a service list.

    All entries have one size, so a list is refused only if it is too short for as many as it
    counts, and an entry is found at its number times that size. A name ends at its first zero, or
    fills its field. The main statement is `Services.parse?_services`.

        01 00 00 00   66 73 3a 55 53 45 52 00   78 56 00 00   ..
        count = 1     "fs:USER"                 0x5678        what follows is not looked at

    A handle is asked for by the name of the service: it is the one of the first that has the name.
    A name with a zero, or too long for its field, is no service's. -/

namespace BootImage.Boot

open Bytes

/-! ### Entries -/

namespace Service

/-- An entry can hold the service. -/
structure IsWritable (s : Service) : Prop where
  zero_not_mem : 0 ∉ s.name
  length_le : s.name.length ≤ nameSize

instance (s : Service) : Decidable s.IsWritable :=
  decidable_of_iff (0 ∉ s.name ∧ s.name.length ≤ nameSize)
    ⟨fun h => ⟨h.1, h.2⟩, fun h => ⟨h.zero_not_mem, h.length_le⟩⟩

/-- What an entry says: its name has no zero, a zero follows it unless it fills its field, and the
    handle comes last. -/
structure IsReadFrom (s : Service) (entry : List UInt8) : Prop where
  zero_not_mem : 0 ∉ s.name
  split : ∃ padding, entry = s.name ++ padding ++ ofWord s.handle ∧
    s.name.length + padding.length = nameSize ∧ (padding = [] ∨ padding.head? = some 0)

variable {s : Service} {entry : List UInt8}

/-- An entry is read as what it says. -/
theorem isReadFrom_decode (h : entry.length = entrySize) : (decode entry).IsReadFrom entry := by
  obtain ⟨hzero, padding, hname, hpadding⟩ := takeWhile_ended (entry.take nameSize)
  have hhandle : (entry.drop nameSize).length = 4 := by simp [h, nameSize, entrySize]
  have hword : ofWord (decode entry).handle = entry.drop nameSize := by
    rw [decode, List.take_of_length_le (Nat.le_of_eq hhandle), ofWord_ofLittle hhandle]
  refine ⟨hzero, padding, ?_, ?_, hpadding⟩
  · rw [hword]
    exact (List.take_append_drop nameSize entry).symm.trans (congrArg (· ++ _) hname)
  · have hfield : (entry.take nameSize).length = nameSize := by simp [h, nameSize, entrySize]
    rw [hname, List.length_append] at hfield
    exact hfield

/-- A service is what its entry says. -/
theorem IsWritable.isReadFrom_encode (h : s.IsWritable) : s.IsReadFrom s.encode := by
  refine ⟨h.zero_not_mem, List.replicate (nameSize - s.name.length) 0, rfl, ?_, ?_⟩
  · rw [List.length_replicate]
    exact Nat.add_sub_cancel' h.length_le
  · cases nameSize - s.name.length with
    | zero => exact .inl rfl
    | succ n => exact .inr rfl

namespace IsReadFrom

theorem length_entry (h : s.IsReadFrom entry) : entry.length = entrySize := by
  obtain ⟨-, padding, rfl, hlength, -⟩ := h
  rw [nameSize] at hlength
  rw [List.length_append, List.length_append, length_ofWord, hlength, entrySize]

/-- An entry says one thing. -/
theorem decode_eq (h : s.IsReadFrom entry) : decode entry = s := by
  obtain ⟨hzero, padding, rfl, hlength, hpadding⟩ := h
  have hfield : (s.name ++ padding).length = nameSize := by simpa using hlength
  have hhandle : ofLittle ((ofWord s.handle).take 4) = s.handle.toNat := by
    rw [List.take_of_length_le (Nat.le_of_eq (length_ofWord _)), ofLittle_ofWord]
  have hname : (s.name ++ padding).takeWhile (· != 0) = s.name := by
    cases padding with
    | nil => rw [List.append_nil, takeWhile_of_not_mem hzero]
    | cons b rest =>
      obtain rfl : b = 0 := by simpa using hpadding
      exact takeWhile_terminated hzero rest
  rw [decode, List.take_left' hfield, List.drop_left' hfield, hname, hhandle, UInt32.ofNat_toNat]

end IsReadFrom

end Service

namespace Services

open Service

variable {services : List Service} {bytes : List UInt8} {count : Nat}

/-! ### Lists of entries -/

@[simp] theorem length_entries (count : Nat) (bytes : List UInt8) :
    (entries count bytes).length = count := by
  induction count generalizing bytes with
  | zero => rfl
  | succ count ih => simp [entries, ih]

/-- Each entry is found at its number times the size of all. -/
theorem getElem?_entries {i : Nat} (h : i < count) (bytes : List UInt8) :
    (entries count bytes)[i]? =
      some (.decode ((bytes.drop (entrySize * i)).take entrySize)) := by
  induction count generalizing i bytes with
  | zero => omega
  | succ count ih =>
    cases i with
    | zero => simp [entries]
    | succ i =>
      rw [entries, List.getElem?_cons_succ, ih (by omega), List.drop_drop, Nat.mul_succ,
        Nat.add_comm]

/-- Bytes behind the last entry do not count. -/
theorem entries_take {n : Nat} (h : entrySize * count ≤ n) (bytes : List UInt8) :
    entries count (bytes.take n) = entries count bytes := by
  refine List.ext_getElem? fun i => ?_
  rcases Nat.lt_or_ge i count with hi | hi
  · have hend : entrySize * i + entrySize ≤ n :=
      Nat.le_trans (by rw [← Nat.mul_succ]; exact Nat.mul_le_mul_left _ hi) h
    rw [getElem?_entries hi, getElem?_entries hi, List.drop_take, List.take_take,
      Nat.min_eq_left (by omega)]
  · rw [List.getElem?_eq_none (by simpa using hi), List.getElem?_eq_none (by simpa using hi)]

/-- Services are read back from their entries, whatever follows. -/
theorem entries_flatMap_encode (h : ∀ s ∈ services, s.IsWritable) (trailing : List UInt8) :
    entries services.length (services.flatMap (·.encode) ++ trailing) = services := by
  induction services with
  | nil => rfl
  | cons s services ih =>
    obtain ⟨hs, hservices⟩ := List.forall_mem_cons.1 h
    have hentry := hs.isReadFrom_encode
    rw [List.flatMap_cons, List.length_cons, entries, List.append_assoc,
      List.take_left' hentry.length_entry, List.drop_left' hentry.length_entry, hentry.decode_eq,
      ih hservices]

theorem length_flatMap_encode (h : ∀ s ∈ services, s.IsWritable) :
    (services.flatMap (·.encode)).length = entrySize * services.length := by
  induction services with
  | nil => rfl
  | cons s services ih =>
    obtain ⟨hs, hservices⟩ := List.forall_mem_cons.1 h
    rw [List.flatMap_cons, List.length_append, hs.isReadFrom_encode.length_entry, ih hservices,
      List.length_cons, Nat.mul_succ, Nat.add_comm]

/-! ### The list -/

/-- The bytes that are kept of a list: those of its entries. -/
def kept? (bytes : List UInt8) : Option (List UInt8) := do
  let count ← word? bytes 0
  slice? bytes 4 (entrySize * count.toNat)

/-- How many entries some bytes hold. -/
def countIn (kept : List UInt8) : Nat := kept.length / entrySize

/-- The bytes of as many entries as a list counts are kept. -/
theorem kept?_eq (h : 4 ≤ bytes.length) :
    kept? bytes = slice? bytes 4 (entrySize * ofLittle (bytes.take 4)) := by
  obtain ⟨count, hword, hcount⟩ := exists_word? (by omega : 0 + 4 ≤ bytes.length)
  rw [List.drop_zero] at hcount
  rw [kept?, hword, Option.bind_eq_bind, Option.bind_some, hcount]

/-- How many entries a list has can be told from the bytes that are kept of it. -/
theorem parse?_eq_map_kept? (bytes : List UInt8) :
    parse? bytes = (kept? bytes).map fun kept => entries (countIn kept) kept := by
  rw [parse?, kept?]
  cases word? bytes 0 with
  | none => rfl
  | some count =>
    simp only [Option.bind_eq_bind, Option.bind_some]
    cases hslice : slice? bytes 4 (entrySize * count.toNat) with
    | none => rfl
    | some kept =>
      have hlength : kept.length = entrySize * count.toNat := (slice?_eq_some_iff.1 hslice).2
      have hcount : countIn kept = count.toNat := by
        rw [countIn, hlength, Nat.mul_div_cancel_left _ (by decide)]
      rw [Option.bind_some, Option.map_some, hcount]

/-- A list is refused if it has no count, or is too short for as many entries. -/
theorem parse?_eq_none_iff : parse? bytes = none ↔
    bytes.length < 4 ∨ bytes.length < 4 + entrySize * ofLittle (bytes.take 4) := by
  rw [parse?_eq_map_kept?, Option.map_eq_none_iff]
  rcases Nat.lt_or_ge bytes.length 4 with hlength | hlength
  · have hnone : kept? bytes = none := by
      rw [kept?, word?_eq_none (by omega)]
      rfl
    simp [hnone, hlength]
  · rw [kept?_eq hlength, slice?_eq_none_iff]
    omega

/-- A list that is long enough is read as many entries as it counts. -/
theorem parse?_eq (h : 4 + entrySize * ofLittle (bytes.take 4) ≤ bytes.length) :
    parse? bytes = some (entries (ofLittle (bytes.take 4)) (bytes.drop 4)) := by
  have hlength : (bytes.drop 4).length = bytes.length - 4 := List.length_drop
  rw [parse?_eq_map_kept?, kept?_eq (by omega), slice?, if_pos h, Option.map_some, countIn,
    List.length_take_of_le (by omega), Nat.mul_div_cancel_left _ (by decide),
    entries_take (Nat.le_refl _)]

/-- What is read off a list that is not refused. -/
theorem eq_of_parse? (h : parse? bytes = some services) :
    4 + entrySize * ofLittle (bytes.take 4) ≤ bytes.length ∧
      services = entries (ofLittle (bytes.take 4)) (bytes.drop 4) := by
  have hsome : ¬ parse? bytes = none := by simp [h]
  rw [parse?_eq_none_iff] at hsome
  have hlong : 4 + entrySize * ofLittle (bytes.take 4) ≤ bytes.length := by omega
  rw [parse?_eq hlong] at h
  exact ⟨hlong, (Option.some.inj h).symm⟩

/-- Services are read back from their list, whatever follows it. -/
theorem parse?_append (hlength : services.length < 2 ^ 32) (h : ∀ s ∈ services, s.IsWritable)
    (trailing : List UInt8) : parse? (block services ++ trailing) = some services := by
  have hdrop : (block services ++ trailing).drop 4 =
      services.flatMap (·.encode) ++ trailing := by
    rw [block, List.append_assoc, drop_little_append]
  have hnumber : ofLittle ((block services ++ trailing).take 4) = services.length := by
    rw [block, List.append_assoc, take_little_append, ofLittle_little hlength]
  have hlong : 4 + entrySize * services.length ≤ (block services ++ trailing).length := by
    simp only [block, List.length_append, length_little, length_flatMap_encode h]
    omega
  rw [parse?_eq (by rwa [hnumber]), hnumber, hdrop, entries_flatMap_encode h]

/-- A service that is read off a list is what its entry says. -/
theorem isReadFrom_of_parse? (h : parse? bytes = some services) {i : Nat} {s : Service}
    (hs : services[i]? = some s) :
    ∃ entry, slice? bytes (4 + entrySize * i) entrySize = some entry ∧ s.IsReadFrom entry := by
  obtain ⟨hlong, rfl⟩ := eq_of_parse? h
  have hi : i < ofLittle (bytes.take 4) := by
    simpa using (List.getElem?_eq_some_iff.1 hs).1
  have hend : entrySize * i + entrySize ≤ entrySize * ofLittle (bytes.take 4) := by
    rw [← Nat.mul_succ]
    exact Nat.mul_le_mul_left _ hi
  rw [getElem?_entries hi, List.drop_drop] at hs
  obtain rfl := Option.some.inj hs
  refine ⟨(bytes.drop (4 + entrySize * i)).take entrySize, ?_, isReadFrom_decode ?_⟩
  · rw [slice?, if_pos (by omega)]
  · rw [List.length_take, List.length_drop]
    omega

/-! ### Names -/

/-- The first service of the name has the handle. -/
def Provides (services : List Service) (name : List UInt8) (handle : UInt32) : Prop :=
  ∃ before s after, services = before ++ s :: after ∧ s.name = name ∧ s.handle = handle ∧
    ∀ t ∈ before, t.name ≠ name

theorem find?_eq_some_iff {name : String} {handle : UInt32} :
    find? services name = some handle ↔ Provides services (Text.encode name) handle := by
  rw [find?, Option.map_eq_some_iff]
  constructor
  · rintro ⟨s, hfind, rfl⟩
    obtain ⟨hname, before, after, rfl, hbefore⟩ := List.find?_eq_some_iff_append.1 hfind
    exact ⟨before, s, after, rfl, by simpa using hname, rfl, by simpa using hbefore⟩
  · rintro ⟨before, s, after, rfl, hname, rfl, hbefore⟩
    refine ⟨s, List.find?_eq_some_iff_append.2 ⟨?_, before, after, rfl, ?_⟩, rfl⟩
    · simpa using hname
    · simpa using hbefore

theorem find?_eq_none_iff {name : String} :
    find? services name = none ↔ ∀ s ∈ services, s.name ≠ Text.encode name := by
  rw [find?, Option.map_eq_none_iff, List.find?_eq_none]
  simp

theorem zero_mem_encode {name : String} (h : '\x00' ∈ name.toList) : 0 ∈ Text.encode name := by
  rw [Text.encode_eq_flatMap]
  exact List.mem_flatMap.2 ⟨'\x00', h, List.mem_singleton.2 rfl⟩

/-- No service that is read off a list has a name with a zero, or one that is too long. -/
theorem find?_of_parse? (h : parse? bytes = some services) {name : String}
    (hname : '\x00' ∈ name.toList ∨ nameSize < (Text.encode name).length) :
    find? services name = none := by
  refine find?_eq_none_iff.2 fun s hs heq => ?_
  obtain ⟨i, hi⟩ := List.mem_iff_getElem?.1 hs
  obtain ⟨entry, -, hzero, padding, -, hlength, -⟩ := isReadFrom_of_parse? h hi
  rcases hname with hnul | hlong
  · exact hzero (heq ▸ zero_mem_encode hnul)
  · rw [← heq] at hlong
    omega

/-- A list with one name twice. -/
def twice : List Service :=
  [⟨Text.encode "fs:USER2", 1⟩, ⟨[], 2⟩, ⟨Text.encode "fs:USER2", 3⟩]

/-- Services are read back from their list, whatever follows it; a handle is the one of the first
    service of the name; and any other list is refused only if it is too short, and otherwise read
    entry by entry. -/
theorem parse?_services :
    (∀ (services : List Service) (trailing : List UInt8), services.length < 2 ^ 32 →
      (∀ s ∈ services, s.IsWritable) → parse? (block services ++ trailing) = some services) ∧
    (∀ (services : List Service) (name : String),
      (∀ handle, find? services name = some handle ↔
        Provides services (Text.encode name) handle) ∧
      (find? services name = none ↔ ∀ s ∈ services, s.name ≠ Text.encode name)) ∧
    ∀ bytes : List UInt8,
      (parse? bytes = none ↔
        bytes.length < 4 ∨ bytes.length < 4 + entrySize * ofLittle (bytes.take 4)) ∧
      ∀ services, parse? bytes = some services →
        (∃ kept, kept? bytes = some kept ∧ services.length = countIn kept ∧
          services.length = ofLittle (bytes.take 4)) ∧
        (∀ i s, services[i]? = some s → ∃ entry,
          slice? bytes (4 + entrySize * i) entrySize = some entry ∧ s.IsReadFrom entry) ∧
        ∀ name : String, '\x00' ∈ name.toList ∨ nameSize < (Text.encode name).length →
          find? services name = none := by
  refine ⟨fun services trailing hlength h => parse?_append hlength h trailing,
    fun services name => ⟨fun handle => find?_eq_some_iff, find?_eq_none_iff⟩,
    fun bytes => ⟨parse?_eq_none_iff, fun services h => ⟨?_, ?_, ?_⟩⟩⟩
  · obtain ⟨kept, hkept, hservices⟩ :=
      Option.map_eq_some_iff.1 ((parse?_eq_map_kept? bytes).symm.trans h)
    obtain ⟨-, hentries⟩ := eq_of_parse? h
    exact ⟨kept, hkept, by rw [← hservices, length_entries], by rw [hentries, length_entries]⟩
  · intro i s hs
    exact isReadFrom_of_parse? h hs
  · intro name hname
    exact find?_of_parse? h hname

/-- A name that fills its field and is given twice, an empty name, and a byte behind the list. -/
theorem parse?_services_twice :
    (∀ s ∈ twice, s.IsWritable) ∧ parse? (block twice ++ [7]) = some twice ∧
      find? twice "fs:USER2" = some 1 ∧ find? twice "fs:USER" = none := by
  have hwritable : ∀ s ∈ twice, s.IsWritable := by decide +kernel
  obtain ⟨hread, hfind, -⟩ := parse?_services
  refine ⟨hwritable, hread twice [7] (by decide) hwritable, ?_, ?_⟩
  · exact ((hfind twice "fs:USER2").1 1).2 ⟨[], _, _, rfl, rfl, rfl, List.forall_mem_nil _⟩
  · exact (hfind twice "fs:USER").2.2 (by decide +kernel)

end Services

end BootImage.Boot
