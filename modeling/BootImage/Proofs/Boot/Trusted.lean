import BootImage.Proofs.Boot.Reader
import BootImage.Proofs.Boot.Services

/-! Blocks that are trusted.

    A block in memory has no length. It is trusted to hold as much as its count says, and read on
    until all of that is found. Where the block passes the check, both readings give the same, and
    they look at the same bytes: the check refuses any shorter block, and whatever else stands in
    memory is not looked at. The main statement is `readsAlike_ofTrusted`.

        01 00 00 00   61 62 00   63 ..
        count = 1     "ab"       may be anything, or not be there -/

namespace BootImage.Boot

open Bytes

/-- What a block is trusted to be is what it is found to be, and both readings look at its first
    `n` bytes. -/
structure ReadsAlike {α : Type} (parse? : List UInt8 → Option α) (trusted : List UInt8 → α)
    (block : List UInt8) (value : α) (n : Nat) : Prop where
  same : trusted block = value
  /-- The check looks at so many bytes. -/
  enough : n ≤ block.length ∧ parse? (block.take n) = some value
  /-- It looks at all of them. -/
  needed : ∀ m < n, parse? (block.take m) = none
  /-- Trust looks at no others. -/
  memory : ∀ bytes : List UInt8, bytes.take n = block.take n → trusted bytes = value

/-! ### Arguments -/

namespace Arguments

variable {arguments : List (List UInt8)} {a : Arguments} {bytes : List UInt8}

theorem length_block (arguments : List (List UInt8)) :
    (block arguments).length = 4 + (terminated arguments).length := by
  rw [block_eq, List.length_append, length_little]

/-- The bytes of arguments are scanned, whatever follows them. -/
theorem scan_terminated (h : ZeroFree arguments) (rest : List UInt8) :
    scan arguments.length (terminated arguments ++ rest) = terminated arguments := by
  induction arguments with
  | nil => rfl
  | cons x xs ih =>
    obtain ⟨hx, hxs⟩ := List.forall_mem_cons.1 h
    have hdrop : (x ++ 0 :: (terminated xs ++ rest)).drop (x.length + 1) =
        terminated xs ++ rest := by simp
    rw [terminated_cons, List.append_assoc, List.cons_append, List.length_cons, scan,
      takeWhile_terminated hx, hdrop, ih hxs]

theorem ofTrusted_append (hlength : arguments.length < 2 ^ 32) (h : ZeroFree arguments)
    (rest : List UInt8) : ofTrusted (block arguments ++ rest) = of arguments := by
  rw [ofTrusted, block_eq, List.append_assoc, take_little_append, drop_little_append,
    ofLittle_little hlength, scan_terminated h]
  rfl

/-- In fewer bytes than those of the arguments a terminator is missing. -/
theorem count_take_terminated (h : ZeroFree arguments) {k : Nat}
    (hk : k < (terminated arguments).length) :
    ((terminated arguments).take k).count 0 < arguments.length := by
  have hcount := count_terminated h
  rcases terminated_ended arguments with hnil | hlast
  · simp [hnil] at hk
  · obtain ⟨front, hfront⟩ := List.getLast?_eq_some_iff.1 hlast
    rw [hfront] at hk hcount ⊢
    have hle : k ≤ front.length := by simpa [Nat.lt_succ_iff] using hk
    have hpart : (front.take k).count 0 ≤ front.count 0 := (List.take_sublist k front).count_le 0
    rw [List.take_append_of_le_length hle]
    rw [List.count_append, List.count_singleton_self] at hcount
    omega

/-- Fewer bytes than a block of arguments are refused. -/
theorem parse?_take_block (hlength : arguments.length < 2 ^ 32) (h : ZeroFree arguments) {m : Nat}
    (hm : m < (block arguments).length) : parse? ((block arguments).take m) = none := by
  rw [length_block] at hm
  rw [parse?_eq_none_iff]
  rcases Nat.lt_or_ge m 4 with hshort | hlong
  · left
    rw [List.length_take]
    omega
  · right
    have hword : ((block arguments).take m).take 4 = little 4 arguments.length := by
      rw [List.take_take, Nat.min_eq_left hlong, block_eq, take_little_append]
    have hrest : ((block arguments).take m).drop 4 = (terminated arguments).take (m - 4) := by
      rw [List.drop_take, block_eq, drop_little_append]
    rw [hword, hrest, ofLittle_little hlength]
    exact count_take_terminated h (by omega)

/-- The bytes of a reader are those behind the count of its block. -/
theorem holds_of_parse? (h : parse? bytes = some a) : Holds bytes 4 a.strings := by
  obtain ⟨arguments, rfl, -, -, rest, rfl⟩ := exists_of_parse? h
  exact ⟨little 4 arguments.length, rest, by rw [block_eq]; rfl, length_little 4 _⟩

/-- A block that passes the check is read alike when it is trusted. -/
theorem readsAlike_of_parse? (h : parse? bytes = some a) :
    ReadsAlike parse? ofTrusted bytes a (4 + a.strings.length) := by
  obtain ⟨arguments, rfl, hfree, hcount, hblock⟩ := exists_of_parse? h
  have hlength : arguments.length < 2 ^ 32 := hcount ▸ ofLittle_take_lt_capacity 4 bytes
  have hsize : (block arguments).length = 4 + (of arguments).strings.length :=
    length_block arguments
  have htake : bytes.take (4 + (of arguments).strings.length) = block arguments := by
    rw [← hsize]
    exact (List.prefix_iff_eq_take.1 hblock).symm
  have hmemory : ∀ memory : List UInt8, memory.take (4 + (of arguments).strings.length) =
      bytes.take (4 + (of arguments).strings.length) → ofTrusted memory = of arguments := by
    intro memory hsame
    rw [← List.take_append_drop (4 + (of arguments).strings.length) memory, hsame, htake]
    exact ofTrusted_append hlength hfree _
  refine ⟨hmemory bytes rfl, ⟨hsize ▸ hblock.length_le, ?_⟩, fun m hm => ?_, hmemory⟩
  · rw [htake]
    simpa using parse?_append hlength hfree []
  · have hpart : bytes.take m = (block arguments).take m := by
      rw [← htake, List.take_take, Nat.min_eq_left hm.le]
    rw [hpart]
    exact parse?_take_block hlength hfree (by omega)

end Arguments

/-! ### Services -/

namespace Services

open Service

variable {services : List Service} {bytes : List UInt8}

/-- The count stands in the first bytes. -/
theorem take_four_take {n : Nat} (h : 4 ≤ n) (bytes : List UInt8) :
    (bytes.take n).take 4 = bytes.take 4 := by
  rw [List.take_take, Nat.min_eq_left h]

/-- What is behind the entries that a list counts is not looked at. -/
theorem ofTrusted_take (bytes : List UInt8) :
    ofTrusted (bytes.take (4 + entrySize * ofLittle (bytes.take 4))) = ofTrusted bytes := by
  rw [ofTrusted, ofTrusted, take_four_take (by omega), List.drop_take, entries_take (by omega)]

/-- A list that passes the check is read alike when it is trusted. -/
theorem readsAlike_of_parse? (h : parse? bytes = some services) :
    ReadsAlike parse? ofTrusted bytes services (4 + entrySize * services.length) := by
  obtain ⟨hlong, rfl⟩ := eq_of_parse? h
  rw [length_entries]
  generalize hn : 4 + entrySize * ofLittle (bytes.take 4) = n at *
  have hlength : (bytes.take n).length = n := List.length_take_of_le hlong
  have hcount : ofLittle ((bytes.take n).take 4) = ofLittle (bytes.take 4) := by
    rw [take_four_take (by omega)]
  refine ⟨rfl, ⟨hlong, ?_⟩, fun m hm => ?_, fun memory hsame => ?_⟩
  · have htrusted : ofTrusted (bytes.take n) = ofTrusted bytes := by rw [← hn, ofTrusted_take]
    rw [parse?_eq (by rw [hcount, hn, hlength])]
    exact congrArg some htrusted
  · rw [parse?_eq_none_iff, List.length_take_of_le (by omega)]
    rcases Nat.lt_or_ge m 4 with hshort | hmore
    · exact .inl hshort
    · rw [take_four_take hmore, hn]
      exact .inr hm
  · have hfour : memory.take 4 = bytes.take 4 := by
      rw [← take_four_take (by omega : 4 ≤ n) memory, hsame, take_four_take (by omega)]
    have hmemory := ofTrusted_take memory
    have hbytes := ofTrusted_take bytes
    rw [hfour, hn, hsame] at hmemory
    rw [hn] at hbytes
    rw [← hmemory, hbytes]
    rfl

end Services

/-- Arguments and services that pass the check are read alike when they are trusted: the reader of
    arguments has the same count and the same bytes, which are bytes of the block, and the services
    are the same. Nothing behind what the check looks at is looked at. -/
theorem readsAlike_ofTrusted :
    (∀ (block : List UInt8) (a : Arguments), Arguments.parse? block = some a →
      ReadsAlike Arguments.parse? Arguments.ofTrusted block a (4 + a.strings.length) ∧
        Holds block 4 a.strings) ∧
    ∀ (block : List UInt8) (services : List Service), Services.parse? block = some services →
      ReadsAlike Services.parse? Services.ofTrusted block services
        (4 + Service.entrySize * services.length) :=
  ⟨fun _ _ h => ⟨Arguments.readsAlike_of_parse? h, Arguments.holds_of_parse? h⟩,
    fun _ _ h => Services.readsAlike_of_parse? h⟩

/-- In memory, other bytes stand behind a block than where it was checked. -/
theorem readsAlike_ofTrusted_behind :
    Arguments.parse? [1, 0, 0, 0, 0x61, 0x62, 0, 0x63] = some ⟨1, [0x61, 0x62, 0]⟩ ∧
    Arguments.ofTrusted [1, 0, 0, 0, 0x61, 0x62, 0, 0xff, 0] = ⟨1, [0x61, 0x62, 0]⟩ ∧
    Services.parse? [0, 0, 0, 0, 0x61] = some [] ∧
    Services.ofTrusted [0, 0, 0, 0] = [] := by
  have harguments : Arguments.parse? [1, 0, 0, 0, 0x61, 0x62, 0, 0x63] =
      some ⟨1, [0x61, 0x62, 0]⟩ := by decide
  have hservices : Services.parse? [0, 0, 0, 0, 0x61] = some [] := by decide
  exact ⟨harguments, (readsAlike_ofTrusted.1 _ _ harguments).1.memory _ rfl, hservices,
    (readsAlike_ofTrusted.2 _ _ hservices).memory _ rfl⟩

end BootImage.Boot
