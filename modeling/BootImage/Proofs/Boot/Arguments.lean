import BootImage.Boot.Arguments
import BootImage.Proofs.Bytes
import Mathlib.Algebra.Ring.Nat

/-! What is read off an argument block.

    The reader is made in one pass that looks for as many terminators as the block counts, and the
    arguments are cut off its bytes in a second pass. Both passes end an argument at its first zero
    byte. So the bytes that the first pass keeps are those of some arguments without a zero, each
    with its terminator, and the second pass cuts off exactly these. The main statement is
    `Arguments.parse?_block`.

        03 00 00 00   61 62 00   00   63 00   64 ..
        count = 3     "ab"       ""   "c"     what follows is not looked at

    A block is refused if it has no count, or fewer zero bytes behind the count than it says. -/

namespace BootImage.Boot.Arguments

open Bytes

/-- The bytes of arguments, each with its terminator. -/
def terminated (arguments : List (List UInt8)) : List UInt8 := arguments.flatMap (· ++ [0])

/-- No argument has a zero byte. -/
def ZeroFree (arguments : List (List UInt8)) : Prop := ∀ x ∈ arguments, 0 ∉ x

/-- The reader of these arguments. -/
def of (arguments : List (List UInt8)) : Arguments := ⟨arguments.length, terminated arguments⟩

/-- Taking one argument after the other until there is none gives this list. -/
inductive Yields : Arguments → List (List UInt8) → Prop where
  | none {a : Arguments} : a.next? = .none → Yields a []
  | some {a b : Arguments} {x : List UInt8} {xs : List (List UInt8)} :
    a.next? = .some (x, b) → Yields b xs → Yields a (x :: xs)

variable {arguments : List (List UInt8)} {x bytes : List UInt8} {count : Nat}

theorem terminated_cons (x : List UInt8) (xs : List (List UInt8)) :
    terminated (x :: xs) = x ++ 0 :: terminated xs := by
  rw [terminated, List.flatMap_cons, List.append_assoc]
  rfl

/-- A block is its count and the bytes of its arguments. -/
theorem block_eq (arguments : List (List UInt8)) :
    block arguments = little 4 arguments.length ++ terminated arguments := rfl

/-! ### The bytes that are kept -/

/-- A string is kept up to its terminator. -/
theorem terminated?_string (hx : 0 ∉ x) (count : Nat) (rest : List UInt8) :
    terminated? (count + 1) (x ++ 0 :: rest) = (terminated? count rest).map (x ++ 0 :: ·) := by
  induction x with
  | nil => rfl
  | cons b x ih =>
    obtain ⟨hb, hx⟩ := not_or.1 (mt List.mem_cons.2 hx)
    have hne : ¬ b = 0 := fun h => hb h.symm
    rw [List.cons_append, terminated?, if_neg hne, ih hx, Option.map_map]
    rfl

/-- The bytes of arguments are kept, whatever follows them. -/
theorem terminated?_terminated (h : ZeroFree arguments) (rest : List UInt8) :
    terminated? arguments.length (terminated arguments ++ rest) = some (terminated arguments) := by
  induction arguments with
  | nil => rw [List.length_nil, terminated?, terminated, List.flatMap_nil]
  | cons x xs ih =>
    obtain ⟨hx, hxs⟩ := List.forall_mem_cons.1 h
    rw [terminated_cons, List.length_cons, List.append_assoc, List.cons_append,
      terminated?_string hx, ih hxs, Option.map_some]

/-- Bytes are refused if they hold fewer terminators than strings are asked for. -/
theorem terminated?_eq_none_iff : terminated? count bytes = none ↔ bytes.count 0 < count := by
  fun_induction terminated? count bytes with
  | case1 bytes => simp
  | case2 count => simp
  | case3 count b rest ih =>
    rw [Option.map_eq_none_iff, ih]
    by_cases hb : b = 0
    · rw [if_pos hb, hb, List.count_cons_self]
      omega
    · rw [if_neg hb, List.count_cons_of_ne hb]

/-- Bytes with enough terminators start with so many arguments. -/
theorem exists_terminated (h : count ≤ bytes.count 0) : ∃ arguments rest,
    ZeroFree arguments ∧ arguments.length = count ∧ bytes = terminated arguments ++ rest := by
  induction count generalizing bytes with
  | zero => exact ⟨[], bytes, List.forall_mem_nil _, rfl, rfl⟩
  | succ count ih =>
    have hzero : 0 ∈ bytes := List.count_pos_iff.1 (Nat.lt_of_lt_of_le count.succ_pos h)
    obtain ⟨x, behind, rfl, hx⟩ := List.eq_append_cons_of_mem hzero
    have hbehind : count ≤ behind.count 0 := by
      rw [List.count_append, List.count_cons_self, List.count_eq_zero.2 hx] at h
      omega
    obtain ⟨arguments, rest, hfree, hlength, rfl⟩ := ih hbehind
    refine ⟨x :: arguments, rest, List.forall_mem_cons.2 ⟨hx, hfree⟩, ?_, ?_⟩
    · rw [List.length_cons, hlength]
    · rw [terminated_cons, List.append_assoc, List.cons_append]

/-! ### The reader -/

/-- The first argument is cut off. -/
theorem next?_of_cons (hx : 0 ∉ x) (xs : List (List UInt8)) :
    (of (x :: xs)).next? = some (x, of xs) := by
  have hlength : ¬ (x :: xs).length = 0 := Nat.succ_ne_zero _
  have hdrop : (x ++ 0 :: terminated xs).drop x.length = 0 :: terminated xs := List.drop_left
  simp only [next?, of, if_neg hlength, terminated_cons, takeWhile_terminated hx, hdrop]
  rfl

/-- The reader of arguments yields them. -/
theorem yields_of (h : ZeroFree arguments) : (of arguments).Yields arguments := by
  induction arguments with
  | nil => exact .none rfl
  | cons x xs ih =>
    obtain ⟨hx, hxs⟩ := List.forall_mem_cons.1 h
    exact .some (next?_of_cons hx xs) (ih hxs)

/-! ### The block -/

/-- Behind its count, a block is read as many strings as it counts. -/
theorem parse?_eq (h : 4 ≤ bytes.length) : parse? bytes =
    (terminated? (ofLittle (bytes.take 4)) (bytes.drop 4)).map (⟨ofLittle (bytes.take 4), ·⟩) := by
  obtain ⟨count, hword, hcount⟩ := exists_word? (by omega : 0 + 4 ≤ bytes.length)
  rw [List.drop_zero] at hcount
  rw [parse?, hword, Option.bind_eq_bind, Option.bind_some, hcount]
  cases terminated? (ofLittle (bytes.take 4)) (bytes.drop 4) with
  | none => rfl
  | some strings => rfl

/-- The reader of a block that starts with the block of arguments is the reader of these. -/
theorem parse?_append (hlength : arguments.length < 2 ^ 32) (h : ZeroFree arguments)
    (trailing : List UInt8) : parse? (block arguments ++ trailing) = some (of arguments) := by
  have hcount : (little 4 arguments.length).length = 4 := length_little 4 arguments.length
  have htake : (block arguments ++ trailing).take 4 = little 4 arguments.length := by
    rw [block_eq, List.append_assoc, List.take_left' hcount]
  have hdrop : (block arguments ++ trailing).drop 4 = terminated arguments ++ trailing := by
    rw [block_eq, List.append_assoc, List.drop_left' hcount]
  have hlong : 4 ≤ (block arguments ++ trailing).length := by
    rw [block_eq, List.length_append, List.length_append, hcount]
    omega
  rw [parse?_eq hlong, htake, hdrop, ofLittle_little hlength, terminated?_terminated h]
  rfl

/-- A block is refused if it has no count, or fewer terminators behind it than the count says. -/
theorem parse?_eq_none_iff : parse? bytes = none ↔
    bytes.length < 4 ∨ (bytes.drop 4).count 0 < ofLittle (bytes.take 4) := by
  by_cases hlength : bytes.length < 4
  · have hnone : parse? bytes = none := by
      rw [parse?, word?_eq_none (by omega)]
      rfl
    exact iff_of_true hnone (.inl hlength)
  · rw [parse?_eq (Nat.not_lt.1 hlength), Option.map_eq_none_iff, terminated?_eq_none_iff]
    exact (or_iff_right hlength).symm

/-- A block that is not refused is read as arguments without zeros, as many as it counts, and it
    starts with the block of these. -/
theorem exists_of_parse? {a : Arguments} (h : parse? bytes = some a) : ∃ arguments,
    a = of arguments ∧ ZeroFree arguments ∧ arguments.length = ofLittle (bytes.take 4) ∧
      block arguments <+: bytes := by
  have hsome : ¬ parse? bytes = none := by simp [h]
  rw [parse?_eq_none_iff, not_or, Nat.not_lt, Nat.not_lt] at hsome
  obtain ⟨hlength, hcount⟩ := hsome
  obtain ⟨arguments, rest, hfree, hlen, hdrop⟩ := exists_terminated hcount
  have hstart : block arguments ++ rest = bytes := by
    have hword := little_ofLittle (bytes.take 4)
    rw [List.length_take_of_le hlength, ← hlen] at hword
    rw [block_eq, List.append_assoc, ← hdrop, hword, List.take_append_drop]
  have hlt : arguments.length < 2 ^ 32 := by
    obtain ⟨count, -, hword⟩ := exists_word? (by omega : 0 + 4 ≤ bytes.length)
    rw [hlen, ← List.drop_zero (l := bytes), ← hword]
    exact count.toNat_lt
  rw [← hstart, parse?_append hlt hfree] at h
  exact ⟨arguments, (Option.some.inj h).symm, hfree, hlen, rest, hstart⟩

/-- Arguments are read back from their block, whatever follows it; a block is refused only if its
    count or one of the strings that it counts is missing; and what is read off any other block is
    what it starts with. -/
theorem parse?_block :
    (∀ (arguments : List (List UInt8)) (trailing : List UInt8), arguments.length < 2 ^ 32 →
      ZeroFree arguments →
      ∃ a, parse? (block arguments ++ trailing) = some a ∧ a.Yields arguments) ∧
    ∀ bytes : List UInt8,
      (parse? bytes = none ↔
        bytes.length < 4 ∨ (bytes.drop 4).count 0 < ofLittle (bytes.take 4)) ∧
      ∀ a, parse? bytes = some a → ∃ arguments, a.Yields arguments ∧
        arguments.length = ofLittle (bytes.take 4) ∧ ZeroFree arguments ∧
        block arguments <+: bytes := by
  refine ⟨fun arguments trailing hlength hfree =>
    ⟨of arguments, parse?_append hlength hfree trailing, yields_of hfree⟩,
    fun bytes => ⟨parse?_eq_none_iff, fun a ha => ?_⟩⟩
  obtain ⟨arguments, rfl, hfree, hlen, hprefix⟩ := exists_of_parse? ha
  exact ⟨arguments, yields_of hfree, hlen, hfree, hprefix⟩

/-- Two arguments, one of them empty, with a third string behind them that the block does not
    count. -/
theorem parse?_block_empty : ∃ a,
    parse? ([2, 0, 0, 0] ++ [0x61, 0x62, 0] ++ [0] ++ [0x63, 0]) = some a ∧
      a.Yields [[0x61, 0x62], []] :=
  parse?_block.1 [[0x61, 0x62], []] [0x63, 0] (by decide) (by simp [ZeroFree])

end BootImage.Boot.Arguments
