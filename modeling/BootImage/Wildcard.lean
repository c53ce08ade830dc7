import BootImage.Text.Utf8

/-! Wildcards for section names.

    A pattern is read as bytes: `*` stands for any run of them, `?` for exactly one, and every other
    byte for itself. A scan reads pattern and name from the left. It passes a `*` as if its run were
    empty, and where a byte does not fit it goes back behind the last `*`, whose run now takes one
    byte more. A run before the last one is not asked again.

        pattern   * a * b
                      ^   the last run
        name      x a c c b
                      |-|     what it has taken so far -/

namespace BootImage

/-- One part of a pattern. -/
inductive Wildcard.Piece where
  | run
  | single
  | byte (value : UInt8)
  deriving DecidableEq

/-- A pattern, as its parts in order. -/
abbrev Wildcard := List Wildcard.Piece

namespace Wildcard

/-- The part that a byte of a pattern stands for. -/
def Piece.ofByte (b : UInt8) : Piece :=
  if b = '*'.toUInt8 then .run else if b = '?'.toUInt8 then .single else .byte b

/-- Reads a pattern. -/
def ofString (pattern : String) : Wildcard := (Text.encode pattern).map .ofByte

/-- The piece may stand for this one byte. -/
def Piece.admits : Piece → UInt8 → Bool
  | .run, _ => true
  | .single, _ => true
  | .byte value, b => value == b

/-- A run that a scan has passed: its position in the pattern, and where in the name it ends. -/
structure Run where
  position : Nat
  stop : Nat
  deriving DecidableEq

/-- How far a scan has come: the parts of the pattern and the bytes of the name that are behind it,
    and the last run among those parts. -/
structure Scan where
  patternAt : Nat
  nameAt : Nat
  lastRun? : Option Run
  deriving DecidableEq

namespace Scan

variable (pattern : Wildcard) (name : List UInt8)

/-- A scan that has read nothing. -/
def start : Scan := ⟨0, 0, none⟩

/-- The scan goes back behind the last run, which takes one byte more. -/
def back? (s : Scan) : Option Scan :=
  s.lastRun?.map fun r => ⟨r.position + 1, r.stop + 1, some ⟨r.position, r.stop + 1⟩⟩

/-- One turn of the scan. It ends where the name is read, or where a byte does not fit and no run
    is there to take more. -/
def next? (s : Scan) : Option Scan :=
  match name[s.nameAt]?, pattern[s.patternAt]? with
  | none, _ => none
  | some _, some .run => some ⟨s.patternAt + 1, s.nameAt, some ⟨s.patternAt, s.nameAt⟩⟩
  | some b, some piece =>
    if piece.admits b then some ⟨s.patternAt + 1, s.nameAt + 1, s.lastRun?⟩ else s.back?
  | some _, none => s.back?

variable {pattern name}

/-- The byte at hand does not fit the part at hand, or there is no part left. -/
def Misfit (pattern : Wildcard) (name : List UInt8) (s : Scan) : Prop :=
  ∃ b, name[s.nameAt]? = some b ∧
    ∀ piece, pattern[s.patternAt]? = some piece → piece.admits b = false

/-- What one turn can do, with what it found there. -/
inductive Turn (pattern : Wildcard) (name : List UInt8) (s : Scan) : Scan → Prop
  | pass (hbyte : s.nameAt < name.length) (hrun : pattern[s.patternAt]? = some .run) :
      Turn pattern name s ⟨s.patternAt + 1, s.nameAt, some ⟨s.patternAt, s.nameAt⟩⟩
  | read {b : UInt8} {piece : Piece} (hbyte : name[s.nameAt]? = some b)
      (hpiece : pattern[s.patternAt]? = some piece) (hne : piece ≠ .run)
      (hadmits : piece.admits b = true) :
      Turn pattern name s ⟨s.patternAt + 1, s.nameAt + 1, s.lastRun?⟩
  | back {r : Run} (hmisfit : s.Misfit pattern name) (hlast : s.lastRun? = some r) :
      Turn pattern name s ⟨r.position + 1, r.stop + 1, some ⟨r.position, r.stop + 1⟩⟩

theorem Misfit.lt_length {s : Scan} (h : s.Misfit pattern name) : s.nameAt < name.length := by
  obtain ⟨b, hbyte, -⟩ := h
  exact (List.getElem?_eq_some_iff.1 hbyte).1

/-- A scan takes a turn, or ends with the name read, or ends at a byte that does not fit. -/
theorem next?_cases (pattern : Wildcard) (name : List UInt8) (s : Scan) :
    (∃ t, s.next? pattern name = some t ∧ s.Turn pattern name t) ∨
      s.next? pattern name = none ∧
        (name.length ≤ s.nameAt ∨ s.Misfit pattern name ∧ s.lastRun? = none) := by
  have hback (hmisfit : s.Misfit pattern name) (heq : s.next? pattern name = s.back?) :
      (∃ t, s.next? pattern name = some t ∧ s.Turn pattern name t) ∨
        s.next? pattern name = none ∧
          (name.length ≤ s.nameAt ∨ s.Misfit pattern name ∧ s.lastRun? = none) := by
    rw [heq, back?]
    cases hlast : s.lastRun? with
    | none => exact .inr ⟨rfl, .inr ⟨hmisfit, rfl⟩⟩
    | some r => exact .inl ⟨_, rfl, .back hmisfit hlast⟩
  cases hbyte : name[s.nameAt]? with
  | none => exact .inr ⟨by simp [next?, hbyte], .inl (List.getElem?_eq_none_iff.1 hbyte)⟩
  | some b =>
    cases hpiece : pattern[s.patternAt]? with
    | none => exact hback ⟨b, hbyte, by simp [hpiece]⟩ (by simp [next?, hbyte, hpiece])
    | some piece =>
      by_cases hrun : piece = .run
      · subst hrun
        have hlt := (List.getElem?_eq_some_iff.1 hbyte).1
        exact .inl ⟨_, by simp [next?, hbyte, hpiece], .pass hlt hpiece⟩
      · cases hadmits : piece.admits b with
        | true =>
          refine .inl ⟨_, ?_, .read hbyte hpiece hrun hadmits⟩
          rw [next?, hbyte, hpiece]
          simp [hadmits]
        | false =>
          refine hback ⟨b, hbyte, by simp [hpiece, hadmits]⟩ ?_
          rw [next?, hbyte, hpiece]
          simp [hadmits]

theorem turn_of_next? {s t : Scan} (h : s.next? pattern name = some t) :
    s.Turn pattern name t := by
  rcases next?_cases pattern name s with ⟨t', ht', hturn⟩ | ⟨hnone, -⟩
  · obtain rfl := Option.some.inj (h.symm.trans ht')
    exact hturn
  · rw [h] at hnone
    cases hnone

/-- An upper bound for the turns that are left: the last run can take so many bytes more, and each
    time the scan can go on to the end of the pattern. -/
def remaining (pattern : Wildcard) (name : List UInt8) (s : Scan) : Nat :=
  (name.length + 1 - s.lastRun?.elim 0 fun r => min r.stop s.nameAt + 1) * (pattern.length + 1) +
    (pattern.length - s.patternAt)

theorem remaining_lt {s t : Scan} (h : s.next? pattern name = some t) :
    t.remaining pattern name < s.remaining pattern name := by
  -- the last run takes more, or as much as before while the pattern is read further
  have hless : ∀ {a a' p p' : Nat}, a' < a ∧ p' ≤ pattern.length ∨ a' ≤ a ∧ p' < p →
      a' * (pattern.length + 1) + p' < a * (pattern.length + 1) + p := by
    rintro a a' p p' (⟨ha, hp⟩ | ⟨ha, hp⟩)
    · have := Nat.mul_le_mul_right (pattern.length + 1) (Nat.succ_le_of_lt ha)
      rw [Nat.succ_mul] at this
      omega
    · have := Nat.mul_le_mul_right (pattern.length + 1) ha
      omega
  unfold remaining
  apply hless
  cases turn_of_next? h with
  | pass hname hrun =>
    obtain ⟨hpattern, -⟩ := List.getElem?_eq_some_iff.1 hrun
    right
    cases s.lastRun? <;> simp <;> omega
  | read hbyte hpiece hne hadmits =>
    obtain ⟨hpattern, -⟩ := List.getElem?_eq_some_iff.1 hpiece
    right
    cases s.lastRun? <;> simp <;> omega
  | back hmisfit hlast =>
    have hname := hmisfit.lt_length
    left
    rw [hlast]
    simp
    omega

/-- Where the scan ends. -/
def last (pattern : Wildcard) (name : List UInt8) (s : Scan) : Scan :=
  match _h : s.next? pattern name with
  | none => s
  | some t => last pattern name t
termination_by s.remaining pattern name
decreasing_by exact remaining_lt _h

theorem last_of_none {s : Scan} (h : s.next? pattern name = none) : s.last pattern name = s := by
  rw [last]
  split
  · rfl
  · next ht =>
    rw [h] at ht
    cases ht

theorem last_of_some {s t : Scan} (h : s.next? pattern name = some t) :
    s.last pattern name = t.last pattern name := by
  rw [last]
  split
  · next hnone =>
    rw [h] at hnone
    cases hnone
  · next t' ht =>
    rw [Option.some.inj (h.symm.trans ht)]

/-- The name is read, and what is left of the pattern are runs, which may be empty. -/
def succeeds (pattern : Wildcard) (name : List UInt8) (s : Scan) : Bool :=
  name.length ≤ s.nameAt && (pattern.drop s.patternAt).all (· == .run)

end Scan

/-- The pattern matches the whole name. -/
def accepts (pattern : Wildcard) (name : List UInt8) : Bool :=
  (Scan.start.last pattern name).succeeds pattern name

end Wildcard

end BootImage
