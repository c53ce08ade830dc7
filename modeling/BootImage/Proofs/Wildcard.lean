import BootImage.Layout.Basic
import Mathlib.Data.List.Basic

/-! What wildcards match.

    A pattern of bytes stands for names by recursion on the pattern; `Denotes` says so without any
    scan. The scan remembers one run only. That is enough: since that run every part of the pattern
    took one byte, so whatever an earlier run could still take, the last run can take in its place.
    The main statement is `Wildcard.accepts_iff_denotes_and_ends`.

        pattern   a * b c * d
                        ^ mid ^ patternAt       mid has no run: one byte for each part
        name      a x y b c z d

    Each turn either reads on in the pattern or gives the last run a byte more, so a scan ends. -/

namespace BootImage.Wildcard

/-! ### The names that a pattern stands for -/

/-- The names that a pattern of bytes stands for. -/
def Denotes : List UInt8 → List UInt8 → Prop
  | [], name => name = []
  | c :: rest, name =>
    if c = '*'.toUInt8 then ∃ suffix, suffix <:+ name ∧ Denotes rest suffix
    else if c = '?'.toUInt8 then ∃ b tail, name = b :: tail ∧ Denotes rest tail
    else ∃ tail, name = c :: tail ∧ Denotes rest tail

/-- The names that the parts of a pattern stand for; a run takes any number of bytes. -/
def Matches : Wildcard → List UInt8 → Prop
  | [], name => name = []
  | .run :: rest, name => ∃ k, Matches rest (name.drop k)
  | piece :: rest, name => ∃ b tail, name = b :: tail ∧ piece.admits b = true ∧ Matches rest tail

variable {pattern rest : Wildcard} {name : List UInt8}

@[simp] theorem matches_nil_iff : Matches [] name ↔ name = [] := Iff.rfl

theorem matches_run_iff : Matches (.run :: rest) name ↔ ∃ k, Matches rest (name.drop k) := Iff.rfl

theorem matches_cons_iff {piece : Piece} (hne : piece ≠ .run) :
    Matches (piece :: rest) name ↔
      ∃ b tail, name = b :: tail ∧ piece.admits b = true ∧ Matches rest tail := by
  cases piece with
  | run => exact absurd rfl hne
  | single => rfl
  | byte value => rfl

/-- The parts of a pattern stand for the names that its bytes stand for. -/
theorem matches_map_ofByte_iff (p n : List UInt8) : Matches (p.map .ofByte) n ↔ Denotes p n := by
  induction p generalizing n with
  | nil => rfl
  | cons c rest ih =>
    rw [List.map_cons, Denotes]
    by_cases hrun : c = '*'.toUInt8
    · rw [if_pos hrun, Piece.ofByte, if_pos hrun, matches_run_iff]
      constructor
      · rintro ⟨k, hk⟩
        exact ⟨n.drop k, List.drop_suffix k n, (ih _).1 hk⟩
      · rintro ⟨suffix, hsuffix, hrest⟩
        refine ⟨n.length - suffix.length, (ih _).2 ?_⟩
        rwa [← List.suffix_iff_eq_drop.1 hsuffix]
    · rw [if_neg hrun, Piece.ofByte, if_neg hrun]
      by_cases hsingle : c = '?'.toUInt8
      · rw [if_pos hsingle, if_pos hsingle, matches_cons_iff (by simp)]
        simp [Piece.admits, ih]
      · rw [if_neg hsingle, if_neg hsingle, matches_cons_iff (by simp)]
        constructor
        · rintro ⟨b, tail, rfl, hb, htail⟩
          exact ⟨tail, by rw [beq_iff_eq.1 hb], (ih _).1 htail⟩
        · rintro ⟨tail, rfl, htail⟩
          exact ⟨c, tail, rfl, beq_self_eq_true c, (ih _).2 htail⟩

/-- A pattern without wildcards stands for itself alone. -/
theorem denotes_iff_eq {p n : List UInt8} (hrun : '*'.toUInt8 ∉ p) (hsingle : '?'.toUInt8 ∉ p) :
    Denotes p n ↔ n = p := by
  induction p generalizing n with
  | nil => rfl
  | cons c rest ih =>
    rw [List.mem_cons, not_or] at hrun hsingle
    rw [Denotes, if_neg (Ne.symm hrun.1), if_neg (Ne.symm hsingle.1)]
    simp only [ih hrun.2 hsingle.2]
    constructor
    · rintro ⟨tail, rfl, rfl⟩
      rfl
    · rintro rfl
      exact ⟨rest, rfl, rfl⟩

/-- Every pattern stands for itself, also one with wildcards. -/
theorem denotes_self (p : List UInt8) : Denotes p p := by
  induction p with
  | nil => rfl
  | cons c rest ih =>
    rw [Denotes]
    split
    · exact ⟨rest, List.suffix_cons c rest, ih⟩
    · split
      · exact ⟨c, rest, rfl, ih⟩
      · exact ⟨rest, rfl, ih⟩

/-- A pattern whose only wildcard is a run at its end stands for
    the names that start with the rest. -/
theorem denotes_append_run_iff {p n : List UInt8} (hrun : '*'.toUInt8 ∉ p)
    (hsingle : '?'.toUInt8 ∉ p) : Denotes (p ++ ['*'.toUInt8]) n ↔ p <+: n := by
  induction p generalizing n with
  | nil =>
    rw [List.nil_append, Denotes, if_pos rfl]
    exact ⟨fun _ => List.nil_prefix, fun _ => ⟨[], List.nil_suffix, rfl⟩⟩
  | cons c rest ih =>
    rw [List.mem_cons, not_or] at hrun hsingle
    rw [List.cons_append, Denotes, if_neg (Ne.symm hrun.1), if_neg (Ne.symm hsingle.1)]
    simp only [ih hrun.2 hsingle.2]
    constructor
    · rintro ⟨tail, rfl, hrest⟩
      exact List.cons_prefix_cons.2 ⟨rfl, hrest⟩
    · rintro ⟨tail, rfl⟩
      exact ⟨rest ++ tail, rfl, List.prefix_append rest tail⟩

/-- Some names that the parts of a pattern stand for may start with these bytes. -/
def mayStart : Wildcard → List UInt8 → Bool
  | _, [] => true
  | [], _ :: _ => false
  | .run :: _, _ :: _ => true
  | piece :: rest, b :: start => piece.admits b && mayStart rest start

/-- No others start with them. -/
theorem Matches.mayStart : ∀ {pattern : Wildcard} {start name : List UInt8},
    Matches pattern name → start <+: name → pattern.mayStart start = true
  | _, [], _, _, _ => by simp [Wildcard.mayStart]
  | [], _ :: _, _, h, hstart => by
    rw [matches_nil_iff.1 h] at hstart
    simp at hstart
  | piece :: rest, b :: start, name, h, hstart => by
    by_cases hrun : piece = .run
    · rw [hrun, Wildcard.mayStart]
    · obtain ⟨c, tail, rfl, hadmits, htail⟩ := (matches_cons_iff hrun).1 h
      obtain ⟨rfl, hbehind⟩ := List.cons_prefix_cons.1 hstart
      rw [Wildcard.mayStart, hadmits, htail.mayStart hbehind, Bool.and_self]
      exact hrun

/-- Parts without a run take one byte each. -/
theorem Matches.of_append {mid : Wildcard} (hmid : ∀ piece ∈ mid, piece ≠ .run)
    (h : Matches (mid ++ rest) name) : Matches rest (name.drop mid.length) := by
  induction mid generalizing name with
  | nil => exact h
  | cons piece mid ih =>
    rw [List.cons_append, matches_cons_iff (hmid piece List.mem_cons_self)] at h
    obtain ⟨b, tail, rfl, -, htail⟩ := h
    exact ih (fun p hp => hmid p (List.mem_cons_of_mem _ hp)) htail

/-- A run takes also what was dropped in front of it. -/
theorem Matches.run_of_drop {k : Nat} (h : Matches (.run :: rest) (name.drop k)) :
    Matches (.run :: rest) name := by
  obtain ⟨j, hj⟩ := h
  rw [List.drop_drop] at hj
  exact ⟨k + j, hj⟩

/-- Only runs stand for the empty name. -/
theorem matches_empty_iff : Matches pattern [] ↔ pattern.all (· == .run) = true := by
  induction pattern with
  | nil => simp
  | cons piece rest ih =>
    by_cases hrun : piece = .run
    · simp [hrun, matches_run_iff, ih]
    · simp [matches_cons_iff hrun, hrun]

namespace Scan

variable {s t : Scan}

/-! ### What one turn keeps -/

/-- The scan stands inside the pattern and the name, and since the last run it has read parts that
    are no runs, and one byte for each. -/
structure Valid (pattern : Wildcard) (name : List UInt8) (s : Scan) : Prop where
  patternAt_le : s.patternAt ≤ pattern.length
  nameAt_le : s.nameAt ≤ name.length
  since : ∀ r, s.lastRun? = some r → ∃ mid : Wildcard, (∀ piece ∈ mid, piece ≠ .run) ∧
    pattern.drop (r.position + 1) = mid ++ pattern.drop s.patternAt ∧
    s.patternAt = r.position + 1 + mid.length ∧ s.nameAt = r.stop + mid.length

theorem valid_start : Valid pattern name start where
  patternAt_le := Nat.zero_le _
  nameAt_le := Nat.zero_le _
  since := fun _ h => by cases h

/-- Directly behind its last run a scan has read nothing since. -/
theorem valid_behind {r : Run} (hpattern : r.position + 1 ≤ pattern.length)
    (hname : r.stop ≤ name.length) : Valid pattern name ⟨r.position + 1, r.stop, some r⟩ where
  patternAt_le := hpattern
  nameAt_le := hname
  since := by
    rintro _ ⟨⟩
    exact ⟨[], by simp, rfl, rfl, rfl⟩

theorem Valid.turn (h : s.Valid pattern name) (hturn : s.Turn pattern name t) :
    t.Valid pattern name := by
  cases hturn with
  | pass hname hrun =>
    obtain ⟨hpattern, -⟩ := List.getElem?_eq_some_iff.1 hrun
    exact valid_behind (r := ⟨s.patternAt, s.nameAt⟩) hpattern h.nameAt_le
  | @read b piece hbyte hpiece hne hadmits =>
    obtain ⟨hname, -⟩ := List.getElem?_eq_some_iff.1 hbyte
    obtain ⟨hpattern, hget⟩ := List.getElem?_eq_some_iff.1 hpiece
    refine ⟨hpattern, hname, fun r hr => ?_⟩
    obtain ⟨mid, hmid, hdrop, hlength, hstop⟩ := h.since r hr
    refine ⟨mid ++ [piece], ?_, ?_, ?_, ?_⟩
    · intro p hp
      rcases List.mem_append.1 hp with hp | hp
      · exact hmid p hp
      · exact List.mem_singleton.1 hp ▸ hne
    · rw [hdrop, List.drop_eq_getElem_cons hpattern, hget, List.append_assoc]
      rfl
    · simp [hlength, Nat.add_assoc]
    · simp [hstop, Nat.add_assoc]
  | @back r hmisfit hlast =>
    obtain ⟨mid, -, -, hlength, hstop⟩ := h.since r hlast
    have hpattern := h.patternAt_le
    have hname := hmisfit.lt_length
    exact valid_behind (r := ⟨r.position, r.stop + 1⟩) (by simp only; omega) (by simp only; omega)

/-! ### What is left to decide -/

/-- The name can still be matched: from where the scan stands, or if its last run takes more. -/
def IsOpen (pattern : Wildcard) (name : List UInt8) (s : Scan) : Prop :=
  Matches (pattern.drop s.patternAt) (name.drop s.nameAt) ∨
    ∃ r, s.lastRun? = some r ∧
      ∃ k, r.stop < k ∧ Matches (pattern.drop (r.position + 1)) (name.drop k)

/-- If the last run takes more, what was read since is read later in the name. -/
theorem Valid.matches_later (h : s.Valid pattern name) {r : Run} (hr : s.lastRun? = some r)
    {k : Nat} (hk : r.stop < k) (hmatches : Matches (pattern.drop (r.position + 1)) (name.drop k)) :
    Matches (pattern.drop s.patternAt) ((name.drop s.nameAt).drop (k - r.stop)) := by
  obtain ⟨mid, hmid, hdrop, -, hstop⟩ := h.since r hr
  rw [hdrop] at hmatches
  have hrest := hmatches.of_append hmid
  rwa [List.drop_drop, show k + mid.length = s.nameAt + (k - r.stop) by omega,
    ← List.drop_drop (i := k - r.stop)] at hrest

/-- Where a byte does not fit, there is no way on from here. -/
theorem Misfit.not_matches (h : s.Misfit pattern name) :
    ¬ Matches (pattern.drop s.patternAt) (name.drop s.nameAt) := by
  obtain ⟨b, hbyte, hmisfit⟩ := h
  obtain ⟨hname, hget⟩ := List.getElem?_eq_some_iff.1 hbyte
  rw [List.drop_eq_getElem_cons hname, hget]
  cases hpiece : pattern[s.patternAt]? with
  | none =>
    rw [List.drop_eq_nil_iff.2 (List.getElem?_eq_none_iff.1 hpiece), matches_nil_iff]
    exact List.cons_ne_nil _ _
  | some piece =>
    obtain ⟨hpattern, hget⟩ := List.getElem?_eq_some_iff.1 hpiece
    have hfalse := hmisfit piece hpiece
    have hne : piece ≠ .run := by
      rintro rfl
      cases hfalse
    rw [List.drop_eq_getElem_cons hpattern, hget, matches_cons_iff hne]
    rintro ⟨_, _, ⟨⟩, hadmits, -⟩
    rw [hfalse] at hadmits
    cases hadmits

/-- A turn neither opens nor closes a way to match the name. -/
theorem isOpen_turn (h : s.Valid pattern name) (hturn : s.Turn pattern name t) :
    s.IsOpen pattern name ↔ t.IsOpen pattern name := by
  cases hturn with
  | pass hname hrun =>
    obtain ⟨hpattern, hget⟩ := List.getElem?_eq_some_iff.1 hrun
    have hcut : pattern.drop s.patternAt = .run :: pattern.drop (s.patternAt + 1) := by
      rw [List.drop_eq_getElem_cons hpattern, hget]
    -- what an earlier run could take in place of its last choice, this run can take as well
    have hhere : s.IsOpen pattern name ↔
        Matches (.run :: pattern.drop (s.patternAt + 1)) (name.drop s.nameAt) := by
      rw [IsOpen, ← hcut]
      refine ⟨?_, .inl⟩
      rintro (hmatches | ⟨r, hr, k, hk, hmatches⟩)
      · exact hmatches
      · have hlater := h.matches_later hr hk hmatches
        rw [hcut] at hlater ⊢
        exact hlater.run_of_drop
    rw [hhere, matches_run_iff, IsOpen]
    constructor
    · rintro ⟨k, hk⟩
      rw [List.drop_drop] at hk
      rcases Nat.eq_zero_or_pos k with rfl | hpos
      · exact .inl hk
      · exact .inr ⟨_, rfl, s.nameAt + k, by simp only; omega, hk⟩
    · rintro (hmatches | ⟨_, ⟨⟩, k, hk, hmatches⟩)
      · exact ⟨0, hmatches⟩
      · refine ⟨k - s.nameAt, ?_⟩
        rwa [List.drop_drop, Nat.add_sub_cancel' (Nat.le_of_lt hk)]
  | @read b piece hbyte hpiece hne hadmits =>
    obtain ⟨hpattern, hget⟩ := List.getElem?_eq_some_iff.1 hpiece
    obtain ⟨hname, hgetName⟩ := List.getElem?_eq_some_iff.1 hbyte
    rw [IsOpen, IsOpen, List.drop_eq_getElem_cons hpattern, hget, List.drop_eq_getElem_cons hname,
      hgetName, matches_cons_iff hne]
    simp [hadmits]
  | @back r hmisfit hlast =>
    rw [IsOpen, IsOpen]
    simp only [hmisfit.not_matches, false_or, hlast, Option.some.injEq, exists_eq_left']
    constructor
    · rintro ⟨k, hk, hmatches⟩
      rcases Nat.eq_or_lt_of_le (Nat.succ_le_of_lt hk) with rfl | hlt
      · exact .inl hmatches
      · exact .inr ⟨k, hlt, hmatches⟩
    · rintro (hmatches | ⟨k, hk, hmatches⟩)
      · exact ⟨r.stop + 1, Nat.lt_succ_self _, hmatches⟩
      · exact ⟨k, Nat.lt_of_succ_lt hk, hmatches⟩

/-- Where no turn is left, the name can be matched only if the scan succeeds. -/
theorem isOpen_iff_succeeds (h : s.Valid pattern name) (hnone : s.next? pattern name = none) :
    s.IsOpen pattern name ↔ s.succeeds pattern name = true := by
  rw [succeeds, Bool.and_eq_true, decide_eq_true_iff, ← matches_empty_iff, IsOpen]
  rcases next?_cases pattern name s with ⟨t, ht, -⟩ | ⟨-, hread | ⟨hmisfit, hlast⟩⟩
  · rw [hnone] at ht
    cases ht
  · rw [List.drop_eq_nil_iff.2 hread]
    constructor
    · rintro (hmatches | ⟨r, hr, k, hk, hmatches⟩)
      · exact ⟨hread, hmatches⟩
      · have hlater := h.matches_later hr hk hmatches
        rw [List.drop_eq_nil_iff.2 hread, List.drop_nil] at hlater
        exact ⟨hread, hlater⟩
    · exact fun ⟨_, hmatches⟩ => .inl hmatches
  · have hlt := hmisfit.lt_length
    simp only [hmisfit.not_matches, hlast, false_or, reduceCtorEq, false_and, exists_false,
      false_iff, not_and]
    omega

/-! ### Whole scans -/

/-- The scan after some turns, unless it ended before. -/
def after? (pattern : Wildcard) (name : List UInt8) : Nat → Option Scan
  | 0 => some start
  | turns + 1 => (after? pattern name turns).bind (next? pattern name)

variable {turns : Nat}

theorem valid_of_after? (h : after? pattern name turns = some s) : s.Valid pattern name := by
  induction turns generalizing s with
  | zero =>
    cases h
    exact valid_start
  | succ turns ih =>
    obtain ⟨t, ht, hnext⟩ := Option.bind_eq_some_iff.1 h
    exact (ih ht).turn (turn_of_next? hnext)

/-- Every turn leaves fewer. -/
theorem turns_add_remaining_le (h : after? pattern name turns = some s) :
    turns + s.remaining pattern name ≤ start.remaining pattern name := by
  induction turns generalizing s with
  | zero =>
    cases h
    omega
  | succ turns ih =>
    obtain ⟨t, ht, hnext⟩ := Option.bind_eq_some_iff.1 h
    have hle := ih ht
    have hlt := remaining_lt hnext
    omega

/-- A scan comes to its last place, and no turn is left there. -/
theorem exists_after?_last (h : after? pattern name turns = some s) :
    ∃ total, after? pattern name total = some (s.last pattern name) ∧
      (s.last pattern name).next? pattern name = none := by
  induction s using last.induct pattern name generalizing turns with
  | case1 s hnone =>
    rw [last_of_none hnone]
    exact ⟨turns, h, hnone⟩
  | case2 s t hnext ih =>
    rw [last_of_some hnext]
    have hafter : after? pattern name (turns + 1) = some t :=
      Option.bind_eq_some_iff.2 ⟨s, h, hnext⟩
    exact ih hafter

/-- At its last place a scan decides what was open before. -/
theorem isOpen_iff_succeeds_last (h : s.Valid pattern name) :
    s.IsOpen pattern name ↔ (s.last pattern name).succeeds pattern name = true := by
  induction s using last.induct pattern name with
  | case1 s hnone =>
    rw [last_of_none hnone]
    exact isOpen_iff_succeeds h hnone
  | case2 s t hnext ih =>
    rw [last_of_some hnext, isOpen_turn h (turn_of_next? hnext)]
    exact ih (h.turn (turn_of_next? hnext))

end Scan

/-- A pattern accepts the names that its parts stand for. -/
theorem accepts_iff_matches : accepts pattern name = true ↔ Matches pattern name := by
  rw [accepts, ← Scan.isOpen_iff_succeeds_last Scan.valid_start]
  simp [Scan.IsOpen, Scan.start]

/-- A scan of any pattern over any name ends after finitely many turns, never stands behind the end
    of the pattern, and accepts exactly the names that the pattern stands for. -/
theorem accepts_iff_denotes_and_ends (p n : List UInt8) :
    (accepts (p.map .ofByte) n = true ↔ Denotes p n) ∧
      (∃ turns < (n.length + 2) * (p.length + 1), ∃ last,
        Scan.after? (p.map .ofByte) n turns = some last ∧
        last.next? (p.map .ofByte) n = none ∧
        accepts (p.map .ofByte) n = last.succeeds (p.map .ofByte) n) ∧
      ∀ turns s, Scan.after? (p.map .ofByte) n turns = some s → s.patternAt ≤ p.length := by
  refine ⟨?_, ?_, ?_⟩
  · rw [accepts_iff_matches, matches_map_ofByte_iff]
  · have hstart : Scan.after? (p.map .ofByte) n 0 = some Scan.start := rfl
    obtain ⟨turns, hafter, hnone⟩ := Scan.exists_after?_last hstart
    refine ⟨turns, ?_, _, hafter, hnone, rfl⟩
    have hle := Scan.turns_add_remaining_le hafter
    simp only [Scan.remaining, Scan.start, List.length_map, Option.elim_none, Nat.sub_zero] at hle
    rw [show n.length + 2 = n.length + 1 + 1 from rfl, Nat.succ_mul]
    omega
  · intro turns s hafter
    simpa using (Scan.valid_of_after? hafter).patternAt_le

/-- A run takes more bytes when what follows it fits too early. -/
example : accepts (ofString "*.?b*") (Text.encode ".init.ab") = true := by decide +kernel

end BootImage.Wildcard
