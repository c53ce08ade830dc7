import BootImage.Proofs.LinkMap.Geometry

/-! The alignments on the way.

    Linking rounds the cursor up at the page of a segment, at the start of a section, and inside it
    at statements that align and inputs that are placed. Rounding up adds a mask of up to 63 bits.
    The cursor never stands past the limit when it does, so the sum stays in the word, whether what
    follows fits or not. The main statement is `Layout.exists_alignUp?_of_mem_roundings`.

        cursor      ≤ 2 ^ 32
        mask        < 2 ^ 63       their sum needs no 65th bit -/

namespace BootImage

open Word

namespace Cursor

variable {α β : Type}

/-- The elements that a sweep takes, each with the cursor at which it does, and last the first that
    cannot be taken. -/
def visited (move : α → UInt64 → Option (β × UInt64)) : List α → UInt64 → List (α × UInt64)
  | [], _ => []
  | a :: rest, c => (a, c) :: (move a c).elim [] fun moved => visited move rest moved.2

/-- What all moves keep holds wherever a sweep comes. -/
theorem forall_visited {move : α → UInt64 → Option (β × UInt64)} {P : UInt64 → Prop}
    {as : List α} {c : UInt64}
    (hstep : ∀ a ∈ as, ∀ c b next, P c → move a c = some (b, next) → P next) (hc : P c) :
    ∀ x ∈ visited move as c, x.1 ∈ as ∧ P x.2 := by
  induction as generalizing c with
  | nil => simp [visited]
  | cons a rest ih =>
    intro x hx
    rcases List.mem_cons.1 hx with rfl | hx
    · exact ⟨List.mem_cons_self, hc⟩
    · cases hmove : move a c with
      | none => simp [hmove] at hx
      | some moved =>
        rw [hmove] at hx
        have hnext := hstep a List.mem_cons_self c moved.1 moved.2 hc hmove
        obtain ⟨hmem, hP⟩ := ih (fun a ha => hstep a (List.mem_cons_of_mem _ ha)) hnext x hx
        exact ⟨List.mem_cons_of_mem _ hmem, hP⟩

/-- The locations and alignments at which an aligned sweep rounds up: first at its start, then where
    its elements do. -/
def roundings (move : α → UInt64 → Option (β × UInt64))
    (inner : α → UInt64 → List (UInt64 × UInt64)) (as : List α) (a c : UInt64) :
    List (UInt64 × UInt64) :=
  (c, a) :: (align? c a).elim [] fun address =>
    (visited move as address).flatMap fun x => inner x.1 x.2

/-- A location up to the limit, with a power of two. -/
def Reached (x : UInt64 × UInt64) : Prop := x.1 ≤ addressLimit ∧ isPowerOfTwo x.2 = true

/-- Where all moves and their roundings stay within reach, those of a sweep do. -/
theorem reached_roundings {move : α → UInt64 → Option (β × UInt64)}
    {inner : α → UInt64 → List (UInt64 × UInt64)} {as : List α} {a c : UInt64}
    (hstep : ∀ x ∈ as, ∀ c b next, c ≤ addressLimit → move x c = some (b, next) →
      next ≤ addressLimit)
    (hinner : ∀ x ∈ as, ∀ c ≤ addressLimit, ∀ y ∈ inner x c, Reached y)
    (ha : isPowerOfTwo a = true) (hc : c ≤ addressLimit) :
    ∀ y ∈ roundings move inner as a c, Reached y := by
  intro y hy
  rcases List.mem_cons.1 hy with rfl | hy
  · exact ⟨hc, ha⟩
  · cases halign : align? c a with
    | none => simp [halign] at hy
    | some address =>
      rw [halign, Option.elim_some] at hy
      obtain ⟨x, hx, hy⟩ := List.mem_flatMap.1 hy
      obtain ⟨hmem, hlimit⟩ := forall_visited hstep (toNat_of_align? ha halign).2 x hx
      exact hinner x.1 hmem x.2 hlimit y hy

end Cursor

open Cursor

/-- Where a step rounds up. -/
def Step.roundings (step : Step) (c : UInt64) : List (UInt64 × UInt64) :=
  match step with
  | .align a => [(c, a)]
  | .place i => [(c, i.align)]
  | _ => []

/-- Where a section rounds up. -/
def Section.roundings (r : Routing) (s : Section) (c : UInt64) : List (UInt64 × UInt64) :=
  Cursor.roundings Step.move? Step.roundings (s.steps r) (s.startAlign (s.steps r)) c

/-- Where a segment rounds up. -/
def Segment.roundings (r : Routing) (pageSize : UInt64) (s : Segment) (c : UInt64) :
    List (UInt64 × UInt64) :=
  Cursor.roundings (Section.move? r) (Section.roundings r) s.sections pageSize c

/-- Where linking rounds up, in the segments and in every unloaded section. -/
def Layout.roundings (d : Layout) (r : Routing) : List (UInt64 × UInt64) :=
  (visited (Segment.move? r d.pageSize) d.segments d.loadAddress).flatMap
      (fun x => x.1.roundings r d.pageSize x.2) ++
    d.unloaded.flatMap (·.roundings r 0)

theorem Step.reached_roundings {step : Step} (hr : step.IsRegular) {c : UInt64}
    (hc : c ≤ addressLimit) : ∀ y ∈ step.roundings c, Reached y := by
  intro y hy
  cases step with
  | align a => exact List.mem_singleton.1 hy ▸ ⟨hc, hr⟩
  | place i => exact List.mem_singleton.1 hy ▸ ⟨hc, hr⟩
  | _ => cases hy

theorem Section.reached_roundings {r : Routing} {s : Section} (hr : s.IsRegular r) {c : UInt64}
    (hc : c ≤ addressLimit) : ∀ y ∈ s.roundings r c, Reached y :=
  Cursor.reached_roundings
    (fun step hstep _ _ _ hc hmove => Step.le_limit_of_move? (hr.steps step hstep) hc hmove)
    (fun step hstep _ hc => Step.reached_roundings (hr.steps step hstep) hc)
    (dvd_startAlign hr).1 hc

theorem Segment.reached_roundings {r : Routing} {pageSize : UInt64} {s : Segment}
    (hpage : isPowerOfTwo pageSize = true) (hr : ∀ t ∈ s.sections, t.IsRegular r) {c : UInt64}
    (hc : c ≤ addressLimit) : ∀ y ∈ s.roundings r pageSize c, Reached y := by
  refine Cursor.reached_roundings (fun t ht _ _ _ _ hmove => ?_)
    (fun t ht _ hc => Section.reached_roundings (hr t ht) hc) hpage hc
  obtain ⟨hmapped, rfl⟩ := Section.mapped_of_move? hmove
  exact hmapped.limit (hr t ht)

/-- Wherever linking rounds up, the mask can be added, and rounding up answers. -/
theorem Layout.exists_alignUp?_of_mem_roundings {d : Layout} {r : Routing} (hr : d.IsRegular r)
    {c a : UInt64} (h : (c, a) ∈ d.roundings r) :
    c.toNat + (a.toNat - 1) < UInt64.size ∧
      ∃ v, alignUp? c a = some v ∧ v.toNat = roundUp c.toNat a.toNat := by
  have hstep : ∀ s ∈ d.segments, ∀ c b next, c ≤ addressLimit →
      s.move? r d.pageSize c = some (b, next) → next ≤ addressLimit := by
    intro s hs c b next _ hmove
    obtain ⟨hmapped, rfl⟩ := Segment.mapped_of_move? hmove
    exact (hmapped.fits hr.pageSize (hr.loaded hs)).limit
  have hreached : Reached (c, a) := by
    rcases List.mem_append.1 h with h | h
    · obtain ⟨x, hx, h⟩ := List.mem_flatMap.1 h
      obtain ⟨hmem, hlimit⟩ := forall_visited hstep hr.loadAddress x hx
      exact Segment.reached_roundings hr.pageSize (hr.loaded hmem) hlimit _ h
    · obtain ⟨s, hs, h⟩ := List.mem_flatMap.1 h
      exact Section.reached_roundings (hr.unloaded s hs) (by decide) _ h
  have hlow : c.toNat ≤ 2 ^ 63 := Nat.le_trans (UInt64.le_iff_toNat_le.1 hreached.1) (by decide)
  obtain ⟨hlt, v, hv⟩ := exists_alignUp? hreached.2 hlow
  exact ⟨hlt, v, hv, toNat_of_alignUp? hreached.2 hv⟩

end BootImage
