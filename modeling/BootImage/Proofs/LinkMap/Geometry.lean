import BootImage.Layout.Standard
import BootImage.Proofs.LinkMap.Linked
import BootImage.Proofs.LinkMap.Routing

/-! The geometry of a link map.

    Every successful link gives a map that fits its layout: segments on pages from the load address
    on, with less than a page between them, sections in their segment and inputs in their section,
    all in order and aligned, and nothing past the limit. Addresses are compared as natural numbers,
    so a sum here never wraps. The main statement is `Layout.fits_of_link`.

        page      page                       page                                limit
        |== text ====|. . . . . |== rodata ==|== data ==============|                |
        load address  < page size             |- .data -| |- .bss --|               -/

namespace BootImage

open Word Cursor

/-! ### What it is to fit -/

/-- The first location past a placed input. -/
def Placed.stop (p : Placed) : Nat := p.address.toNat + p.size.toNat

/-- The location belongs to the placed input. -/
def Placed.Covers (p : Placed) (location : Nat) : Prop :=
  p.address.toNat ≤ location ∧ location < p.stop

/-- A mapped section fits the section of the layout: it starts aligned for itself and for all its
    inputs, and these lie inside it, aligned, one after the other. -/
structure MappedSection.Fits (m : MappedSection) (s : Section) : Prop where
  name : m.name = s.name
  contents : m.contents = s.contents
  extent : m.address.toNat + m.size.toNat = m.stop.toNat
  limit : m.stop ≤ addressLimit
  aligned : s.align.toNat ∣ m.address.toNat
  aligned_inputs : ∀ i ∈ m.inputs, i.align.toNat ∣ m.address.toNat
  placed : List.Forall₂
    (fun i p => p.name = i.name ∧ p.size = i.size ∧ i.align.toNat ∣ p.address.toNat)
    m.inputs m.placed
  within : ∀ p ∈ m.placed, m.address.toNat ≤ p.address.toNat ∧ p.stop ≤ m.stop.toNat
  ordered : m.placed.Pairwise fun p q => p.stop ≤ q.address.toNat

/-- A mapped segment fits the segment of the layout: it starts on a page, and its sections are those
    of the layout, in order from its start to its end. -/
structure MappedSegment.Fits (m : MappedSegment) (pageSize : UInt64) (s : Segment) : Prop where
  name : m.name = s.name
  permissions : m.permissions = s.permissions
  extent : m.address.toNat + m.memSize.toNat = m.stop.toNat
  limit : m.stop ≤ addressLimit
  aligned : pageSize.toNat ∣ m.address.toNat
  sections : List.Forall₂ (fun s m => m.Fits s) s.sections m.sections
  inOrder : InOrder (·.address) (·.stop) m.address m.sections m.stop

/-- A link map fits a layout: its segments are those of the layout, the first at the load address
    and each on the first page that the one before leaves free; unloaded sections start at zero; and
    no location belongs to two inputs placed in segments. -/
structure LinkMap.Fits (m : LinkMap) (d : Layout) : Prop where
  segments : List.Forall₂ (fun s m => m.Fits d.pageSize s) d.segments m.segments
  first : m.segments.head?.map (·.address) = some d.loadAddress
  gaps : m.segments.IsChain fun s t =>
    s.stop ≤ t.address ∧ t.address.toNat < s.stop.toNat + d.pageSize.toNat
  unloaded : List.Forall₂ (fun s m => m.Fits s ∧ m.address = 0) d.unloaded m.unloaded
  ordered : (m.placed.map (·.2)).Pairwise fun p q => p.stop ≤ q.address.toNat
  disjoint : (m.placed.map (·.2)).Pairwise fun p q =>
    ∀ location, ¬(p.Covers location ∧ q.Covers location)

/-! ### Sections -/

/-- What a regular section starts at is aligned for the section and for each of its inputs. -/
theorem Section.dvd_startAlign {r : Routing} {s : Section} (hr : s.IsRegular r) :
    isPowerOfTwo (s.startAlign (s.steps r)) = true ∧
      s.align.toNat ∣ (s.startAlign (s.steps r)).toNat ∧
      ∀ i ∈ (s.steps r).filterMap (·.input?),
        i.align.toNat ∣ (s.startAlign (s.steps r)).toNat := by
  have hpow : ∀ a ∈ s.align :: ((s.steps r).filterMap (·.input?)).map (·.align),
      isPowerOfTwo a = true := by
    intro a ha
    rcases List.mem_cons.1 ha with rfl | ha
    · exact hr.align
    · obtain ⟨i, hi, rfl⟩ := List.mem_map.1 ha
      obtain ⟨step, hstep, hinput⟩ := List.mem_filterMap.1 hi
      cases step with
      | place j =>
        obtain rfl : j = i := by simpa [Step.input?] using hinput
        exact hr.steps _ hstep
      | _ => cases hinput
  have hstart := hpow _ (foldl_max_mem _ _)
  refine ⟨hstart, dvd_of_le hr.align hstart (le_foldl_max _ List.mem_cons_self), fun i hi => ?_⟩
  have hmem : i.align ∈ s.align :: ((s.steps r).filterMap (·.input?)).map (·.align) :=
    List.mem_cons_of_mem _ (List.mem_map_of_mem hi)
  exact dvd_of_le (hpow _ hmem) hstart (le_foldl_max _ hmem)

namespace Section.Mapped

variable {r : Routing} {s : Section} {c : UInt64} {m : MappedSection}

theorem inOrder (h : s.Mapped r c m) (hr : s.IsRegular r) :
    InOrder (·.start) (·.stop) m.address m.extents m.stop :=
  h.swept.inOrder fun step hstep _ _ _ hmove => Step.bounds_of_move? (hr.steps step hstep) hmove

theorem limit (h : s.Mapped r c m) (hr : s.IsRegular r) : m.stop ≤ addressLimit :=
  h.swept.preserves (P := (· ≤ addressLimit))
    (fun step hstep _ _ _ hc hmove => Step.le_limit_of_move? (hr.steps step hstep) hc hmove)
    (toNat_of_align? (dvd_startAlign hr).1 h.aligned).2

/-- An input that is placed covers its size from a multiple of its alignment on. -/
theorem extent_of_place (h : s.Mapped r c m) (hr : s.IsRegular r) {e : Extent} {i : Input}
    (he : e ∈ m.extents) (hplace : e.step = .place i) :
    i.align.toNat ∣ e.start.toNat ∧ e.stop.toNat = e.start.toNat + i.size.toNat := by
  obtain ⟨step, hstep, c', next, hmove⟩ := h.swept.exists_move he
  obtain ⟨heq, rfl, hmoved⟩ := Step.moves_of_move? hmove
  obtain rfl : step = .place i := heq.symm.trans hplace
  obtain ⟨hstart, hstop⟩ := hmoved
  exact ⟨dvd_of_align? (hr.steps _ hstep) hstart, (toNat_of_advance? hstop).1⟩

/-- The inputs and where they went, side by side. -/
theorem forall₂_placed (h : s.Mapped r c m) (hr : s.IsRegular r) :
    List.Forall₂ (fun i p => p.name = i.name ∧ p.size = i.size ∧ i.align.toNat ∣ p.address.toNat)
      m.inputs m.placed := by
  have hsame : List.Forall₂ (fun e f => e = f ∧ e ∈ m.extents) m.extents m.extents :=
    List.forall₂_same.2 fun e he => ⟨rfl, he⟩
  refine List.rel_filterMap ?_ hsame
  rintro e _ ⟨rfl, he⟩
  cases hstep : e.step with
  | place i =>
    simp only [Extent.placed?, Step.input?, hstep]
    exact .some ⟨rfl, rfl, (h.extent_of_place hr he hstep).1⟩
  | _ =>
    simp only [Extent.placed?, Step.input?, hstep]
    exact .none

/-- What an extent places covers the extent. -/
theorem bounds_of_placed? (h : s.Mapped r c m) (hr : s.IsRegular r) {e : Extent}
    (he : e ∈ m.extents) {p : Placed} (hp : e.placed? = some p) :
    p.address = e.start ∧ p.stop = e.stop.toNat := by
  cases hstep : e.step with
  | place i =>
    simp only [Extent.placed?, hstep, Option.some.injEq] at hp
    rw [← hp]
    exact ⟨rfl, (h.extent_of_place hr he hstep).2.symm⟩
  | _ => simp [Extent.placed?, hstep] at hp

/-- The extents lie in the section, one after the other. -/
theorem extents_ordered (h : s.Mapped r c m) (hr : s.IsRegular r) :
    (∀ e ∈ m.extents, m.address.toNat ≤ e.start.toNat ∧ e.stop.toNat ≤ m.stop.toNat) ∧
      m.extents.Pairwise fun e f => e.stop.toNat ≤ f.start.toNat := by
  have horder := h.inOrder hr
  refine ⟨fun e he => ?_, horder.pairwise.imp UInt64.le_iff_toNat_le.1⟩
  obtain ⟨hlow, -, hhigh⟩ := horder.bounds e he
  exact ⟨UInt64.le_iff_toNat_le.1 hlow, UInt64.le_iff_toNat_le.1 hhigh⟩

/-- What is placed lies in the section, one after the other. -/
theorem ordered (h : s.Mapped r c m) (hr : s.IsRegular r) :
    (∀ p ∈ m.placed, m.address.toNat ≤ p.address.toNat ∧ p.stop ≤ m.stop.toNat) ∧
      m.placed.Pairwise fun p q => p.stop ≤ q.address.toNat := by
  obtain ⟨hwithin, hpairwise⟩ := h.extents_ordered hr
  constructor
  · intro p hp
    obtain ⟨e, he, hpe⟩ := List.mem_filterMap.1 hp
    obtain ⟨hstart, hstop⟩ := h.bounds_of_placed? hr he hpe
    rw [hstart, hstop]
    exact hwithin e he
  · rw [MappedSection.placed, List.pairwise_filterMap]
    refine hpairwise.imp_of_mem fun {e f} he hf hle p hp q hq => ?_
    rwa [(h.bounds_of_placed? hr he hp).2, (h.bounds_of_placed? hr hf hq).1]

/-- A section that is mapped fits. -/
theorem fits (h : s.Mapped r c m) (hr : s.IsRegular r) : m.Fits s := by
  obtain ⟨hpow, halign, hinputs⟩ := Section.dvd_startAlign hr
  have haddress := dvd_of_align? hpow h.aligned
  obtain ⟨hwithin, hordered⟩ := h.ordered hr
  exact {
    name := h.name
    contents := h.contents
    extent := toNat_add_sub (h.inOrder hr).le
    limit := h.limit hr
    aligned := Nat.dvd_trans halign haddress
    aligned_inputs := fun i hi => Nat.dvd_trans (hinputs i (h.inputs_eq ▸ hi)) haddress
    placed := h.forall₂_placed hr
    within := hwithin
    ordered := hordered }

end Section.Mapped

/-! ### Segments -/

/-- A section lies at or above the cursor, and the cursor goes on where it ends. -/
theorem Section.bounds_of_move? {r : Routing} {s : Section} {c next : UInt64} {m : MappedSection}
    (hr : s.IsRegular r) (h : s.move? r c = some (m, next)) :
    c ≤ m.address ∧ m.address ≤ m.stop ∧ m.stop = next := by
  obtain ⟨hmapped, rfl⟩ := Section.mapped_of_move? h
  exact ⟨le_of_align? (dvd_startAlign hr).1 hmapped.aligned, (hmapped.inOrder hr).le, rfl⟩

namespace Segment.Mapped

variable {r : Routing} {pageSize : UInt64} {s : Segment} {c : UInt64} {m : MappedSegment}

theorem inOrder (h : s.Mapped r pageSize c m) (hr : ∀ t ∈ s.sections, t.IsRegular r) :
    InOrder (·.address) (·.stop) m.address m.sections m.stop :=
  h.swept.inOrder fun t ht _ _ _ hmove => Section.bounds_of_move? (hr t ht) hmove

/-- A segment that is mapped fits. -/
theorem fits (h : s.Mapped r pageSize c m) (hpage : isPowerOfTwo pageSize = true)
    (hr : ∀ t ∈ s.sections, t.IsRegular r) : m.Fits pageSize s where
  name := h.name
  permissions := h.permissions
  extent := toNat_add_sub (h.inOrder hr).le
  limit := h.swept.preserves (P := (· ≤ addressLimit))
    (fun t ht _ _ _ _ hmove => by
      obtain ⟨hmapped, rfl⟩ := Section.mapped_of_move? hmove
      exact hmapped.limit (hr t ht))
    (toNat_of_align? hpage h.aligned).2
  aligned := dvd_of_align? hpage h.aligned
  sections := h.swept.forall₂ fun t ht _ _ _ hmove =>
    (Section.mapped_of_move? hmove).1.fits (hr t ht)
  inOrder := h.inOrder hr

end Segment.Mapped

/-! ### Link maps -/

/-- In a sound layout and with aligned inputs every section is regular: a step that aligns is a
    statement of the section, and an input that it places was listed. -/
theorem Section.isRegular_of_sound {d : Layout} {inputs : List Input} (hsound : d.Sound)
    (hinputs : ∀ i ∈ inputs, isPowerOfTwo i.align = true) (collect : Bool) {s : Section}
    (hs : s ∈ d.sections) : s.IsRegular (d.routing collect inputs) := by
  have haligns := hsound.alignments s hs
  refine ⟨haligns _ List.mem_cons_self, fun step hstep => ?_⟩
  cases step with
  | place i =>
    have hmem : i ∈ (s.steps (d.routing collect inputs)).filterMap (·.input?) :=
      List.mem_filterMap.2 ⟨_, hstep, rfl⟩
    exact hinputs i (d.inputs_steps_subset collect inputs hsound.names_nodup hs hmem)
  | align a =>
    obtain ⟨statement, hstatement, hgives⟩ := Statement.exists_of_mem_stepsFrom _ hstep
    refine haligns a (List.mem_cons_of_mem _ (List.mem_filterMap.2 ⟨statement, hstatement, ?_⟩))
    cases statement <;> simp_all [Statement.Gives]
  | _ => trivial

/-- All that linking aligns to is a power of two, and it starts no higher than the limit. -/
structure Layout.IsRegular (d : Layout) (r : Routing) : Prop where
  pageSize : isPowerOfTwo d.pageSize = true
  loadAddress : d.loadAddress ≤ addressLimit
  sections : ∀ s ∈ d.sections, s.IsRegular r

theorem Layout.isRegular_of_sound {d : Layout} {inputs : List Input} (hsound : d.Sound)
    (hinputs : ∀ i ∈ inputs, isPowerOfTwo i.align = true) (collect : Bool) :
    d.IsRegular (d.routing collect inputs) where
  pageSize := hsound.pageSize
  loadAddress := UInt64.le_of_lt hsound.loadAddress_lt
  sections := fun _ hs => Section.isRegular_of_sound hsound hinputs collect hs

namespace Layout.IsRegular

variable {d : Layout} {r : Routing}

theorem loaded (h : d.IsRegular r) {g : Segment} (hg : g ∈ d.segments) :
    ∀ s ∈ g.sections, s.IsRegular r := fun s hs =>
  h.sections s (List.mem_append_left _ (List.mem_flatMap.2 ⟨g, hg, hs⟩))

theorem unloaded (h : d.IsRegular r) : ∀ s ∈ d.unloaded, s.IsRegular r := fun s hs =>
  h.sections s (List.mem_append_right _ hs)

end Layout.IsRegular

/-- What is placed in a segment that fits lies in the segment, one after the other. -/
theorem MappedSegment.Fits.placed {m : MappedSegment} {pageSize : UInt64} {s : Segment}
    (h : m.Fits pageSize s) :
    (∀ p ∈ m.sections.flatMap (·.placed), m.address.toNat ≤ p.address.toNat ∧
        p.stop ≤ m.stop.toNat) ∧
      (m.sections.flatMap (·.placed)).Pairwise fun p q => p.stop ≤ q.address.toNat := by
  refine h.inOrder.flatMap fun t ht => ?_
  obtain ⟨s', -, hfits⟩ := exists_of_forall₂ h.sections ht
  exact ⟨hfits.within, hfits.ordered⟩

namespace Layout.Linked

variable {d : Layout} {inputs : List Input} {collect : Bool} {m : LinkMap}

theorem isRegular (h : d.Linked inputs collect m) : d.IsRegular (d.routing collect inputs) :=
  isRegular_of_sound h.sound h.inputs_aligned collect

theorem fits_segments (h : d.Linked inputs collect m) :
    List.Forall₂ (fun s m => m.Fits d.pageSize s) d.segments m.segments := by
  obtain ⟨stop, hswept⟩ := h.segments
  exact hswept.forall₂ fun s hs _ _ _ hmove =>
    (Segment.mapped_of_move? hmove).1.fits h.sound.pageSize (h.isRegular.loaded hs)

/-- The segments lie in order from the load address on. -/
theorem inOrder (h : d.Linked inputs collect m) :
    ∃ stop, InOrder (·.address) (·.stop) d.loadAddress m.segments stop := by
  obtain ⟨stop, hswept⟩ := h.segments
  refine ⟨stop, hswept.inOrder fun s hs _ _ _ hmove => ?_⟩
  obtain ⟨hmapped, rfl⟩ := Segment.mapped_of_move? hmove
  exact ⟨le_of_align? h.sound.pageSize hmapped.aligned,
    (hmapped.inOrder (h.isRegular.loaded hs)).le, rfl⟩

/-- There is a first segment, and it starts at the load address. -/
theorem first (h : d.Linked inputs collect m) :
    m.segments.head?.map (·.address) = some d.loadAddress := by
  have hentry := h.entry
  obtain ⟨stop, hswept⟩ := h.segments
  cases hsegments : m.segments with
  | nil => simp [hsegments, entryAddress?] at hentry
  | cons t rest =>
    rw [hsegments] at hswept
    generalize d.segments = declared at hswept
    cases hswept with
    | cons head tail =>
      have haligned := (Segment.mapped_of_move? head).1.aligned
      have hdvd := (isAligned_iff_dvd _ h.sound.pageSize).1 h.sound.loadAddress_aligned
      rw [List.head?_cons, Option.map_some, eq_of_align? h.sound.pageSize haligned hdvd]

/-- A segment starts on the first page that the one before leaves free. -/
theorem gaps (h : d.Linked inputs collect m) :
    m.segments.IsChain fun s t =>
      s.stop ≤ t.address ∧ t.address.toNat < s.stop.toNat + d.pageSize.toNat := by
  obtain ⟨stop, hswept⟩ := h.segments
  refine hswept.isChain fun _ _ _ _ _ s _ t _ hs ht => ?_
  obtain ⟨-, rfl⟩ := Segment.mapped_of_move? hs
  have haligned := (Segment.mapped_of_move? ht).1.aligned
  refine ⟨le_of_align? h.sound.pageSize haligned, ?_⟩
  rw [(toNat_of_align? h.sound.pageSize haligned).1]
  exact roundUp_lt _ (pos_of_isPowerOfTwo h.sound.pageSize)

theorem fits_unloaded (h : d.Linked inputs collect m) :
    List.Forall₂ (fun s m => m.Fits s ∧ m.address = 0) d.unloaded m.unloaded := by
  have hboth := (List.forall₂_and_left _ _).2 ⟨h.isRegular.unloaded, h.unloaded⟩
  refine hboth.imp fun s t ⟨hr, hmapped⟩ => ?_
  have hzero := eq_of_align? (Section.dvd_startAlign hr).1 hmapped.aligned (Nat.dvd_zero _)
  exact ⟨hmapped.fits hr, hzero⟩

/-- A section places what was listed. -/
theorem inputs_subset (h : d.Linked inputs collect m) {t : MappedSection} (ht : t ∈ m.sections) :
    t.inputs ⊆ inputs := by
  obtain ⟨s, hs, c, hmapped⟩ := exists_of_forall₂ h.sections ht
  rw [hmapped.inputs_eq]
  exact d.inputs_steps_subset collect inputs h.sound.names_nodup hs

/-- Over all segments, what is placed lies one after the other. -/
theorem ordered (h : d.Linked inputs collect m) :
    (m.placed.map (·.2)).Pairwise fun p q => p.stop ≤ q.address.toNat := by
  have hplaced : m.placed.map (·.2) =
      m.segments.flatMap fun s => s.sections.flatMap (·.placed) := by
    simp [LinkMap.placed, List.map_flatMap, Function.comp_def]
  obtain ⟨stop, horder⟩ := h.inOrder
  rw [hplaced]
  refine (horder.flatMap fun s hs => ?_).2
  obtain ⟨s', -, hfits⟩ := exists_of_forall₂ h.fits_segments hs
  exact hfits.placed

end Layout.Linked

/-- Every successful link gives a map that fits the layout, with inputs that were listed. -/
theorem Layout.fits_of_link {d : Layout} {inputs : List Input} {collect : Bool} {m : LinkMap}
    (h : d.link inputs collect = .ok m) :
    m.Fits d ∧ ∀ s ∈ m.sections, s.inputs ⊆ inputs := by
  have hlinked := linked_of_link h
  refine ⟨?_, fun s hs => hlinked.inputs_subset hs⟩
  exact {
    segments := hlinked.fits_segments
    first := hlinked.first
    gaps := hlinked.gaps
    unloaded := hlinked.fits_unloaded
    ordered := hlinked.ordered
    disjoint := hlinked.ordered.imp fun hle _ ⟨hp, hq⟩ =>
      Nat.not_lt.2 (Nat.le_trans hle hq.1) hp.2 }

/-- The read-only data is empty here, so the writable data starts on the same page. -/
theorem Layout.fits_of_link_standard :
    let inputs : List Input := [⟨".crt0", 0x40, 4, true⟩, ⟨".text.main", 0x1230, 16, true⟩,
      ⟨".bss.buffer", 0x100, 8, true⟩, ⟨".debug_info", 0x500, 1, true⟩]
    ∃ m, Standard.layout.link inputs true = .ok m ∧
      m.segments.map (·.address) = [0x100000, 0x102000, 0x102000] ∧
      m.Fits Standard.layout ∧ ∀ s ∈ m.sections, s.inputs ⊆ inputs := by
  intro inputs
  obtain ⟨m, hm⟩ := exists_of_isOk (e := Standard.layout.link inputs true) (by decide +kernel)
  have hsegments : (Standard.layout.link inputs true).toOption.map (·.segments.map (·.address)) =
      some [0x100000, 0x102000, 0x102000] := by decide +kernel
  rw [hm] at hsegments
  exact ⟨m, hm, by simpa [Except.toOption] using hsegments, fits_of_link hm⟩

end BootImage
