import BootImage.Proofs.Image.Linked
import BootImage.Proofs.LinkMap.Brackets

/-! How high a link map reaches.

    Addresses and sizes of an image are written in words of 32 bits. The cursor may stop at the
    limit, the first address past these words, and what it leaves there is shown: an empty segment
    starts at it, a symbol has it for its value, and a segment from zero on has it for its size. So
    nothing that is shown lies past the limit, but it can lie on it. The main statement is
    `Layout.limited_of_link`.

        0                                    .bss                limit
        |                                    |====== ... ========|
                                                                 __bss_end__ = __end__ -/

namespace BootImage

open Word Cursor

/-! ### What is shown -/

/-- The word is an address, a size or the value of a symbol in the link map. -/
inductive LinkMap.Shows (m : LinkMap) : UInt64 → Prop
  | entry : m.Shows m.entry
  | address {g : MappedSegment} (hg : g ∈ m.segments) : m.Shows g.address
  | memSize {g : MappedSegment} (hg : g ∈ m.segments) : m.Shows g.memSize
  | fileSize {g : MappedSegment} (hg : g ∈ m.segments) : m.Shows g.fileSize
  | symbol {name : String} {value : UInt64} (hget : m.symbols.get? name = some value) :
    m.Shows value

/-- Nothing that a link map shows lies past the limit. It all lies below if every segment stops
    below, and exactly if no symbol has the limit for its value and each segment that stops there
    starts strictly between zero and the limit. -/
structure LinkMap.Limited (m : LinkMap) : Prop where
  le : ∀ value, m.Shows value → value ≤ addressLimit
  lt_of_stop : (∀ g ∈ m.segments, g.stop < addressLimit) →
    ∀ value, m.Shows value → value < addressLimit
  lt_iff : (∀ value, m.Shows value → value < addressLimit) ↔
    (∀ g ∈ m.segments, g.stop = addressLimit → 0 < g.address ∧ g.address < addressLimit) ∧
      ∀ name, m.symbols.get? name ≠ some addressLimit

/-! ### What segments cover -/

/-- The value that a section gives to a symbol lies in the section. -/
theorem Section.Mapped.le_stop_of_mem_symbols {r : Routing} {s : Section} {c : UInt64}
    {m : MappedSection} (h : s.Mapped r c m) (hr : s.IsRegular r) {name : String} {value : UInt64}
    (hmem : (name, value) ∈ m.symbols) : value ≤ m.stop := by
  obtain ⟨e, he, hsymbol⟩ := List.mem_filterMap.1 hmem
  obtain ⟨-, hmid, hhigh⟩ := (h.inOrder hr).bounds e he
  have hvalue : e.start = value := by
    cases hstep : e.step with
    | symbol other => exact (Prod.mk.inj (by simpa [Extent.symbol?, hstep] using hsymbol)).2
    | _ => simp [Extent.symbol?, hstep] at hsymbol
  exact hvalue ▸ UInt64.le_trans hmid hhigh

/-- The entry is the address of something that is placed in a segment. -/
theorem exists_of_entryAddress? {entrySection : String} {segments : List MappedSegment}
    {entry : UInt64} (h : entryAddress? entrySection segments = some entry) :
    ∃ g ∈ segments, ∃ t ∈ g.sections, ∃ p ∈ t.placed, p.address = entry := by
  simp only [entryAddress?, Option.bind_eq_bind, Option.bind_eq_some_iff,
    Option.ite_none_right_eq_some, Option.some.injEq] at h
  obtain ⟨g, hg, t, ht, p, hp, -, haddress⟩ := h
  exact ⟨g, List.mem_of_find?_eq_some hg, t, List.mem_of_mem_head? ht, p, List.mem_of_mem_head? hp,
    haddress⟩

namespace Layout.Linked

variable {d : Layout} {inputs : List Input} {collect : Bool} {m : LinkMap} {value : UInt64}

/-- A segment fits the segment of the layout that it was placed for. -/
theorem exists_fits (h : d.Linked inputs collect m) {g : MappedSegment} (hg : g ∈ m.segments) :
    ∃ s, g.Fits d.pageSize s := by
  obtain ⟨s, -, hfits⟩ := exists_of_forall₂ h.fits_segments hg
  exact ⟨s, hfits⟩

/-- Whatever lies no higher than a section lies no higher than its segment. -/
theorem le_stop_of_section (h : d.Linked inputs collect m) {g : MappedSegment}
    (hg : g ∈ m.segments) {t : MappedSection} (ht : t ∈ g.sections) (hvalue : value ≤ t.stop) :
    value ≤ g.stop := by
  obtain ⟨s, hfits⟩ := h.exists_fits hg
  obtain ⟨-, -, hstop⟩ := hfits.inOrder.bounds t ht
  exact UInt64.le_trans hvalue hstop

theorem exists_le_stop_of_entry (h : d.Linked inputs collect m) :
    ∃ g ∈ m.segments, m.entry ≤ g.stop := by
  obtain ⟨g, hg, t, ht, p, hp, haddress⟩ := exists_of_entryAddress? h.entry
  obtain ⟨s, c, hmapped, hr⟩ := h.exists_mapped (List.mem_flatMap.2 ⟨g, hg, ht⟩)
  have hstop := ((hmapped.fits hr).within p hp).2
  have hle : p.address ≤ t.stop := by
    rw [UInt64.le_iff_toNat_le]
    exact Nat.le_trans (Nat.le_add_right _ _) hstop
  exact ⟨g, hg, haddress ▸ h.le_stop_of_section hg ht hle⟩

theorem exists_le_stop_of_symbol (h : d.Linked inputs collect m) {name : String}
    (hget : m.symbols.get? name = some value) : ∃ g ∈ m.segments, value ≤ g.stop := by
  rcases eq_or_ne name d.entry with rfl | hne
  · obtain rfl : m.entry = value := Option.some.inj (h.get?_entry.symm.trans hget)
    exact h.exists_le_stop_of_entry
  · rw [h.get?_of_ne hne, Option.map_eq_some_iff] at hget
    obtain ⟨⟨other, value⟩, hfind, rfl⟩ := hget
    obtain ⟨t, ht, hmem⟩ := List.mem_flatMap.1 (List.mem_of_find?_eq_some hfind)
    obtain ⟨g, hg, hsection⟩ := List.mem_flatMap.1 ht
    obtain ⟨s, c, hmapped, hr⟩ := h.exists_mapped ht
    exact ⟨g, hg, h.le_stop_of_section hg hsection (hmapped.le_stop_of_mem_symbols hr hmem)⟩

/-- Whatever is shown, some segment reaches as high. -/
theorem exists_le_stop (h : d.Linked inputs collect m) (hshows : m.Shows value) :
    ∃ g ∈ m.segments, value ≤ g.stop := by
  have hsize {g : MappedSegment} (hg : g ∈ m.segments) :
      g.address ≤ g.stop ∧ g.memSize ≤ g.stop ∧ g.fileSize ≤ g.memSize := by
    obtain ⟨s, hfits⟩ := h.exists_fits hg
    refine ⟨hfits.inOrder.le, ?_, hfits.fileSize_le⟩
    rw [UInt64.le_iff_toNat_le, ← hfits.extent]
    exact Nat.le_add_left _ _
  cases hshows with
  | entry => exact h.exists_le_stop_of_entry
  | address hg => exact ⟨_, hg, (hsize hg).1⟩
  | memSize hg => exact ⟨_, hg, (hsize hg).2.1⟩
  | fileSize hg => exact ⟨_, hg, UInt64.le_trans (hsize hg).2.2 (hsize hg).2.1⟩
  | symbol hget => exact h.exists_le_stop_of_symbol hget

theorem le_limit (h : d.Linked inputs collect m) (hshows : m.Shows value) :
    value ≤ addressLimit := by
  obtain ⟨g, hg, hstop⟩ := h.exists_le_stop hshows
  obtain ⟨s, hfits⟩ := h.exists_fits hg
  exact UInt64.le_trans hstop hfits.limit

/-- A segment starts and has its size below the limit, unless it stops there and starts at one of
    the two ends. -/
theorem lt_limit_of_segment (h : d.Linked inputs collect m) {g : MappedSegment}
    (hg : g ∈ m.segments)
    (hinner : g.stop = addressLimit → 0 < g.address ∧ g.address < addressLimit) :
    g.address < addressLimit ∧ g.memSize < addressLimit := by
  obtain ⟨s, hfits⟩ := h.exists_fits hg
  have hextent := hfits.extent
  have hle := UInt64.le_iff_toNat_le.1 hfits.limit
  simp only [UInt64.lt_iff_toNat_lt, ← UInt64.toNat_inj, UInt64.toNat_zero] at hinner ⊢
  omega

/-- What is shown lies below the limit exactly if no symbol lies on it and no segment fills all that
    is below it or is empty there. -/
theorem shows_lt_iff (h : d.Linked inputs collect m) :
    (∀ value, m.Shows value → value < addressLimit) ↔
      (∀ g ∈ m.segments, g.stop = addressLimit → 0 < g.address ∧ g.address < addressLimit) ∧
        ∀ name, m.symbols.get? name ≠ some addressLimit := by
  constructor
  · intro hall
    refine ⟨fun g hg hstop => ⟨UInt64.pos_iff_ne_zero.2 fun hzero => ?_, hall _ (.address hg)⟩,
      fun name hget => UInt64.lt_irrefl _ (hall _ (.symbol hget))⟩
    -- from zero to the limit the size is the limit
    have hsize : g.memSize = addressLimit := by
      rw [MappedSegment.memSize, hstop, hzero, UInt64.sub_zero]
    exact UInt64.lt_irrefl _ (hsize ▸ hall _ (.memSize hg))
  · rintro ⟨hinner, hsymbols⟩ value hshows
    have hsymbol {name : String} {value : UInt64} (hget : m.symbols.get? name = some value) :
        value < addressLimit :=
      UInt64.lt_of_le_of_ne (h.le_limit (.symbol hget)) fun heq => hsymbols name (heq ▸ hget)
    cases hshows with
    | entry => exact hsymbol h.get?_entry
    | address hg => exact (h.lt_limit_of_segment hg (hinner _ hg)).1
    | memSize hg => exact (h.lt_limit_of_segment hg (hinner _ hg)).2
    | fileSize hg =>
      obtain ⟨s, hfits⟩ := h.exists_fits hg
      exact UInt64.lt_of_le_of_lt hfits.fileSize_le (h.lt_limit_of_segment hg (hinner _ hg)).2
    | symbol hget => exact hsymbol hget

end Layout.Linked

/-! ### The limit -/

namespace Layout

variable {d : Layout} {inputs : List Input} {collect : Bool} {m : LinkMap}

/-- Every successful link shows nothing past the limit. -/
theorem limited_of_link (h : d.link inputs collect = .ok m) : m.Limited where
  le _ hshows := (linked_of_link h).le_limit hshows
  lt_of_stop hall value hshows := by
    obtain ⟨g, hg, hstop⟩ := (linked_of_link h).exists_le_stop hshows
    exact UInt64.lt_of_le_of_lt hstop (hall g hg)
  lt_iff := (linked_of_link h).shows_lt_iff

/-- Code, and as much zeroed data as there is room for. -/
def fullInputs : List Input := [⟨".crt0", 0x40, 4, true⟩, ⟨".bss", 0xffeff000, 4, true⟩]

/-- They are linked, and the last symbol has the limit for its value. -/
theorem exists_link_fullInputs : ∃ m, Standard.layout.link fullInputs false = .ok m ∧
    m.symbols.get? "__end__" = some addressLimit := by
  have hvalue : (Standard.layout.link fullInputs false).toOption.map
      (·.symbols.get? "__end__") = some (some addressLimit) := by
    decide +kernel
  obtain ⟨m, hm, hvalue⟩ := Option.map_eq_some_iff.1 hvalue
  exact ⟨m, eq_ok_of_toOption hm, hvalue⟩

/-- The last symbol of a full image lies on the limit, and nothing lies past it. -/
theorem limited_of_link_fullInputs : ∃ m, Standard.layout.link fullInputs false = .ok m ∧
    m.symbols.get? "__end__" = some addressLimit ∧ m.Limited := by
  obtain ⟨m, hm, hvalue⟩ := exists_link_fullInputs
  exact ⟨m, hm, hvalue, limited_of_link hm⟩

/-- What is shown need not lie below the limit. -/
theorem not_forall_shows_lt : ¬ ∀ (d : Layout) (inputs : List Input) (collect : Bool)
    (m : LinkMap), d.link inputs collect = .ok m →
      ∀ value, m.Shows value → value < addressLimit := by
  intro h
  obtain ⟨m, hm, hvalue⟩ := exists_link_fullInputs
  exact UInt64.lt_irrefl _ (h _ _ _ m hm _ (.symbol hvalue))

end Layout

end BootImage
