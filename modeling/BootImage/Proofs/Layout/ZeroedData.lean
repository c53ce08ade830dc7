import BootImage.Proofs.Layout.Standard
import BootImage.Proofs.LinkMap.Brackets
import BootImage.Proofs.LinkMap.FileExtent

/-! The zeroed data of the standard layout.

    The entry code zeroes all memory between two symbols before anything else runs. In what is
    linked by the standard layout this clears all data that is zeroed and nothing else: the zeroed
    section is the last of the last segment, and everything stored in the file, the hooks as the
    last of it, ends at or below its start. The main statement is `Standard.zeroedLast_of_link`.

        .data  .preinit_array  .init_array |  gap  | .bss                         |
                                     fileEnd      first                          last
                            __init_array_end      __bss_start__         __bss_end__
                                                  __tls_start, __tls_end    __end__   -/

namespace BootImage

open Word Cursor

/-! ### The order of sections -/

/-- What stands before the last element is related to it. -/
theorem related_last_of_pairwise {α : Type} {R : α → α → Prop} {before : List α} {a last : α}
    (h : (before ++ [last]).Pairwise R) (ha : a ∈ before ++ [last]) (hne : a ≠ last) :
    R a last := by
  rcases List.mem_append.1 ha with ha | ha
  · exact (List.pairwise_append.1 h).2.2 a ha last List.mem_cons_self
  · exact absurd (List.mem_singleton.1 ha) hne

/-- All sections of the segments lie one after the other. -/
theorem Layout.Linked.sections_ordered {d : Layout} {inputs : List Input} {collect : Bool}
    {m : LinkMap} (h : d.Linked inputs collect m) :
    (m.segments.flatMap (·.sections)).Pairwise fun t u => t.stop.toNat ≤ u.address.toNat := by
  obtain ⟨stop, horder⟩ := h.inOrder
  refine (horder.flatMap fun g hg => ?_).2
  obtain ⟨s, -, hfits⟩ := exists_of_forall₂ h.fits_segments hg
  refine ⟨fun t ht => ?_, hfits.inOrder.pairwise.imp UInt64.le_iff_toNat_le.1⟩
  obtain ⟨hlow, -, hhigh⟩ := hfits.inOrder.bounds t ht
  exact ⟨UInt64.le_iff_toNat_le.1 hlow, UInt64.le_iff_toNat_le.1 hhigh⟩

namespace Standard

variable {inputs : List Input} {collect : Bool} {m : LinkMap}

/-! ### The last sections -/

/-- The section of the hooks, the last that is stored. -/
def hooks : Section :=
  hookList ".init_array" ".init_array.*" "__init_array_start" "__init_array_end"

/-- The section of the zeroed data. -/
def bss : Section := data.sections.getLast (List.cons_ne_nil _ _)

/-- The end of a link map: its last segment is the writable data, which ends with the hooks and the
    zeroed data. -/
structure HasZeroed (r : Routing) (m : LinkMap) (g : MappedSegment) (t z : MappedSection) :
    Prop where
  segments : ∃ before, m.segments = before ++ [g] ∧ ∀ s ∈ before, s.name ≠ data.name
  name : g.name = data.name
  sections : ∃ before, g.sections = before ++ [t, z]
  mapped_hooks : ∃ c, hooks.Mapped r c t
  mapped_bss : ∃ c, bss.Mapped r c z
  stop : g.stop = z.stop

theorem exists_zeroed (h : layout.Linked inputs collect m) :
    ∃ g t z, HasZeroed (layout.routing collect inputs) m g t z := by
  have hmapped : List.Forall₂ (fun s t => ∃ c, s.Mapped (layout.routing collect inputs)
    layout.pageSize c t) [text, rodata, data] m.segments := h.mapped
  obtain ⟨a, _, ⟨_, ha⟩, hlater, hsegments⟩ := List.forall₂_cons_left_iff.1 hmapped
  obtain ⟨b, _, ⟨_, hb⟩, hlatest, rfl⟩ := List.forall₂_cons_left_iff.1 hlater
  obtain ⟨g, _, ⟨_, hg⟩, hnone, rfl⟩ := List.forall₂_cons_left_iff.1 hlatest
  obtain rfl := List.forall₂_nil_left_iff.1 hnone
  have hswept : Swept (Section.move? (layout.routing collect inputs))
      (data.sections.take 2 ++ [hooks] ++ [bss]) g.address g.sections g.stop := hg.swept
  obtain ⟨_, stored, _, hsections, hstored, hlast⟩ := hswept.of_append
  obtain ⟨z, rfl, hzeroed⟩ := hlast.exists_of_singleton
  obtain ⟨_, before, _, rfl, -, hlast⟩ := hstored.of_append
  obtain ⟨t, rfl, hhooks⟩ := hlast.exists_of_singleton
  obtain ⟨hz, hstop⟩ := Section.mapped_of_move? hzeroed
  refine ⟨g, t, z, {
    segments := ⟨[a, b], hsegments, fun s hs => ?_⟩
    name := hg.name
    sections := ⟨before, by rw [hsections, List.append_assoc]; rfl⟩
    mapped_hooks := ⟨_, (Section.mapped_of_move? hhooks).1⟩
    mapped_bss := ⟨_, hz⟩
    stop := hstop.symm }⟩
  have hname : s.name = text.name ∨ s.name = rodata.name := by
    simp only [List.mem_cons, List.not_mem_nil, or_false] at hs
    rcases hs with rfl | rfl
    · exact .inl ha.name
    · exact .inr hb.name
  rcases hname with hname | hname <;> rw [hname] <;> decide

theorem isRegular_last (h : layout.Linked inputs collect m) :
    hooks.IsRegular (layout.routing collect inputs) ∧
      bss.IsRegular (layout.routing collect inputs) := by
  have hdata := h.isRegular.loaded (g := data) (by simp [layout])
  exact ⟨hdata hooks (by decide), hdata bss (List.getLast_mem _)⟩

namespace HasZeroed

variable {g : MappedSegment} {t z : MappedSection}

theorem mem_segments {r : Routing} (hlast : HasZeroed r m g t z) : g ∈ m.segments := by
  obtain ⟨before, hsegments, -⟩ := hlast.segments
  simp [hsegments]

/-- The loaded sections end with the hooks and the zeroed data. -/
theorem exists_loaded {r : Routing} (hlast : HasZeroed r m g t z) :
    ∃ before, m.segments.flatMap (·.sections) = before ++ [t, z] := by
  obtain ⟨before, hsegments, -⟩ := hlast.segments
  obtain ⟨stored, hsections⟩ := hlast.sections
  exact ⟨before.flatMap (·.sections) ++ stored, by simp [hsegments, hsections]⟩

theorem mem_loaded {r : Routing} (hlast : HasZeroed r m g t z) :
    t ∈ m.segments.flatMap (·.sections) ∧ z ∈ m.segments.flatMap (·.sections) := by
  obtain ⟨before, hloaded⟩ := hlast.exists_loaded
  simp [hloaded]

theorem find?_eq {r : Routing} (hlast : HasZeroed r m g t z) :
    m.segments.find? (·.name == data.name) = some g := by
  obtain ⟨before, hsegments, hother⟩ := hlast.segments
  have hbefore : before.find? (·.name == data.name) = none :=
    List.find?_eq_none.2 fun s hs => by simpa using hother s hs
  rw [hsegments, List.find?_append, hbefore, List.find?_cons_of_pos (by simp [hlast.name])]
  rfl

variable (hlast : HasZeroed (layout.routing collect inputs) m g t z)
  (h : layout.Linked inputs collect m)

include hlast h

theorem address_le_stop : z.address ≤ z.stop := by
  obtain ⟨_, hz⟩ := hlast.mapped_bss
  exact (hz.inOrder (isRegular_last h).2).le

/-- Every other loaded section ends at or below the zeroed data. -/
theorem stop_le {u : MappedSection} (hu : u ∈ m.segments.flatMap (·.sections)) (hne : u ≠ z) :
    u.stop.toNat ≤ z.address.toNat := by
  obtain ⟨before, hloaded⟩ := hlast.exists_loaded
  have hordered := h.sections_ordered
  rw [hloaded, List.append_cons] at hu hordered
  have hbelow := related_last_of_pairwise hordered hu hne
  exact hbelow

/-- The zeroed data is known by its name. -/
theorem eq_of_name {u : MappedSection} (hu : u ∈ m.segments.flatMap (·.sections))
    (hname : u.name = bss.name) : u = z := by
  obtain ⟨_, hz⟩ := hlast.mapped_bss
  have hfound := h.section?_name (List.mem_append_left m.unloaded hu)
  rw [hname, ← hz.name, h.section?_name (List.mem_append_left _ hlast.mem_loaded.2)] at hfound
  exact (Option.some.inj hfound).symm

/-- Every other segment ends at or below the writable data. -/
theorem segment_le {s : MappedSegment} (hs : s ∈ m.segments) (hne : s ≠ g) :
    s.stop ≤ g.address := by
  obtain ⟨before, hsegments, -⟩ := hlast.segments
  obtain ⟨stop, horder⟩ := h.inOrder
  have hordered := horder.pairwise
  rw [hsegments] at hs hordered
  have hbelow := related_last_of_pairwise hordered hs hne
  exact hbelow

/-- The segment starts, and its hooks end, at or below the zeroed data. -/
theorem le_address : g.address ≤ z.address ∧ t.stop ≤ z.address := by
  obtain ⟨before, hsections⟩ := hlast.sections
  obtain ⟨_, -, hfits⟩ := exists_of_forall₂ h.fits_segments hlast.mem_segments
  exact ⟨(hfits.inOrder.bounds z (by simp [hsections])).1,
    (hfits.section_ordered hsections).2 z (List.mem_singleton_self z)⟩

/-- The sizes of the segment: in memory it ends with the zeroed data, in the file with the hooks. -/
theorem sizes : g.address.toNat + g.memSize.toNat = z.stop.toNat ∧
    g.address.toNat + g.fileSize.toNat = t.stop.toNat := by
  obtain ⟨before, hsections⟩ := hlast.sections
  obtain ⟨_, ht⟩ := hlast.mapped_hooks
  obtain ⟨_, hz⟩ := hlast.mapped_bss
  obtain ⟨_, -, hfits⟩ := exists_of_forall₂ h.fits_segments hlast.mem_segments
  have hzeroed : ∀ u ∈ [z], u.contents = .zeroed := List.forall_mem_singleton.2 hz.contents
  refine ⟨hfits.extent.trans (congrArg UInt64.toNat hlast.stop), ?_⟩
  rw [g.toNat_add_fileSize, hfits.fileStop_eq hsections ht.contents hzeroed]

/-- Every segment ends at or below the zeroed data in the file, and at or below its end in
    memory. -/
theorem segment_bounds {s : MappedSegment} (hs : s ∈ m.segments) :
    s.address.toNat + s.fileSize.toNat ≤ z.address.toNat ∧
      s.address.toNat + s.memSize.toNat ≤ z.stop.toNat := by
  obtain ⟨hstart, hstored⟩ := hlast.le_address h
  obtain ⟨hmem, hfile⟩ := hlast.sizes h
  rw [UInt64.le_iff_toNat_le] at hstart hstored
  rcases eq_or_ne s g with rfl | hne
  · exact ⟨hfile ▸ hstored, Nat.le_of_eq hmem⟩
  · obtain ⟨_, -, hfits⟩ := exists_of_forall₂ h.fits_segments hs
    have hstop := UInt64.le_iff_toNat_le.1 (hlast.segment_le h hs hne)
    have hsizes := UInt64.le_iff_toNat_le.1 hfits.fileSize_le
    have hextent := hfits.extent
    have hle : z.address.toNat ≤ z.stop.toNat := UInt64.le_iff_toNat_le.1 (hlast.address_le_stop h)
    omega

/-- What is placed in the zeroed data lies in it, and all else below. -/
theorem placed_bounds {u : MappedSection} (hu : u ∈ m.segments.flatMap (·.sections)) {p : Placed}
    (hp : p ∈ u.placed) :
    if u.name = bss.name then z.address.toNat ≤ p.address.toNat ∧ p.stop ≤ z.stop.toNat
    else p.stop ≤ z.address.toNat := by
  obtain ⟨s, c, hmapped, hregular⟩ := h.exists_mapped hu
  have hwithin := (hmapped.ordered hregular).1 p hp
  obtain ⟨_, hz⟩ := hlast.mapped_bss
  split
  · next hname =>
    rwa [hlast.eq_of_name h hu hname] at hwithin
  · next hname =>
    have hne : u ≠ z := by
      rintro rfl
      exact hname hz.name
    exact Nat.le_trans hwithin.2 (hlast.stop_le h hu hne)

/-- A symbol that only idle statements come before is the start of the zeroed data. -/
theorem get?_first {name : String} {k : Nat} (hk : bss.statements[k]? = some (.symbol name))
    (hidle : ∀ statement ∈ bss.statements.take k, statement.isIdle = true)
    (hne : name ≠ layout.entry) : m.symbols.get? name = some z.address := by
  obtain ⟨_, hz⟩ := hlast.mapped_bss
  exact h.get?_of_mem_symbols hlast.mem_loaded.2 (hz.symbol_at_address hk hidle) hne

/-- A symbol that only idle statements come after is the end of the zeroed data. -/
theorem get?_last {name : String} {k : Nat} (hk : bss.statements[k]? = some (.symbol name))
    (hidle : ∀ statement ∈ bss.statements.drop (k + 1), statement.isIdle = true)
    (hne : name ≠ layout.entry) : m.symbols.get? name = some z.stop := by
  obtain ⟨_, hz⟩ := hlast.mapped_bss
  exact h.get?_of_mem_symbols hlast.mem_loaded.2 (hz.symbol_at_stop hk hidle) hne

/-- The zeroed data is made of whole words. -/
theorem aligned : 4 ∣ z.address.toNat ∧ 4 ∣ z.stop.toNat := by
  obtain ⟨_, hz⟩ := hlast.mapped_bss
  exact ⟨(hz.fits (isRegular_last h).2).aligned,
    hz.dvd_stop_of_align (k := 5) (by decide) rfl (by decide)⟩

end HasZeroed

/-! ### Zeroing -/

/-- What the entry code relies on when it zeroes all memory from `first` to `last`: these are whole
    words, inputs of the zeroed section lie between them and all others below, room for
    thread-local data is empty and starts with them, and they end the image; and what is stored
    ends below, that of the last segment with the hooks. -/
structure ZeroedLast (m : LinkMap) (g : MappedSegment) (first last fileEnd : UInt64) : Prop where
  segment : m.segments.find? (·.name == "data") = some g
  bssStart : m.symbols.get? "__bss_start__" = some first
  bssEnd : m.symbols.get? "__bss_end__" = some last
  tlsStart : m.symbols.get? "__tls_start" = some first
  tlsEnd : m.symbols.get? "__tls_end" = some first
  imageEnd : m.symbols.get? "__end__" = some last
  hooksEnd : m.symbols.get? "__init_array_end" = some fileEnd
  le : first ≤ last
  aligned : 4 ∣ first.toNat ∧ 4 ∣ last.toNat
  zeroed : ∀ u ∈ m.segments.flatMap (·.sections), u.name = ".bss" → ∀ p ∈ u.placed,
    first.toNat ≤ p.address.toNat ∧ p.stop ≤ last.toNat
  others : ∀ u ∈ m.segments.flatMap (·.sections), u.name ≠ ".bss" → ∀ p ∈ u.placed,
    p.stop ≤ first.toNat
  segmentEnd : g.address.toNat + g.memSize.toNat = last.toNat
  highest : ∀ s ∈ m.segments, s.address.toNat + s.memSize.toNat ≤ last.toNat
  storedEnd : g.address.toNat + g.fileSize.toNat = fileEnd.toNat
  fileEnd_le : fileEnd ≤ first
  stored : ∀ s ∈ m.segments, s.address.toNat + s.fileSize.toNat ≤ first.toNat

/-- Whatever is linked by the standard layout, its zeroed data ends the image, and zeroing it
    clears nothing that is stored. -/
theorem zeroedLast_of_link (h : layout.link inputs collect = .ok m) :
    ∃ g first last fileEnd, ZeroedLast m g first last fileEnd := by
  have hlinked := Layout.linked_of_link h
  obtain ⟨g, t, z, hlast⟩ := exists_zeroed hlinked
  obtain ⟨_, ht⟩ := hlast.mapped_hooks
  obtain ⟨hmem, hfile⟩ := hlast.sizes hlinked
  refine ⟨g, z.address, z.stop, t.stop, ?_⟩
  exact
    { segment := hlast.find?_eq
      bssStart := hlast.get?_first hlinked (k := 0) rfl (by decide) (by decide)
      bssEnd := hlast.get?_last hlinked (k := 6) rfl (by decide) (by decide)
      tlsStart := hlast.get?_first hlinked (k := 1) rfl (by decide) (by decide)
      tlsEnd := hlast.get?_first hlinked (k := 3) rfl (by decide) (by decide)
      imageEnd := hlast.get?_last hlinked (k := 7) rfl (by decide) (by decide)
      hooksEnd := hlinked.get?_of_mem_symbols hlast.mem_loaded.1
        (ht.symbol_at_stop (k := 3) rfl (by decide)) (by decide)
      le := hlast.address_le_stop hlinked
      aligned := hlast.aligned hlinked
      zeroed := fun u hu hname p hp =>
        (if_pos hname).mp (hlast.placed_bounds hlinked hu hp)
      others := fun u hu hname p hp =>
        (if_neg hname).mp (hlast.placed_bounds hlinked hu hp)
      segmentEnd := hmem
      highest := fun s hs => (hlast.segment_bounds hlinked hs).2
      storedEnd := hfile
      fileEnd_le := (hlast.le_address hlinked).2
      stored := fun s hs => (hlast.segment_bounds hlinked hs).1 }

/-- A buffer that asks for a large alignment moves the zeroed data far behind the hooks. -/
theorem zeroedLast_of_link_buffer :
    let inputs : List Input := [⟨".crt0", 0x40, 4, true⟩, ⟨".data", 0x21, 4, true⟩,
      ⟨".init_array", 8, 4, true⟩, ⟨".bss.buffer", 0x101, 0x10000, true⟩]
    ∃ m, layout.link inputs true = .ok m ∧
      m.symbols.get? "__init_array_end" = some 0x10102c ∧
      m.symbols.get? "__bss_start__" = some 0x110000 ∧
      m.symbols.get? "__bss_end__" = some 0x110104 ∧
      ∃ g first last fileEnd, ZeroedLast m g first last fileEnd := by
  intro inputs
  obtain ⟨m, hm⟩ := exists_of_isOk (e := layout.link inputs true) (by decide +kernel)
  have hvalues : (layout.link inputs true).toOption.map (fun m =>
      (m.symbols.get? "__init_array_end", m.symbols.get? "__bss_start__",
        m.symbols.get? "__bss_end__")) = some (some 0x10102c, some 0x110000, some 0x110104) := by
    decide +kernel
  rw [hm] at hvalues
  simp only [Except.toOption, Option.map_some, Option.some.injEq, Prod.mk.injEq] at hvalues
  exact ⟨m, hm, hvalues.1, hvalues.2.1, hvalues.2.2, zeroedLast_of_link hm⟩

end Standard

end BootImage
