import BootImage.Proofs.Image.Ranges
import BootImage.Proofs.LinkMap.Positions

/-! Images of the standard layout.

    Verification accepts what is linked by the standard layout, but for three things that only the
    inputs can decide: that there is code at all, that no code asks for more than the alignment of
    the load address, and that the hook lists are made of whole pointers. The main statement is
    `Standard.violations_eq_nil_iff`.

        0x00100000  .text      some input has a size, and none is aligned higher
                    .data
                    .preinit_array, .init_array      whole pointers between the bounds
                    .bss -/

namespace BootImage

open Word Cursor

/-- The inputs that lie in the section of this name. -/
def LinkMap.inputsIn (m : LinkMap) (name : String) : List Input :=
  (m.section? name).elim [] (·.inputs)

/-- The bounds of the range are defined, in order, and a whole number of pointers apart. -/
def Image.WholePointers (f : Image) (b : Bounds) : Prop :=
  ∃ first last, f.range? b = some (first, last) ∧ first ≤ last ∧
    Standard.pointerSize.toNat ∣ last.toNat - first.toNat

theorem Image.wholePointers_iff {f : Image} {b : Bounds} {first last : UInt64}
    (hrange : f.range? b = some (first, last)) (hle : first ≤ last) :
    f.WholePointers b ↔ Standard.pointerSize.toNat ∣ last.toNat - first.toNat := by
  constructor
  · rintro ⟨first', last', hrange', -, hdvd⟩
    rw [hrange, Option.some.injEq, Prod.mk.injEq] at hrange'
    obtain ⟨rfl, rfl⟩ := hrange'
    exact hdvd
  · intro hdvd
    exact ⟨first, last, hrange, hle, hdvd⟩

theorem Layout.Linked.inputsIn_eq {d : Layout} {inputs : List Input} {collect : Bool} {m : LinkMap}
    (h : d.Linked inputs collect m) {t : MappedSection} (ht : t ∈ m.sections) {name : String}
    (hname : t.name = name) : m.inputsIn name = t.inputs := by
  rw [LinkMap.inputsIn, ← hname, h.section?_name ht]
  rfl

namespace Standard

variable {inputs : List Input} {collect : Bool} {m : LinkMap}

/-! ### The code -/

/-- The section of the code. -/
def code : Section := text.sections.head (List.cons_ne_nil _ _)

/-- The code of a link map: its segment comes first and lies at the load address, it has one section
    that fills it, and no other segment runs. -/
structure HasCode (r : Routing) (m : LinkMap) (g : MappedSegment) (t : MappedSection) : Prop where
  segments : ∃ rest, m.segments = g :: rest ∧ ∀ s ∈ rest, s.permissions.execute = false
  execute : g.permissions.execute = true
  address : g.address = loadAddress
  sections : g.sections = [t]
  mapped : code.Mapped r loadAddress t

theorem exists_code (h : layout.Linked inputs collect m) :
    ∃ g t, HasCode (layout.routing collect inputs) m g t := by
  have hmapped : List.Forall₂ (fun s t => ∃ c, s.Mapped (layout.routing collect inputs)
    layout.pageSize c t) [text, rodata, data] m.segments := h.mapped
  obtain ⟨g, rest, ⟨c, hcode⟩, hrest, hsegments⟩ := List.forall₂_cons_left_iff.1 hmapped
  have haddress : g.address = loadAddress := by
    have hfirst := h.first
    rw [hsegments, List.head?_cons, Option.map_some, Option.some.injEq] at hfirst
    exact hfirst
  have hexecute : ∀ s ∈ rest, s.permissions.execute = false := by
    intro s hs
    obtain ⟨s', hs', c', hother⟩ := exists_of_forall₂ hrest hs
    rw [hother.permissions]
    simp only [List.mem_cons, List.not_mem_nil, or_false] at hs'
    rcases hs' with rfl | rfl <;> decide
  have hswept : Swept (Section.move? (layout.routing collect inputs)) [code] g.address g.sections
    g.stop := hcode.swept
  obtain ⟨t, hsections, hmove⟩ := hswept.exists_of_singleton
  obtain ⟨ht, -⟩ := Section.mapped_of_move? hmove
  exact ⟨g, t, {
    segments := ⟨rest, hsegments, hexecute⟩
    execute := by
      rw [hcode.permissions]
      decide
    address := haddress
    sections := hsections
    mapped := haddress ▸ ht }⟩

theorem isRegular_code (h : layout.Linked inputs collect m) :
    code.IsRegular (layout.routing collect inputs) :=
  h.isRegular.loaded (g := text) List.mem_cons_self code List.mem_cons_self

namespace HasCode

variable {g : MappedSegment} {t : MappedSection}

/-- The entry is the start of the code. -/
theorem entry_eq (hcode : HasCode (layout.routing collect inputs) m g t)
    (h : layout.Linked inputs collect m) : m.entry = t.address := by
  obtain ⟨rest, hsegments, -⟩ := hcode.segments
  have hfind : (g :: rest).find? (·.permissions.execute) = some g :=
    List.find?_cons_of_pos hcode.execute
  have hentry := h.entry
  rw [hsegments, entryAddress?, hfind] at hentry
  simp only [hcode.sections, List.head?_cons, Option.bind_eq_bind, Option.bind_some,
    Option.bind_eq_some_iff, Option.ite_none_right_eq_some, Option.some.injEq] at hentry
  obtain ⟨first, hfirst, -, haddress⟩ := hentry
  rw [← haddress]
  exact hcode.mapped.address_of_head?_placed (isRegular_code h) (by decide) first hfirst

/-- The code is loaded if one of its inputs has a size. -/
theorem isLoaded_iff (hcode : HasCode (layout.routing collect inputs) m g t)
    (h : layout.Linked inputs collect m) : g.isLoaded = true ↔ ∃ i ∈ t.inputs, 0 < i.size := by
  have hr := isRegular_code h
  rw [← hcode.mapped.address_lt_stop_iff hr (by decide), MappedSegment.isLoaded, hcode.sections,
    List.any_cons, List.any_nil, Bool.or_false, decide_eq_true_eq]
  exact sub_pos_iff (hcode.mapped.inOrder hr).le

/-- Code that is loaded comes first in the image. -/
theorem image_of_isLoaded {r : Routing} (hcode : HasCode r m g t) (hloaded : g.isLoaded = true) :
    ∃ loaded, m.image.segments = g.summary :: loaded := by
  obtain ⟨rest, hsegments, -⟩ := hcode.segments
  rw [LinkMap.image, hsegments, List.filter_cons_of_pos hloaded]
  exact ⟨_, rfl⟩

/-- Without it nothing in the image runs. -/
theorem find?_of_not_isLoaded {r : Routing} (hcode : HasCode r m g t)
    (hloaded : g.isLoaded = false) :
    m.image.segments.find? (·.permissions.execute) = none := by
  obtain ⟨rest, hsegments, hrest⟩ := hcode.segments
  refine List.find?_eq_none.2 fun s hs => ?_
  obtain ⟨s', hs', rfl⟩ := List.mem_map.1 hs
  rw [hsegments, List.filter_cons_of_neg (by simp [hloaded])] at hs'
  exact Bool.eq_false_iff.1 (hrest s' (List.mem_filter.1 hs').1)

/-- The rules for the entry and for segments find nothing exactly if there is code and none of it is
    aligned higher than the load address. -/
theorem rules_eq_nil_iff (hcode : HasCode (layout.routing collect inputs) m g t)
    (h : layout.Linked inputs collect m) :
    (m.image.entryRule layout = [] ∧ m.image.segmentRule layout = []) ↔
      (∃ i ∈ t.inputs, 0 < i.size) ∧ ∀ i ∈ t.inputs, i.align ≤ loadAddress := by
  have haddress := hcode.mapped.address_eq_iff (isRegular_code h) (by decide) (by decide)
  rw [h.entryRule_eq_nil_iff, h.segmentRule_eq_nil_iff, ← hcode.isLoaded_iff h, ← haddress,
    ← hcode.entry_eq h]
  cases hloaded : g.isLoaded with
  | true =>
    obtain ⟨loaded, himage⟩ := hcode.image_of_isLoaded hloaded
    have hfind : m.image.segments.find? (·.permissions.execute) = some g.summary := by
      rw [himage]
      exact List.find?_cons_of_pos hcode.execute
    have hsummary : g.summary.address = loadAddress := hcode.address
    rw [hfind, himage, List.head?_cons, Option.map_some, hsummary]
    constructor
    · rintro ⟨⟨-, hentry⟩, -⟩
      exact ⟨rfl, hentry⟩
    · rintro ⟨-, hentry⟩
      exact ⟨⟨congrArg some hentry.symm, hentry⟩, rfl⟩
  | false =>
    -- whatever else is loaded, the entry is not the start of code
    simp [hcode.find?_of_not_isLoaded hloaded]

end HasCode

/-! ### The writable data -/

/-- A section of the writable data was placed in a segment that may be written. -/
theorem exists_data (h : layout.Linked inputs collect m) {s : Section} (hs : s ∈ data.sections) :
    ∃ g ∈ m.segments, g.summary.isData = true ∧ ∃ t ∈ g.sections, (t.address ≤ t.stop) ∧
      s.IsRegular (layout.routing collect inputs) ∧
      ∃ c, s.Mapped (layout.routing collect inputs) c t := by
  have hdata : data ∈ layout.segments := by simp [layout]
  obtain ⟨g, hg, hpermissions, t, ht, c, hmapped⟩ := h.exists_section hdata hs
  have hr := h.isRegular.loaded hdata s hs
  refine ⟨g, hg, ?_, t, ht, (hmapped.inOrder hr).le, hr, c, hmapped⟩
  change (g.permissions.write && !g.permissions.execute) = true
  rw [hpermissions]
  decide

/-- The stored data may be written. -/
theorem dataRule_eq_nil (h : layout.Linked inputs collect m) :
    m.image.rangeRule .data (m.image.writableRule .data) = [] := by
  obtain ⟨g, hg, hdata, t, ht, hle, -, c, hmapped⟩ := exists_data h List.mem_cons_self
  have hfirst := hmapped.symbol_at_address (k := 0) rfl (by decide)
  have hlast := hmapped.symbol_at_stop (k := 3) rfl (by decide)
  have hrange := h.range?_eq (b := .data) hg ht hfirst hlast (by decide)
  rw [Image.rangeRule_of_range? hrange hle]
  exact h.writableRule_eq_nil hg hdata ht (UInt64.le_refl _) hle (UInt64.le_refl _)

/-- The zeroed data is whole, may be written, and ends the image. -/
theorem bssRule_eq_nil (h : layout.Linked inputs collect m) : m.image.bssRule = [] := by
  obtain ⟨g, hg, hdata, t, ht, hle, hr, c, hmapped⟩ := exists_data h
    (List.mem_cons_of_mem _ (List.mem_cons_of_mem _ (List.mem_cons_of_mem _ List.mem_cons_self)))
  have hbssFirst := hmapped.symbol_at_address (k := 0) rfl (by decide)
  have hbssLast := hmapped.symbol_at_stop (k := 6) rfl (by decide)
  have htlsFirst := hmapped.symbol_at_address (k := 1) rfl (by decide)
  have htlsLast := hmapped.symbol_at_address (k := 3) rfl (by decide)
  have hend := hmapped.symbol_at_stop (k := 7) rfl (by decide)
  have hbss := h.range?_eq (b := .bss) hg ht hbssFirst hbssLast (by decide)
  have htls := h.range?_eq (b := .tls) hg ht htlsFirst htlsLast (by decide)
  have hget : m.image.symbols.get? "__end__" = some t.stop :=
    h.get?_of_mem_symbols (List.mem_flatMap.2 ⟨g, hg, ht⟩) hend (by decide)
  have haddress : isAligned t.address 4 = true :=
    (isAligned_iff_dvd _ (by decide)).2 (hmapped.fits hr).aligned
  have hstop : isAligned t.stop 4 = true :=
    (isAligned_iff_dvd _ (by decide)).2
      (hmapped.dvd_stop_of_align (k := 5) (by decide) rfl (by decide))
  have hwritable := h.writableRule_eq_nil (b := .bss) hg hdata ht (UInt64.le_refl _) hle
    (UInt64.le_refl _)
  rw [Image.bssRule, Image.rangeRule_of_range? hbss hle,
    Image.rangeRule_of_range? htls (UInt64.le_refl _), hwritable, haddress, hstop, hget]
  simp [UInt64.not_lt.2 hle]

/-! ### Hook lists -/

/-- A hook list fills its section between its two symbols, and may be written. -/
theorem exists_hookList (h : layout.Linked inputs collect m) {name prioritized : String}
    {b : Bounds} (hs : hookList name prioritized b.first b.last ∈ data.sections)
    (hentry : layout.entry ∉ [b.first, b.last]) :
    ∃ first last, m.image.range? b = some (first, last) ∧ first ≤ last ∧
      m.image.writableRule b first last = [] ∧ pointerSize.toNat ∣ first.toNat ∧
      ((∀ i ∈ m.inputsIn name, pointerSize.toNat ∣ i.size.toNat) →
        pointerSize.toNat ∣ last.toNat) := by
  obtain ⟨g, hg, hdata, t, ht, hle, hr, c, hmapped⟩ := exists_data h hs
  have hfirst := hmapped.symbol_at_address (k := 0) rfl (by simp [hookList])
  have hlast := hmapped.symbol_at_stop (k := 3) rfl (by simp [hookList])
  have hinputs : m.inputsIn name = t.inputs :=
    h.inputsIn_eq (List.mem_append_left _ (List.mem_flatMap.2 ⟨g, hg, ht⟩)) hmapped.name
  refine ⟨t.address, t.stop, h.range?_eq hg ht hfirst hlast hentry, hle,
    h.writableRule_eq_nil hg hdata ht (UInt64.le_refl _) hle (UInt64.le_refl _),
    (hmapped.fits hr).aligned, fun hsizes => ?_⟩
  rw [hinputs] at hsizes
  exact hmapped.dvd_stop_of_sizes hr (by decide) (Nat.dvd_refl _) (by simp [hookList, keep]) hsizes

/-- The rule for a hook list finds nothing exactly if the list is made of whole pointers. -/
theorem hookListRule_eq_nil_iff (h : layout.Linked inputs collect m) {name prioritized : String}
    {b : Bounds} (hs : hookList name prioritized b.first b.last ∈ data.sections)
    (hentry : layout.entry ∉ [b.first, b.last]) :
    m.image.hookListRule b = [] ↔ m.image.WholePointers b := by
  obtain ⟨first, last, hrange, hle, hwritable, hfirst, -⟩ := exists_hookList h hs hentry
  have haligned : isAligned first pointerSize = true :=
    (isAligned_iff_dvd _ (by decide)).2 hfirst
  rw [Image.wholePointers_iff hrange hle, ← sub_mod_eq_zero_iff hle, Image.hookListRule,
    Image.rangeRule_of_range? hrange hle, hwritable, haligned]
  simp

/-- A hook list whose inputs are made of whole pointers is. -/
theorem wholePointers_of_sizes (h : layout.Linked inputs collect m) {name prioritized : String}
    {b : Bounds} (hs : hookList name prioritized b.first b.last ∈ data.sections)
    (hentry : layout.entry ∉ [b.first, b.last])
    (hsizes : ∀ i ∈ m.inputsIn name, pointerSize.toNat ∣ i.size.toNat) :
    m.image.WholePointers b := by
  obtain ⟨first, last, hrange, hle, -, hfirst, hlast⟩ := exists_hookList h hs hentry
  exact (Image.wholePointers_iff hrange hle).2 (Nat.dvd_sub (hlast hsizes) hfirst)

/-! ### The whole report -/

/-- Every symbol of the contract is defined. -/
theorem symbolRule_eq_nil (h : layout.Linked inputs collect m) :
    m.image.symbolRule layout = [] := by
  have hdefined : ∀ name ∈ layout.required, name ∈ layout.loaded.flatMap (·.symbols) := by decide
  have hmissing : layout.required.filter (fun name => (m.symbols.get? name).isNone) = [] := by
    refine List.filter_eq_nil_iff.2 fun name hname => ?_
    simp [Option.isSome_iff_ne_none.1 (h.isSome_get? (hdefined name hname))]
  exact List.map_eq_nil_iff.2 hmissing

/-- Verifying what was linked by the standard layout finds nothing exactly if some code has a size,
    no code is aligned higher than the load address, and both hook lists are made of whole pointers.
    The lists are, if all their inputs are; and the alignments, being powers of two, then divide the
    load address. -/
theorem violations_eq_nil_iff (h : layout.link inputs collect = .ok m) :
    (layout.violations m.image = [] ↔
      (∃ i ∈ m.inputsIn ".text", 0 < i.size) ∧
      (∀ i ∈ m.inputsIn ".text", i.align ≤ loadAddress) ∧
      m.image.WholePointers .preinit ∧ m.image.WholePointers .init) ∧
    ((∀ i ∈ m.inputsIn ".preinit_array" ++ m.inputsIn ".init_array",
        pointerSize.toNat ∣ i.size.toNat) →
      m.image.WholePointers .preinit ∧ m.image.WholePointers .init) ∧
    ∀ i ∈ m.inputsIn ".text", i.align ≤ loadAddress → i.align.toNat ∣ loadAddress.toNat := by
  have hlinked := Layout.linked_of_link h
  have hpreinit : hookList ".preinit_array" ".preinit_array.*" "__preinit_array_start"
      "__preinit_array_end" ∈ data.sections := List.mem_cons_of_mem _ List.mem_cons_self
  have hinit : hookList ".init_array" ".init_array.*" "__init_array_start"
      "__init_array_end" ∈ data.sections :=
    List.mem_cons_of_mem _ (List.mem_cons_of_mem _ List.mem_cons_self)
  obtain ⟨g, t, hcode⟩ := exists_code hlinked
  have hmem : t ∈ m.sections := by
    obtain ⟨rest, hsegments, -⟩ := hcode.segments
    rw [LinkMap.sections, hsegments, List.flatMap_cons, hcode.sections]
    simp
  have htext : m.inputsIn ".text" = t.inputs := hlinked.inputsIn_eq hmem hcode.mapped.name
  refine ⟨?_, ?_, ?_⟩
  · rw [htext, ← and_assoc, ← hcode.rules_eq_nil_iff hlinked,
      ← hookListRule_eq_nil_iff hlinked (b := .preinit) hpreinit (by decide),
      ← hookListRule_eq_nil_iff hlinked (b := .init) hinit (by decide)]
    simp only [Layout.violations, List.append_eq_nil_iff, symbolRule_eq_nil hlinked,
      bssRule_eq_nil hlinked, dataRule_eq_nil hlinked, and_true, and_assoc]
  · intro hsizes
    rw [List.forall_mem_append] at hsizes
    exact ⟨wholePointers_of_sizes hlinked (b := .preinit) hpreinit (by decide) hsizes.1,
      wholePointers_of_sizes hlinked (b := .init) hinit (by decide) hsizes.2⟩
  · intro i hi hle
    rw [htext] at hi
    have hpow := hlinked.inputs_aligned i (hlinked.inputs_subset hmem hi)
    exact dvd_of_le hpow (by decide) hle

/-- An image with code, hooks and zeroed data is accepted, so its hook lists are whole. -/
theorem violations_eq_nil_iff_hooks :
    let inputs : List Input := [⟨".crt0", 0x40, 4, true⟩, ⟨".init_array", 4, 4, true⟩,
      ⟨".init_array.00010", 8, 4, true⟩, ⟨".bss.buffer", 0x21, 8, true⟩]
    ∃ m, layout.link inputs true = .ok m ∧ layout.violations m.image = [] ∧
      (∃ i ∈ m.inputsIn ".text", 0 < i.size) ∧
      (∀ i ∈ m.inputsIn ".text", i.align ≤ loadAddress) ∧
      m.image.WholePointers .preinit ∧ m.image.WholePointers .init := by
  intro inputs
  obtain ⟨m, hm⟩ := exists_of_isOk (e := layout.link inputs true) (by decide +kernel)
  have hnone : (layout.link inputs true).toOption.map (layout.violations ·.image) = some [] := by
    decide +kernel
  rw [hm] at hnone
  simp only [Except.toOption, Option.map_some, Option.some.injEq] at hnone
  exact ⟨m, hm, hnone, (violations_eq_nil_iff hm).1.1 hnone⟩

end Standard

end BootImage
