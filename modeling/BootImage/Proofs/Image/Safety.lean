import BootImage.Proofs.Image.Policy
import BootImage.Proofs.Layout.Sound

/-! What an accepted image guarantees.

    No rule looks at a range and at all segments together, but an image that passes them all is safe
    to start: what is filled with zeros, written or read as hooks lies in one segment, which is data,
    and touches no other. The entry is the load address; code lies there if the first segment that
    takes memory is code. Verification looks for code among all segments, so one that is executable
    and takes no memory satisfies it though nothing is mapped there. The main statements are
    `Layout.range_in_one_segment` and `Layout.mapsEntry_iff`.

        accepted          |== R+X ==|      |== R ==|      |=== R+W [bss) ===|
        accepted as well  |  (R+X, empty)
                          |== R =========|                                    no code at the entry -/

namespace BootImage

open Word

namespace Image

variable {f : Image} {d : Layout}

/-! ### Segments at their positions -/

theorem mem_mapped {s : LoadSegment} : s ∈ f.mapped ↔ s ∈ f.segments ∧ 0 < s.memSize := by
  rw [mapped, List.mem_filter, decide_eq_true_eq]

/-- A segment that takes memory maps its own start. -/
theorem maps_address {s : LoadSegment} (hs : 0 < s.memSize) : s.Maps s.address.toNat := by
  have hsize : 0 < s.memSize.toNat := UInt64.lt_iff_toNat_lt.1 hs
  exact ⟨Nat.le_refl _, by rw [LoadSegment.limit]; omega⟩

/-- Two segments that take memory lie apart, whichever comes first. -/
theorem SegmentsConform.apart_of_ne (h : f.SegmentsConform d) {k j : Nat} {s t : LoadSegment}
    (hk : f.segments[k]? = some s) (hj : f.segments[j]? = some t) (hs : 0 < s.memSize)
    (ht : 0 < t.memSize) (hne : j ≠ k) : s.limit ≤ t.address.toNat ∨ t.limit ≤ s.address.toNat := by
  have hpairs := List.pairwise_iff_getElem.1 (List.pairwise_filter.1 h.apart)
  obtain ⟨hklt, rfl⟩ := List.getElem?_eq_some_iff.1 hk
  obtain ⟨hjlt, rfl⟩ := List.getElem?_eq_some_iff.1 hj
  rcases Nat.lt_or_gt_of_ne hne with hlt | hlt
  · exact .inr (hpairs j k hjlt hklt hlt (decide_eq_true ht) (decide_eq_true hs))
  · exact .inl (hpairs k j hklt hjlt hlt (decide_eq_true hs) (decide_eq_true ht))

end Image

/-- An image of the standard layout that is only zeroed data besides these segments, from a fixed
    page up to `stop`; all other ranges are empty. -/
def Standard.zeroedImage (segments : List LoadSegment) (stop : UInt64) : Image where
  entry := Standard.loadAddress
  segments := segments
  symbols :=
    ((SymbolTable.ofList (Standard.contractSymbols.map fun name => (name, 0x102000))).insert
      "__bss_end__" stop).insert "__end__" stop

/-! ### Ranges -/

namespace Layout

variable {d : Layout} {f : Image}

/-- Every range of an accepted image that may be written by the runtime lies in order and in data,
    unless it is empty. -/
theorem writable_of_violations_eq_nil (hbounded : f.IsBounded) (h : d.violations f = [])
    {b : Bounds} (hb : b ∈ [Bounds.bss, .data, .preinit, .init]) :
    f.RangeConforms b f.Writable := by
  obtain ⟨-, -, -, hbss, hdata, hpreinit, hinit⟩ := violations_eq_nil.1 h
  have hlist : ∀ {b : Bounds}, f.hookListRule b = [] → f.RangeConforms b f.Writable := by
    intro b hrule first last hfirst hlast
    obtain ⟨hle, -, hwritable⟩ :=
      (Image.hookListRule_eq_nil_iff hbounded b).1 hrule first last hfirst hlast
    exact ⟨hle, hwritable⟩
  simp only [List.mem_cons, List.not_mem_nil, or_false] at hb
  rcases hb with rfl | rfl | rfl | rfl
  · intro first last hfirst hlast
    obtain ⟨hle, -, hwritable, -⟩ :=
      (Image.bssRule_eq_nil_iff hbounded).1 hbss first last hfirst hlast
    exact ⟨hle, hwritable⟩
  · exact (Image.dataRule_eq_nil_iff hbounded).1 hdata
  · exact hlist hpreinit
  · exact hlist hinit

/-- In an accepted image a range that is not empty lies in exactly one segment that takes memory.
    This segment is written and not run, and no other has a location of the range. -/
theorem range_in_one_segment (hpage : isPowerOfTwo d.pageSize = true) (hbounded : f.IsBounded)
    (h : d.violations f = []) {b : Bounds} (hb : b ∈ [Bounds.bss, .data, .preinit, .init])
    {first last : UInt64} (hfirst : f.symbols.get? b.first = some first)
    (hlast : f.symbols.get? b.last = some last) (hlt : first < last) :
    ∃ (k : Nat) (s : LoadSegment), f.segments[k]? = some s ∧ 0 < s.memSize ∧
      s.Holds first.toNat last.toNat ∧
      s.permissions.write = true ∧ s.permissions.execute = false ∧
      ∀ (j : Nat) (t : LoadSegment), f.segments[j]? = some t → 0 < t.memSize → j ≠ k →
        ¬t.Holds first.toNat last.toNat ∧
          ∀ location, first.toNat ≤ location → location < last.toNat → ¬t.Maps location := by
  have hsegments := (Image.segmentRule_eq_nil_iff hpage hbounded).1 (violations_eq_nil.1 h).2.1
  obtain ⟨-, hwritable⟩ := writable_of_violations_eq_nil hbounded h hb first last hfirst hlast
  obtain ⟨s, hs, hwrite, hexecute, hlow, hhigh⟩ := hwritable.resolve_left (UInt64.ne_of_lt hlt)
  obtain ⟨k, hk⟩ := List.mem_iff_getElem?.1 hs
  rw [UInt64.lt_iff_toNat_lt] at hlt
  have hlimit : s.limit = s.address.toNat + s.memSize.toNat := rfl
  have hsize : 0 < s.memSize := by
    rw [UInt64.lt_iff_toNat_lt, UInt64.toNat_zero]
    omega
  refine ⟨k, s, hk, hsize, ⟨hlow, hhigh⟩, hwrite, hexecute, fun j t hj ht hne => ?_⟩
  have hapart := hsegments.apart_of_ne hk hj hsize ht hne
  have hnone : ∀ location, first.toNat ≤ location → location < last.toNat → ¬t.Maps location := by
    rintro location hge hlocation ⟨hstart, hstop⟩
    omega
  refine ⟨?_, hnone⟩
  rintro ⟨hstart, hstop⟩
  exact hnone first.toNat (Nat.le_refl _) hlt ⟨hstart, by omega⟩

/-- The zeroed data of this image lies in its last segment. -/
theorem range_in_one_segment_bss :
    let f := Standard.zeroedImage [⟨.code, 0x100000, 0x240, 0x240⟩,
      ⟨.readOnly, 0x101000, 0x20, 0x20⟩, ⟨.readWrite, 0x102000, 0x40, 0⟩] 0x102040
    isPowerOfTwo Standard.layout.pageSize = true ∧ f.IsBounded ∧
      Standard.layout.violations f = [] ∧ Bounds.bss ∈ [Bounds.bss, .data, .preinit, .init] ∧
      f.symbols.get? Bounds.bss.first = some 0x102000 ∧
      f.symbols.get? Bounds.bss.last = some 0x102040 ∧ (0x102000 : UInt64) < 0x102040 ∧
      ∃ (k : Nat) (s : LoadSegment), f.segments[k]? = some s ∧ 0 < s.memSize ∧
        s.Holds 0x102000 0x102040 ∧ s.permissions.write = true ∧ s.permissions.execute = false ∧
        ∀ (j : Nat) (t : LoadSegment), f.segments[j]? = some t → 0 < t.memSize → j ≠ k →
          ¬t.Holds 0x102000 0x102040 ∧
            ∀ location, 0x102000 ≤ location → location < 0x102040 → ¬t.Maps location := by
  intro f
  have hpage : isPowerOfTwo Standard.layout.pageSize = true := by decide
  have hbounded : f.IsBounded := by decide
  have hnone : Standard.layout.violations f = [] := by decide +kernel
  have hfirst : f.symbols.get? Bounds.bss.first = some 0x102000 := by decide +kernel
  have hlast : f.symbols.get? Bounds.bss.last = some 0x102040 := by decide +kernel
  have hlt : (0x102000 : UInt64) < 0x102040 := by decide
  exact ⟨hpage, hbounded, hnone, List.mem_cons_self, hfirst, hlast, hlt,
    range_in_one_segment hpage hbounded hnone List.mem_cons_self hfirst hlast hlt⟩

end Layout

/-! ### The entry -/

namespace Image

/-- Code that may run lies at the entry. -/
def MapsEntry (f : Image) : Prop :=
  ∃ s ∈ f.segments, 0 < s.memSize ∧ s.permissions.execute = true ∧ s.Maps f.entry.toNat

/-- Code that starts at the entry and takes memory lies there. -/
theorem mapsEntry_of_address_eq {f : Image} {s : LoadSegment} (hs : s ∈ f.segments)
    (hsize : 0 < s.memSize) (hexecute : s.permissions.execute = true)
    (haddress : s.address = f.entry) : f.MapsEntry :=
  ⟨s, hs, hsize, hexecute, haddress ▸ maps_address hsize⟩

end Image

namespace Layout

variable {d : Layout} {f : Image}

/-- The first segment that takes memory is the only one that can have the entry of an accepted
    image. -/
theorem eq_first_of_maps_entry (hentry : f.EntryConforms d) (hsegments : f.SegmentsConform d)
    {s t : LoadSegment} (hs : f.mapped.head? = some s) (ht : t ∈ f.mapped)
    (hmaps : t.Maps f.entry.toNat) : t = s := by
  obtain ⟨rest, hmapped⟩ := List.head?_eq_some_iff.1 hs
  obtain ⟨s', hs', haddress⟩ := hsegments.first
  obtain rfl : s = s' := Option.some.inj (hs.symm.trans hs')
  have hpairs := hsegments.apart
  rw [hmapped] at ht hpairs
  rcases List.mem_cons.1 ht with rfl | ht
  · rfl
  · -- a later segment starts past the first, which takes memory from the entry on
    have hsize : 0 < s.memSize :=
      (Image.mem_mapped.1 (hmapped ▸ List.mem_cons_self : s ∈ f.mapped)).2
    have hpast := (Image.maps_address hsize).2
    have hle := (List.pairwise_cons.1 hpairs).1 t ht
    rw [hentry.loaded, ← haddress] at hmaps
    exact absurd hmaps.1 (Nat.not_le.2 (Nat.lt_of_lt_of_le hpast hle))

/-- Code lies at the entry of an accepted image unless its first executable segment takes no memory.
    Where no segment reaches past the word, it lies there exactly if the first segment that takes
    memory is executable. -/
theorem mapsEntry_iff (h : d.violations f = []) :
    (f.MapsEntry ∨ ∃ s, f.segments.find? (·.permissions.execute) = some s ∧ s.memSize = 0) ∧
      (d.fault? = none → f.IsBounded →
        (f.MapsEntry ↔ ∃ s, f.mapped.head? = some s ∧ s.permissions.execute = true)) := by
  obtain ⟨hentryRule, hsegmentRule, -⟩ := violations_eq_nil.1 h
  have hentry := Image.entryRule_eq_nil_iff.1 hentryRule
  refine ⟨?_, fun hfault hbounded => ?_⟩
  · obtain ⟨s, hfind, haddress⟩ := hentry.code
    have hexecute : s.permissions.execute = true := by simpa using List.find?_some hfind
    rcases eq_or_ne s.memSize 0 with hzero | hsize
    · exact .inr ⟨s, hfind, hzero⟩
    · exact .inl (Image.mapsEntry_of_address_eq (List.mem_of_find?_eq_some hfind)
        (UInt64.pos_iff_ne_zero.2 hsize) hexecute haddress)
  · have hpage := (sound_of_fault? hfault).pageSize
    have hsegments := (Image.segmentRule_eq_nil_iff hpage hbounded).1 hsegmentRule
    obtain ⟨s, hs, haddress⟩ := hsegments.first
    constructor
    · rintro ⟨t, ht, hsize, hexecute, hmaps⟩
      obtain rfl :=
        eq_first_of_maps_entry hentry hsegments hs (Image.mem_mapped.2 ⟨ht, hsize⟩) hmaps
      exact ⟨t, hs, hexecute⟩
    · rintro ⟨t, ht, hexecute⟩
      obtain rfl : s = t := Option.some.inj (hs.symm.trans ht)
      obtain ⟨hmem, hsize⟩ := Image.mem_mapped.1 (List.mem_of_head? hs)
      exact Image.mapsEntry_of_address_eq hmem hsize hexecute (haddress.trans hentry.loaded.symm)

/-- Code lies at the entry of this image, though its first executable segment takes no memory. -/
theorem mapsEntry_iff_twice :
    let f := Standard.zeroedImage [⟨.code, 0x100000, 0, 0⟩, ⟨.code, 0x100000, 0x240, 0x240⟩]
      0x102000
    Standard.layout.violations f = [] ∧ Standard.layout.fault? = none ∧ f.IsBounded ∧
      f.MapsEntry := by
  intro f
  have hnone : Standard.layout.violations f = [] := by decide +kernel
  have hfault : Standard.layout.fault? = none := by decide +kernel
  have hbounded : f.IsBounded := by decide
  exact ⟨hnone, hfault, hbounded, ((mapsEntry_iff hnone).2 hfault hbounded).2 ⟨_, rfl, rfl⟩⟩

/-- An accepted image need not have code at its entry: here the executable segment takes no memory,
    and the entry lies in data that is only read. -/
theorem not_forall_mapsEntry :
    ¬∀ (d : Layout) (f : Image), d.fault? = none → d.violations f = [] → f.MapsEntry := by
  intro hall
  let f := Standard.zeroedImage [⟨.code, 0x100000, 0, 0⟩, ⟨.readOnly, 0x100000, 0x1000, 0x1000⟩]
    0x102000
  have hfault : Standard.layout.fault? = none := by decide +kernel
  have hnone : Standard.layout.violations f = [] := by decide +kernel
  obtain ⟨s, hs, hsize, hexecute, -⟩ := hall Standard.layout f hfault hnone
  have hsegments : s = ⟨.code, 0x100000, 0, 0⟩ ∨ s = ⟨.readOnly, 0x100000, 0x1000, 0x1000⟩ := by
    simpa [f, Standard.zeroedImage] using hs
  rcases hsegments with rfl | rfl
  · exact absurd hsize (by decide)
  · exact absurd hexecute (by decide)

end Layout

end BootImage
