import BootImage.Layout.Rules

/-! Sound layouts.

    The rules walk over a layout and answer the first fault. Where they answer none, the layout is
    sound: what each walk looked for holds of the layout as a whole, without the names seen so far
    and without an order of asking. -/

namespace BootImage

open Word

/-- What the rules promise of a layout, as far as linking rests on it. -/
structure Layout.Sound (d : Layout) : Prop where
  pageSize : isPowerOfTwo d.pageSize = true
  loadAddress_aligned : isAligned d.loadAddress d.pageSize = true
  loadAddress_lt : d.loadAddress < addressLimit
  writeOrExecute : ∀ s ∈ d.segments, s.permissions.writeAndExecute = false
  names_nodup : (d.sections.map (·.name)).Nodup
  alignments : ∀ s ∈ d.sections, ∀ a ∈ s.alignments, isPowerOfTwo a = true
  symbols_nodup : d.symbols.Nodup
  required : ∀ name ∈ d.required, name ∈ d.symbols

/-! ### Walks with the names seen so far -/

/-- The names differ from each other and from those seen before. -/
def Fresh (seen names : List String) : Prop := names.Nodup ∧ ∀ name ∈ names, name ∉ seen

theorem fresh_nil (seen : List String) : Fresh seen [] := ⟨.nil, List.forall_mem_nil _⟩

/-- With nothing seen before, the names only differ from each other. -/
theorem fresh_nil_iff {names : List String} : Fresh [] names ↔ names.Nodup :=
  and_iff_left fun _ _ => List.not_mem_nil

/-- A walk goes on with the name among those seen. -/
theorem fresh_cons {seen names : List String} {name : String} :
    Fresh seen (name :: names) ↔ name ∉ seen ∧ Fresh (name :: seen) names := by
  rw [Fresh, List.nodup_cons, List.forall_mem_cons]
  simp only [Fresh, List.mem_cons, not_or]
  constructor
  · rintro ⟨⟨hname, hnodup⟩, hseen, hfresh⟩
    exact ⟨hseen, hnodup, fun other hother => ⟨fun heq => hname (heq ▸ hother), hfresh other hother⟩⟩
  · rintro ⟨hseen, hnodup, hfresh⟩
    exact ⟨⟨fun hmem => (hfresh name hmem).1 rfl, hnodup⟩, hseen,
      fun other hother => (hfresh other hother).2⟩

/-- No name is found repeated exactly if all are fresh. -/
theorem firstRepeated?_eq_none_iff {seen names : List String} :
    firstRepeated? seen names = none ↔ Fresh seen names := by
  induction names generalizing seen with
  | nil => exact iff_of_true rfl (fresh_nil seen)
  | cons name rest ih =>
    rw [firstRepeated?, fresh_cons]
    split
    · next hseen => simp [hseen]
    · next hseen => rw [ih, and_iff_right hseen]

/-- No segment is at fault exactly if the names are fresh, no segment is both writable and
    executable, and each has sections. -/
theorem segmentFault?_eq_none_iff {seen : List String} {segments : List Segment} :
    segmentFault? seen segments = none ↔ Fresh seen (segments.map (·.name)) ∧
      ∀ s ∈ segments, s.permissions.writeAndExecute = false ∧ s.sections ≠ [] := by
  induction segments generalizing seen with
  | nil => exact iff_of_true rfl ⟨fresh_nil seen, List.forall_mem_nil _⟩
  | cons s rest ih =>
    rw [segmentFault?, List.map_cons, fresh_cons, List.forall_mem_cons]
    split
    · next hseen => simp [hseen]
    · next hseen =>
      split
      · next hboth => simp [hboth]
      · next hboth =>
        split
        · next hempty => simp [List.isEmpty_iff.1 hempty]
        · next hempty =>
          have hs : s.permissions.writeAndExecute = false ∧ s.sections ≠ [] :=
            ⟨Bool.eq_false_iff.2 hboth, fun h => hempty (List.isEmpty_iff.2 h)⟩
          rw [ih, and_assoc, and_iff_right hseen, and_iff_right hs]

theorem alignmentFault?_eq_none_iff {what : String} {a : UInt64} :
    alignmentFault? what a = none ↔ isPowerOfTwo a = true := by
  rw [alignmentFault?]
  split
  · next hpow => exact iff_of_true rfl hpow
  · next hpow => exact iff_of_false (Option.some_ne_none _) hpow

/-- No section is at fault exactly if the names are fresh and every alignment is a power of two. -/
theorem sectionFault?_eq_none_iff {seen : List String} {sections : List Section} :
    sectionFault? seen sections = none ↔ Fresh seen (sections.map (·.name)) ∧
      ∀ s ∈ sections, ∀ a ∈ s.alignments, isPowerOfTwo a = true := by
  induction sections generalizing seen with
  | nil => exact iff_of_true rfl ⟨fresh_nil seen, List.forall_mem_nil _⟩
  | cons s rest ih =>
    have haligns : s.alignments.findSome? (alignmentFault? s.name) = none ↔
        ∀ a ∈ s.alignments, isPowerOfTwo a = true := by
      simp only [List.findSome?_eq_none_iff, alignmentFault?_eq_none_iff]
    rw [sectionFault?, List.map_cons, fresh_cons, List.forall_mem_cons, ← haligns]
    split
    · next hseen => simp [hseen]
    · next hseen =>
      split
      · next fault hfault => simp [hfault]
      · next hnone => rw [ih, and_assoc, and_iff_right hseen, and_iff_right hnone]

namespace Layout

theorem addressFault?_eq_none_iff {d : Layout} : d.addressFault? = none ↔
    isPowerOfTwo d.pageSize = true ∧ isAligned d.loadAddress d.pageSize = true ∧
      d.loadAddress < addressLimit := by
  rw [addressFault?]
  cases isPowerOfTwo d.pageSize with
  | false => simp
  | true =>
    cases isAligned d.loadAddress d.pageSize with
    | false => simp
    | true => simp [UInt64.not_le]

theorem symbolFault?_eq_none_iff {d : Layout} : d.symbolFault? = none ↔
    d.symbols.Nodup ∧ ∀ name ∈ d.required, name ∈ d.symbols := by
  rw [← fresh_nil_iff, ← firstRepeated?_eq_none_iff, symbolFault?]
  cases hrepeated : firstRepeated? [] d.symbols with
  | some name => simp
  | none => simp [List.find?_eq_none]

/-- A layout has no faults exactly if none of the rules finds one. -/
theorem fault?_eq_none_iff_rules {d : Layout} : d.fault? = none ↔
    d.addressFault? = none ∧ segmentFault? [] d.segments = none ∧
      sectionFault? [] d.sections = none ∧ d.symbolFault? = none ∧ d.entryFault? = none := by
  simp only [fault?, Option.orElse_eq_orElse, Option.orElse_eq_or, Option.or_eq_none_iff]

/-- A layout without faults is sound. -/
theorem sound_of_fault? {d : Layout} (h : d.fault? = none) : d.Sound := by
  obtain ⟨haddress, hsegments, hsections, hsymbols, -⟩ := fault?_eq_none_iff_rules.1 h
  obtain ⟨hpage, haligned, hlimit⟩ := addressFault?_eq_none_iff.1 haddress
  obtain ⟨hnames, haligns⟩ := sectionFault?_eq_none_iff.1 hsections
  obtain ⟨hnodup, hrequired⟩ := symbolFault?_eq_none_iff.1 hsymbols
  exact {
    pageSize := hpage
    loadAddress_aligned := haligned
    loadAddress_lt := hlimit
    writeOrExecute := fun s hs => ((segmentFault?_eq_none_iff.1 hsegments).2 s hs).1
    names_nodup := fresh_nil_iff.1 hnames
    alignments := haligns
    symbols_nodup := hnodup
    required := hrequired }

end Layout

end BootImage
