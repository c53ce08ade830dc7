import BootImage.Proofs.LinkMap.Entry
import BootImage.Proofs.LinkMap.Exact
import BootImage.Proofs.LinkMap.Roundings
import BootImage.Proofs.LinkMap.Symbols

/-! The outcome of linking.

    Linking ends in one of five ways, and which one can be told without its arithmetic: from the
    rules of the layout, the alignments of the inputs, the exact map over natural numbers, and the
    names of the inputs. Where it gives a link map, every number of this map is that of the exact
    one. The main statement is `Layout.outcomes`.

        the layout has a fault                   that fault
        an alignment is no power of two          badAlignment of the first such input
        an exact location passes 2 ^ 32          addressOverflow
        no input has the entry section's name    missingEntrySection
        otherwise                                the exact map, in words -/

namespace BootImage

open Word Cursor

/-! ### What can be read off an exact map -/

namespace ExactSection

def size (s : ExactSection) : Nat := s.stop - s.address

/-- The inputs of the section by name, with the locations where they start and their sizes. -/
def placed (s : ExactSection) : List (String × Nat × Nat) :=
  s.extents.filterMap fun e =>
    match e.step with
    | .place i => some (i.name, e.start, i.size.toNat)
    | _ => none

/-- The symbols of the section, with their values. -/
def symbols (s : ExactSection) : List (String × Nat) :=
  s.extents.filterMap fun e =>
    match e.step with
    | .symbol name => some (name, e.start)
    | _ => none

end ExactSection

namespace ExactSegment

def memSize (s : ExactSegment) : Nat := s.stop - s.address

/-- Up to the end of the last stored section. -/
def fileSize (s : ExactSegment) : Nat :=
  ((s.sections.filter (·.contents == .stored)).map (·.stop)).foldl max s.address - s.address

end ExactSegment

namespace ExactMap

/-- Where the first input of the first section of the code segment starts, if it is the entry
    section. -/
def entryPoint? (x : ExactMap) (entrySection : String) : Option Nat := do
  let code ← x.segments.find? (·.permissions.execute)
  let leading ← code.sections.head?
  let first ← leading.placed.head?
  if first.1 = entrySection then some first.2.1 else none

/-- The symbols of the loaded sections, with their values. -/
def symbols (x : ExactMap) : List (String × Nat) :=
  (x.segments.flatMap (·.sections)).flatMap (·.symbols)

end ExactMap

/-- Every number of the link map is that of the exact one. -/
structure LinkMap.IsExact (m : LinkMap) (d : Layout) (x : ExactMap) : Prop where
  map : d.exactOf (m.segments, m.unloaded) = x
  placed : ∀ s ∈ m.sections,
    s.placed.map (fun p => (p.name, p.address.toNat, p.size.toNat)) = s.exact.placed
  size : ∀ s ∈ m.sections, s.size.toNat = s.exact.size
  memSize : ∀ s ∈ m.segments, s.memSize.toNat = s.exact.memSize
  fileSize : ∀ s ∈ m.segments, s.fileSize.toNat = s.exact.fileSize
  entry : x.entryPoint? d.entrySection = some m.entry.toNat
  symbols : ∀ name, (m.symbols.get? name).map (·.toNat) =
    if name = d.entry then x.entryPoint? d.entrySection
    else (x.symbols.find? (·.1 == name)).map (·.2)

namespace Layout

/-- The layout can be linked, and so can the inputs as far as their alignments go. -/
structure Ready (d : Layout) (inputs : List Input) : Prop where
  fault : d.fault? = none
  aligned : ∀ i ∈ inputs, i.align.toNat.isPowerOfTwo

/-- How linking ends, case by case. -/
structure Outcomes (d : Layout) (inputs : List Input) (collect : Bool) : Prop where
  fault : ∀ f, d.fault? = some f → d.link inputs collect = .error f
  badAlignment : d.fault? = none → ∀ before i after, inputs = before ++ i :: after →
    (∀ j ∈ before, j.align.toNat.isPowerOfTwo) → ¬ i.align.toNat.isPowerOfTwo →
      d.link inputs collect = .error (.badAlignment i.name i.align)
  addressOverflow : d.Ready inputs →
    (d.link inputs collect = .error (.addressOverflow addressLimit) ↔
      ∃ l ∈ (d.exactMap (d.routing collect inputs)).locations, 2 ^ 32 < l)
  missingEntrySection : d.Ready inputs →
    (∀ l ∈ (d.exactMap (d.routing collect inputs)).locations, l ≤ 2 ^ 32) →
      '*' ∉ d.entrySection.toList → '?' ∉ d.entrySection.toList →
        (d.link inputs collect = .error (.missingEntrySection d.entrySection) ↔
          ∀ i ∈ inputs, i.name ≠ d.entrySection)
  linked : d.Ready inputs →
    (∀ l ∈ (d.exactMap (d.routing collect inputs)).locations, l ≤ 2 ^ 32) →
      d.link inputs collect ≠ .error (.missingEntrySection d.entrySection) →
        ∃ m, d.link inputs collect = .ok m ∧
          m.IsExact d (d.exactMap (d.routing collect inputs))
  roundings : d.Ready inputs → ∀ c a, (c, a) ∈ d.roundings (d.routing collect inputs) →
    c.toNat + (a.toNat - 1) < 2 ^ 64 ∧
      ∃ v, alignUp? c a = some v ∧ v.toNat = roundUp c.toNat a.toNat

end Layout

/-! ### Link maps in natural numbers -/

namespace MappedSection

theorem exact_placed (s : MappedSection) :
    s.placed.map (fun p => (p.name, p.address.toNat, p.size.toNat)) = s.exact.placed := by
  rw [placed, ExactSection.placed, exact, List.filterMap_map, List.map_filterMap]
  refine List.filterMap_congr fun e _ => ?_
  cases hstep : e.step <;> simp [Extent.placed?, Extent.exact, hstep]

theorem exact_symbols (s : MappedSection) :
    s.symbols.map (Prod.map id UInt64.toNat) = s.exact.symbols := by
  rw [symbols, ExactSection.symbols, exact, List.filterMap_map, List.map_filterMap]
  refine List.filterMap_congr fun e _ => ?_
  cases hstep : e.step <;> simp [Extent.symbol?, Extent.exact, hstep]

theorem exact_size {s : MappedSection} (h : s.address.toNat + s.size.toNat = s.stop.toNat) :
    s.size.toNat = s.exact.size :=
  Nat.eq_sub_of_add_eq' h

end MappedSection

namespace MappedSegment

theorem exact_memSize {s : MappedSegment} (h : s.address.toNat + s.memSize.toNat = s.stop.toNat) :
    s.memSize.toNat = s.exact.memSize :=
  Nat.eq_sub_of_add_eq' h

/-- The end in the file is not below the start, so the size in the file is exact. -/
theorem exact_fileSize (s : MappedSegment) : s.fileSize.toNat = s.exact.fileSize := by
  have hstart : s.address ≤ s.fileStop := le_foldl_max _ List.mem_cons_self
  have hsum : s.address.toNat + s.fileSize.toNat = s.fileStop.toNat := toNat_add_sub hstart
  have hstop : s.fileStop.toNat = ((s.exact.sections.filter (·.contents == .stored)).map
      (·.stop)).foldl max s.address.toNat := by
    rw [fileStop, toNat_foldl_max, exact, List.filter_map]
    simp only [List.map_map]
    rfl
  exact Nat.eq_sub_of_add_eq' (hsum.trans hstop)

end MappedSegment

namespace Layout

variable {d : Layout} {inputs : List Input} {collect : Bool} {m : LinkMap}

/-- The entry of the exact map is the entry, exactly. -/
theorem entryPoint?_exactOf (d : Layout) (entrySection : String) (segments : List MappedSegment)
    (unloaded : List MappedSection) :
    (d.exactOf (segments, unloaded)).entryPoint? entrySection =
      (entryAddress? entrySection segments).map (·.toNat) := by
  have hcode : (segments.map (·.exact)).find? (·.permissions.execute) =
      (segments.find? (·.permissions.execute)).map (·.exact) := List.find?_map
  rw [ExactMap.entryPoint?, entryAddress?, exactOf, hcode]
  cases segments.find? (·.permissions.execute) with
  | none => rfl
  | some code =>
    cases hsections : code.sections with
    | nil => simp [MappedSegment.exact, hsections]
    | cons s rest =>
      cases hplaced : s.placed with
      | nil => simp [MappedSegment.exact, hsections, ← s.exact_placed, hplaced]
      | cons p ps =>
        by_cases hname : p.name = entrySection <;>
          simp [MappedSegment.exact, hsections, ← s.exact_placed, hplaced, hname]

/-- The symbols of the exact map are those of the loaded sections, exactly. -/
theorem symbols_exactOf (d : Layout) (segments : List MappedSegment)
    (unloaded : List MappedSection) :
    (d.exactOf (segments, unloaded)).symbols =
      ((segments.flatMap (·.sections)).flatMap (·.symbols)).map (Prod.map id UInt64.toNat) := by
  have hsections : (segments.map (·.exact)).flatMap (·.sections) =
      (segments.flatMap (·.sections)).map (·.exact) := by
    rw [List.flatMap_map, List.map_flatMap]
    rfl
  rw [ExactMap.symbols, exactOf, hsections, List.flatMap_map, List.map_flatMap]
  exact List.flatMap_congr fun s _ => s.exact_symbols.symm

/-- What was linked is exact, where what was mapped is. -/
theorem Linked.isExact (h : d.Linked inputs collect m) {x : ExactMap}
    (hexact : d.exactOf (m.segments, m.unloaded) = x) : m.IsExact d x := by
  subst hexact
  have hentry : (d.exactOf (m.segments, m.unloaded)).entryPoint? d.entrySection =
      some m.entry.toNat := by
    rw [entryPoint?_exactOf, h.entry, Option.map_some]
  have hsection : ∀ s ∈ m.sections, s.address.toNat + s.size.toNat = s.stop.toNat := by
    intro s hs
    obtain ⟨s', hs', c, hmapped⟩ := exists_of_forall₂ h.sections hs
    exact (hmapped.fits (h.isRegular.sections s' hs')).extent
  have hsegment : ∀ s ∈ m.segments, s.address.toNat + s.memSize.toNat = s.stop.toNat := by
    intro s hs
    obtain ⟨s', -, hfits⟩ := exists_of_forall₂ h.fits_segments hs
    exact hfits.extent
  exact {
    map := rfl
    placed := fun s _ => s.exact_placed
    size := fun s hs => MappedSection.exact_size (hsection s hs)
    memSize := fun s hs => MappedSegment.exact_memSize (hsegment s hs)
    fileSize := fun s _ => s.exact_fileSize
    entry := hentry
    symbols := fun name => by
      split
      · next heq => rw [heq, h.get?_entry, hentry, Option.map_some]
      · next hne =>
        rw [h.get?_of_ne hne, symbols_exactOf, List.find?_map, Option.map_map, Option.map_map]
        rfl }

/-! ### How linking ends -/

/-- The first input that is misaligned comes after inputs that are not. -/
theorem misaligned?_append_cons {before after : List Input} {i : Input}
    (hbefore : ∀ j ∈ before, j.align.toNat.isPowerOfTwo) (hi : ¬ i.align.toNat.isPowerOfTwo) :
    misaligned? (before ++ i :: after) = some i := by
  have hnone : before.find? (!isPowerOfTwo ·.align) = none := by
    refine List.find?_eq_none.2 fun j hj => ?_
    simp [(isPowerOfTwo_iff_toNat _).2 (hbefore j hj)]
  have hfalse : isPowerOfTwo i.align = false :=
    Bool.eq_false_iff.2 fun h => hi ((isPowerOfTwo_iff_toNat _).1 h)
  rw [misaligned?, List.find?_append, hnone, Option.none_or, List.find?_cons, hfalse]
  rfl

namespace Ready

theorem isPowerOfTwo_align (h : d.Ready inputs) : ∀ i ∈ inputs, isPowerOfTwo i.align = true :=
  fun i hi => (isPowerOfTwo_iff_toNat _).2 (h.aligned i hi)

theorem isRegular (h : d.Ready inputs) (collect : Bool) :
    d.IsRegular (d.routing collect inputs) :=
  isRegular_of_sound (sound_of_fault? h.fault) h.isPowerOfTwo_align collect

theorem misaligned?_eq_none (h : d.Ready inputs) : misaligned? inputs = none :=
  List.find?_eq_none.2 fun i hi => by simp [h.isPowerOfTwo_align i hi]

/-- Where the checked walk gives up, the image is too large. -/
theorem link_eq_of_map?_eq_none (h : d.Ready inputs)
    (hmap : d.map? (d.routing collect inputs) = none) :
    d.link inputs collect = .error (.addressOverflow addressLimit) := by
  rw [link, h.fault, h.misaligned?_eq_none]
  dsimp only
  rw [hmap]

/-- Where the checked walk maps everything, only the entry can be missing. -/
theorem link_eq_of_map? (h : d.Ready inputs) {segments : List MappedSegment}
    {unloaded : List MappedSection}
    (hmap : d.map? (d.routing collect inputs) = some (segments, unloaded)) :
    (entryAddress? d.entrySection segments = none ∧
        d.link inputs collect = .error (.missingEntrySection d.entrySection)) ∨
      ((entryAddress? d.entrySection segments).isSome = true ∧
        ∃ m, d.link inputs collect = .ok m ∧ m.segments = segments ∧ m.unloaded = unloaded) := by
  rw [link, h.fault, h.misaligned?_eq_none]
  dsimp only
  rw [hmap]
  cases hentry : entryAddress? d.entrySection segments with
  | none => exact .inl ⟨rfl, by simp [hentry]⟩
  | some entry => exact .inr ⟨rfl, by simp [hentry]⟩

/-- Linking overflows exactly if some exact location passes the limit. -/
theorem link_eq_overflow_iff (h : d.Ready inputs) (collect : Bool) :
    d.link inputs collect = .error (.addressOverflow addressLimit) ↔
      ∃ l ∈ (d.exactMap (d.routing collect inputs)).locations, addressLimit.toNat < l := by
  have hagrees := agrees_map? (h.isRegular collect)
  cases hmap : d.map? (d.routing collect inputs) with
  | none =>
    rw [hmap] at hagrees
    exact ⟨fun _ => hagrees, fun _ => h.link_eq_of_map?_eq_none hmap⟩
  | some mapped =>
    rw [hmap] at hagrees
    constructor
    · intro hoverflow
      rcases h.link_eq_of_map? hmap with ⟨-, hlink⟩ | ⟨-, m, hlink, -⟩
      · rw [hlink] at hoverflow
        cases hoverflow
      · rw [hlink] at hoverflow
        cases hoverflow
    · rintro ⟨l, hl, hlt⟩
      exact absurd (hagrees.2 l hl) (Nat.not_le.2 hlt)

/-- Where no exact location passes the limit, the checked walk maps everything. -/
theorem exists_map? (h : d.Ready inputs) {collect : Bool}
    (hwithin : ∀ l ∈ (d.exactMap (d.routing collect inputs)).locations,
      l ≤ addressLimit.toNat) :
    ∃ segments unloaded, d.map? (d.routing collect inputs) = some (segments, unloaded) ∧
      d.exactOf (segments, unloaded) = d.exactMap (d.routing collect inputs) := by
  have hagrees := agrees_map? (h.isRegular collect)
  cases hmap : d.map? (d.routing collect inputs) with
  | none =>
    rw [hmap] at hagrees
    obtain ⟨l, hl, hlt⟩ := hagrees
    exact absurd (hwithin l hl) (Nat.not_le.2 hlt)
  | some mapped =>
    rw [hmap] at hagrees
    exact ⟨mapped.1, mapped.2, rfl, hagrees.1⟩

end Ready

/-- Linking ends as can be told without its arithmetic. -/
theorem outcomes (d : Layout) (inputs : List Input) (collect : Bool) :
    d.Outcomes inputs collect where
  fault := fun f hf => by rw [link, hf]
  badAlignment := by
    rintro hfault before i after rfl hbefore hi
    rw [link, hfault, misaligned?_append_cons hbefore hi]
  addressOverflow := fun h => h.link_eq_overflow_iff collect
  missingEntrySection := by
    intro h hwithin hrun hsingle
    obtain ⟨segments, unloaded, hmap, -⟩ := h.exists_map? hwithin
    have hentry := isSome_entryAddress?_iff h.fault hmap hrun hsingle
    have hlisted : (∀ i ∈ inputs, i.name ≠ d.entrySection) ↔
        ¬ ∃ i ∈ inputs, i.name = d.entrySection := by
      simp only [not_exists, not_and, ne_eq]
    rw [hlisted, ← hentry]
    rcases h.link_eq_of_map? hmap with ⟨hnone, hlink⟩ | ⟨hsome, m, hlink, -⟩
    · simp [hlink, hnone]
    · simp [hlink, hsome]
  linked := by
    intro h hwithin hne
    obtain ⟨segments, unloaded, hmap, hexact⟩ := h.exists_map? hwithin
    rcases h.link_eq_of_map? hmap with ⟨-, hlink⟩ | ⟨-, m, hlink, rfl, rfl⟩
    · exact absurd hlink hne
    · exact ⟨m, hlink, (linked_of_link hlink).isExact hexact⟩
  roundings := fun h _ _ hmem => exists_alignUp?_of_mem_roundings (h.isRegular collect) hmem

/-- An input that asks for the highest alignment does not wrap around to a low address. -/
example : Standard.layout.link [⟨".crt0", 0x40, 0x8000000000000000, true⟩] false =
    .error (.addressOverflow addressLimit) := by
  decide +kernel

end Layout

end BootImage
