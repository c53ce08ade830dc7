import BootImage.Proofs.Image.Rules
import BootImage.Proofs.Word
import Mathlib.Data.List.Chain

/-! What verification decides.

    The policy for images says where the entry lies, how segments lie to each other, and what the
    ranges between two symbols hold. Here it is written down as it reads, about all segments at once
    and about natural numbers. Verification asks less: it compares a segment with the next one only,
    it takes declared permissions at their first chance, and its sums wrap. In an image where no
    segment reaches past the word it decides the policy all the same. The main statement is
    `Layout.violations_eq_nil_iff_conforms`.

        policy        s₀ ends before s₁, s₂, s₃ start,  s₁ before s₂, s₃,  s₂ before s₃
        verification  s₀ ends before s₁ starts,  s₁ before s₂,  s₂ before s₃ -/

namespace BootImage

open Word

/-! ### The policy -/

namespace LoadSegment

/-- The first location past a segment. -/
def limit (s : LoadSegment) : Nat := s.address.toNat + s.memSize.toNat

/-- The location lies in the segment. -/
def Maps (s : LoadSegment) (location : Nat) : Prop :=
  s.address.toNat ≤ location ∧ location < s.limit

/-- The locations from `first` up to `last` lie in the segment. -/
def Holds (s : LoadSegment) (first last : Nat) : Prop :=
  s.address.toNat ≤ first ∧ last ≤ s.limit

end LoadSegment

namespace Image

/-- No segment reaches past the word. -/
def IsBounded (f : Image) : Prop := ∀ s ∈ f.segments, s.limit < UInt64.size

/-- The segments that take memory. -/
def mapped (f : Image) : List LoadSegment := f.segments.filter (0 < ·.memSize)

/-- The entry is where the symbol is, if that is defined, where code starts, and where the image is
    loaded. -/
structure EntryConforms (f : Image) (d : Layout) : Prop where
  symbol : ∀ value, f.symbols.get? d.entry = some value → value = f.entry
  code : ∃ s, f.segments.find? (·.permissions.execute) = some s ∧ s.address = f.entry
  loaded : f.entry = d.loadAddress

/-- The segments that take memory start at the load address, come in declared order though some may
    be left out, and lie apart; each is on a page, stores no more than it maps, and is not both
    written and run. -/
structure SegmentsConform (f : Image) (d : Layout) : Prop where
  first : ∃ s, f.mapped.head? = some s ∧ s.address = d.loadAddress
  permissions : (f.mapped.map (·.permissions)).Sublist (d.segments.map (·.permissions))
  writeOrExecute : ∀ s ∈ f.mapped, ¬(s.permissions.write = true ∧ s.permissions.execute = true)
  aligned : ∀ s ∈ f.mapped, d.pageSize.toNat ∣ s.address.toNat
  stored : ∀ s ∈ f.mapped, s.fileSize ≤ s.memSize
  apart : f.mapped.Pairwise fun s t => s.limit ≤ t.address.toNat

/-- A range is empty, or lies in one segment that is written and not run. -/
def Writable (f : Image) (first last : UInt64) : Prop :=
  first = last ∨ ∃ s ∈ f.segments, s.permissions.write = true ∧ s.permissions.execute = false ∧
    s.Holds first.toNat last.toNat

/-- If both bounds of a range are defined, they are in order and as `P` says. -/
def RangeConforms (f : Image) (b : Bounds) (P : UInt64 → UInt64 → Prop) : Prop :=
  ∀ first last, f.symbols.get? b.first = some first → f.symbols.get? b.last = some last →
    first ≤ last ∧ P first last

/-- Zeroed data is made of whole words, may be written, holds the thread-local data, and lies below
    the end of the image. -/
def BssConforms (f : Image) : Prop :=
  f.RangeConforms .bss fun first last =>
    (4 ∣ first.toNat ∧ 4 ∣ last.toNat) ∧ f.Writable first last ∧
      (f.RangeConforms .tls fun tlsFirst tlsLast => first ≤ tlsFirst ∧ tlsLast ≤ last) ∧
      ∀ stop, f.symbols.get? "__end__" = some stop → last ≤ stop

/-- A hook list is made of whole pointers, and may be written. -/
def HookListConforms (f : Image) (b : Bounds) : Prop :=
  f.RangeConforms b fun first last =>
    (Standard.pointerSize.toNat ∣ last.toNat - first.toNat ∧
      Standard.pointerSize.toNat ∣ first.toNat) ∧ f.Writable first last

/-- The image follows the policy of the layout. -/
structure Conforms (f : Image) (d : Layout) : Prop where
  entry : f.EntryConforms d
  segments : f.SegmentsConform d
  symbols : ∀ name ∈ d.required, (f.symbols.get? name).isSome = true
  bss : f.BssConforms
  data : f.RangeConforms .data f.Writable
  preinit : f.HookListConforms .preinit
  init : f.HookListConforms .init

/-! ### Segments -/

theorem IsBounded.toNat_stop {f : Image} (h : f.IsBounded) {s : LoadSegment}
    (hs : s ∈ f.segments) : s.stop.toNat = s.limit := by
  have hlt : s.limit < 2 ^ 64 := h s hs
  rw [LoadSegment.stop, UInt64.toNat_add]
  exact Nat.mod_eq_of_lt hlt

variable {f : Image} {d : Layout}

theorem map_snd_loaded (f : Image) : f.loaded.map (·.2) = f.mapped := by
  rw [mapped, ← f.map_snd_numbered, List.filter_map]
  rfl

theorem mem_segments_of_mem_mapped {s : LoadSegment} (hs : s ∈ f.mapped) : s ∈ f.segments :=
  (List.mem_filter.1 hs).1

/-- Segments of which each ends before the next one starts lie apart, since none ends before it
    starts. -/
theorem pairwise_of_isChain {segments : List LoadSegment}
    (h : segments.IsChain fun s t => s.limit ≤ t.address.toNat) :
    segments.Pairwise fun s t => s.limit ≤ t.address.toNat := by
  let R := fun s t : LoadSegment => s.limit ≤ t.address.toNat
  have htrans : ∀ {s t u : LoadSegment}, R s t → R t u → R s u := fun {s t u} hst htu =>
    Nat.le_trans hst (Nat.le_trans (Nat.le_add_right _ _) htu)
  have : Trans R R R := ⟨htrans⟩
  exact List.IsChain.pairwise (R := R) h

/-- Where no segment reaches past the word, comparing neighbours compares all. -/
theorem overlapRule_eq_nil_iff (hbounded : f.IsBounded) :
    overlapRule f.loaded = [] ↔ f.mapped.Pairwise fun s t => s.limit ≤ t.address.toNat := by
  have hmap : (f.loaded.IsChain fun a b => a.2.stop ≤ b.2.address) ↔
      f.mapped.IsChain fun s t => s.stop ≤ t.address := by
    rw [← map_snd_loaded, List.isChain_map]
  rw [overlapRule_eq_nil, hmap]
  constructor
  · intro h
    refine pairwise_of_isChain (h.imp_of_mem_imp fun s t hs _ hle => ?_)
    rw [← hbounded.toNat_stop (mem_segments_of_mem_mapped hs)]
    exact UInt64.le_iff_toNat_le.1 hle
  · intro h
    refine h.isChain.imp_of_mem_imp fun s t hs _ hle => ?_
    rw [UInt64.le_iff_toNat_le, hbounded.toNat_stop (mem_segments_of_mem_mapped hs)]
    exact hle

/-- The rules for single segments ask what the policy does. -/
theorem permissionRules_eq_nil_iff (hpage : isPowerOfTwo d.pageSize = true) :
    permissionRules d.pageSize (d.segments.map (·.permissions)) f.loaded = [] ↔
      (f.mapped.map (·.permissions)).Sublist (d.segments.map (·.permissions)) ∧
        ∀ s ∈ f.mapped, ¬(s.permissions.write = true ∧ s.permissions.execute = true) ∧
          d.pageSize.toNat ∣ s.address.toNat ∧ s.fileSize ≤ s.memSize := by
  rw [permissionRules_eq_nil, ← map_snd_loaded, List.map_map, List.forall_mem_map]
  refine and_congr Iff.rfl (forall₂_congr fun s _ => ?_)
  rw [isAligned_iff_dvd _ hpage, Permissions.writeAndExecute_eq, ← Bool.not_eq_true,
    Bool.and_eq_true]

/-- The rules for segments find nothing exactly if the segments are as the policy says. -/
theorem segmentRule_eq_nil_iff (hpage : isPowerOfTwo d.pageSize = true)
    (hbounded : f.IsBounded) : f.segmentRule d = [] ↔ f.SegmentsConform d := by
  have hfirst : f.mapped.head? = f.loaded.head?.map (·.2) := by
    rw [← map_snd_loaded, List.head?_map]
  have hsingle := permissionRules_eq_nil_iff (f := f) hpage
  have hpairs := overlapRule_eq_nil_iff hbounded
  rw [segmentRule]
  cases hloaded : f.loaded with
  | nil =>
    rw [hloaded] at hfirst
    refine iff_of_false (by simp) fun h => ?_
    obtain ⟨s, hs, -⟩ := h.first
    rw [hfirst] at hs
    cases hs
  | cons first rest =>
    rw [hloaded] at hfirst hsingle hpairs
    simp only [List.append_eq_nil_iff, reportIf_eq_nil, bne_eq_false_iff_eq, hsingle, hpairs]
    constructor
    · rintro ⟨⟨haddress, hsub, hall⟩, hapart⟩
      exact {
        first := ⟨first.2, hfirst, haddress⟩
        permissions := hsub
        writeOrExecute := fun s hs => (hall s hs).1
        aligned := fun s hs => (hall s hs).2.1
        stored := fun s hs => (hall s hs).2.2
        apart := hapart }
    · intro h
      obtain ⟨s, hs, haddress⟩ := h.first
      obtain rfl : first.2 = s := Option.some.inj (hfirst.symm.trans hs)
      exact ⟨⟨haddress, h.permissions, fun s hs =>
        ⟨h.writeOrExecute s hs, h.aligned s hs, h.stored s hs⟩⟩, h.apart⟩

/-! ### The entry and the symbols -/

/-- The rule for the entry finds nothing exactly if the entry is as the policy says. -/
theorem entryRule_eq_nil_iff : f.entryRule d = [] ↔ f.EntryConforms d := by
  rw [entryRule, List.append_eq_nil_iff, List.append_eq_nil_iff, reportIf_eq_nil, reportIf_eq_nil,
    bne_eq_false_iff_eq, bne_eq_false_iff_eq, Option.map_eq_some_iff]
  constructor
  · rintro ⟨⟨hsymbol, hcode⟩, hloaded⟩
    refine ⟨fun value hvalue => ?_, hcode, hloaded⟩
    simpa [hvalue] using hsymbol
  · intro h
    refine ⟨⟨?_, h.code⟩, h.loaded⟩
    cases hvalue : f.symbols.get? d.entry with
    | none => rfl
    | some value => simp [h.symbol value hvalue]

/-- The rule for symbols finds nothing exactly if every required symbol is defined. -/
theorem symbolRule_eq_nil_iff :
    f.symbolRule d = [] ↔ ∀ name ∈ d.required, (f.symbols.get? name).isSome = true := by
  rw [symbolRule, List.map_eq_nil_iff, List.filter_eq_nil_iff]
  refine forall₂_congr fun name _ => ?_
  cases f.symbols.get? name <;> simp

/-! ### Ranges -/

/-- A rule for a range finds nothing exactly if what it asks of bounds in order is `P`. -/
theorem rangeRule_eq_nil_iff {b : Bounds} {inOrder : UInt64 → UInt64 → List Violation}
    {P : UInt64 → UInt64 → Prop}
    (hP : ∀ first last, first ≤ last → (inOrder first last = [] ↔ P first last)) :
    f.rangeRule b inOrder = [] ↔ f.RangeConforms b P := by
  rw [rangeRule, range?, RangeConforms]
  cases f.symbols.get? b.first with
  | none => simp
  | some first =>
    cases f.symbols.get? b.last with
    | none => simp
    | some last =>
      rcases UInt64.lt_or_le last first with hlt | hle
      · simp [hlt, UInt64.not_le.2 hlt]
      · simp [UInt64.not_lt.2 hle, hle, hP first last hle]

/-- The rule for writing asks what the policy does. -/
theorem writableRule_eq_nil_iff (hbounded : f.IsBounded) (b : Bounds) (first last : UInt64) :
    f.writableRule b first last = [] ↔ f.Writable first last := by
  have hcovers : ∀ s ∈ f.segments, (s.isData && s.covers first last) = true ↔
      s.permissions.write = true ∧ s.permissions.execute = false ∧
        s.Holds first.toNat last.toNat := by
    intro s hs
    have hlast : last ≤ s.stop ↔ last.toNat ≤ s.limit := by
      rw [UInt64.le_iff_toNat_le, hbounded.toNat_stop hs]
    simp only [LoadSegment.isData, LoadSegment.covers, Bool.and_eq_true, Bool.not_eq_true',
      decide_eq_true_eq, hlast, and_assoc]
    rfl
  rw [writableRule, reportIf_eq_nil, Writable, Bool.and_eq_false_iff, bne_eq_false_iff_eq,
    Bool.not_eq_false', List.any_eq_true]
  exact or_congr Iff.rfl (exists_congr fun s => and_congr_right fun hs => hcovers s hs)

/-- The rule for zeroed data finds nothing exactly if that is as the policy says. -/
theorem bssRule_eq_nil_iff (hbounded : f.IsBounded) : f.bssRule = [] ↔ f.BssConforms := by
  refine rangeRule_eq_nil_iff fun first last _ => ?_
  have hwords : (!isAligned first 4 || !isAligned last 4) = false ↔
      4 ∣ first.toNat ∧ 4 ∣ last.toNat := by
    have hfour : isPowerOfTwo 4 = true := by decide
    rw [Bool.or_eq_false_iff, Bool.not_eq_false', Bool.not_eq_false', isAligned_iff_dvd _ hfour,
      isAligned_iff_dvd _ hfour]
    rfl
  have htls : (f.rangeRule .tls fun tlsFirst tlsLast =>
      reportIf (tlsFirst < first || last < tlsLast) .tlsOutsideBss) = [] ↔
        f.RangeConforms .tls fun tlsFirst tlsLast => first ≤ tlsFirst ∧ tlsLast ≤ last :=
    rangeRule_eq_nil_iff fun tlsFirst tlsLast _ => by simp
  have hend : (f.symbols.get? "__end__").any (· < last) = false ↔
      ∀ stop, f.symbols.get? "__end__" = some stop → last ≤ stop := by
    cases f.symbols.get? "__end__" <;> simp
  simp only [List.append_eq_nil_iff, reportIf_eq_nil, writableRule_eq_nil_iff hbounded, hwords,
    htls, hend, and_assoc]

theorem dataRule_eq_nil_iff (hbounded : f.IsBounded) :
    f.rangeRule .data (f.writableRule .data) = [] ↔ f.RangeConforms .data f.Writable :=
  rangeRule_eq_nil_iff fun first last _ => writableRule_eq_nil_iff hbounded .data first last

/-- The rule for a hook list finds nothing exactly if the list is as the policy says. -/
theorem hookListRule_eq_nil_iff (hbounded : f.IsBounded) (b : Bounds) :
    f.hookListRule b = [] ↔ f.HookListConforms b := by
  refine rangeRule_eq_nil_iff fun first last hle => ?_
  have hpow : isPowerOfTwo Standard.pointerSize = true := by decide
  rw [List.append_eq_nil_iff, reportIf_eq_nil, writableRule_eq_nil_iff hbounded,
    Bool.or_eq_false_iff, bne_eq_false_iff_eq, Bool.not_eq_false', sub_mod_eq_zero_iff hle,
    isAligned_iff_dvd _ hpow]

/-- Whether an image is bounded can be computed. -/
instance (f : Image) : Decidable f.IsBounded :=
  inferInstanceAs (Decidable (∀ s ∈ f.segments, s.limit < UInt64.size))

end Image

/-! ### The whole report -/

namespace Layout

variable {d : Layout} {f : Image}

/-- A report is empty if each rule finds nothing. -/
theorem violations_eq_nil : d.violations f = [] ↔
    f.entryRule d = [] ∧ f.segmentRule d = [] ∧ f.symbolRule d = [] ∧ f.bssRule = [] ∧
      f.rangeRule .data (f.writableRule .data) = [] ∧ f.hookListRule .preinit = [] ∧
      f.hookListRule .init = [] := by
  simp only [violations, List.append_eq_nil_iff, and_assoc]

/-- Verification finds nothing exactly if the image follows the policy of the layout. -/
theorem violations_eq_nil_iff_conforms (hpage : isPowerOfTwo d.pageSize = true)
    (hbounded : f.IsBounded) : d.violations f = [] ↔ f.Conforms d := by
  rw [violations_eq_nil, Image.entryRule_eq_nil_iff, Image.segmentRule_eq_nil_iff hpage hbounded,
    Image.symbolRule_eq_nil_iff, Image.bssRule_eq_nil_iff hbounded,
    Image.dataRule_eq_nil_iff hbounded, Image.hookListRule_eq_nil_iff hbounded,
    Image.hookListRule_eq_nil_iff hbounded]
  constructor
  · rintro ⟨hentry, hsegments, hsymbols, hbss, hdata, hpreinit, hinit⟩
    exact ⟨hentry, hsegments, hsymbols, hbss, hdata, hpreinit, hinit⟩
  · intro h
    exact ⟨h.entry, h.segments, h.symbols, h.bss, h.data, h.preinit, h.init⟩

/-- An image with code, hooks and zeroed data, whose empty read-only segment lies in between,
    follows the policy. -/
theorem violations_eq_nil_iff_conforms_hooks :
    let f : Image := {
      entry := 0x100000
      segments := [⟨.code, 0x100000, 0x240, 0x240⟩, ⟨.readOnly, 0x101000, 0, 0⟩,
        ⟨.readWrite, 0x101000, 0x40, 0x10⟩]
      symbols := .ofList [("_start", 0x100000), ("__data_start__", 0x101000),
        ("__data_end__", 0x101008), ("__preinit_array_start", 0x101008),
        ("__preinit_array_end", 0x101008), ("__init_array_start", 0x101008),
        ("__init_array_end", 0x101010), ("__bss_start__", 0x101010), ("__tls_start", 0x101010),
        ("__tls_end", 0x101010), ("__bss_end__", 0x101040), ("__end__", 0x101040)] }
    isPowerOfTwo Standard.layout.pageSize = true ∧ f.IsBounded ∧
      Standard.layout.violations f = [] ∧ f.Conforms Standard.layout := by
  intro f
  have hpage : isPowerOfTwo Standard.layout.pageSize = true := by decide
  have hbounded : f.IsBounded := by decide
  have hnone : Standard.layout.violations f = [] := by decide +kernel
  exact ⟨hpage, hbounded, hnone, (violations_eq_nil_iff_conforms hpage hbounded).1 hnone⟩

end Layout

end BootImage
