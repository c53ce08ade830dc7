import BootImage.CommandLine.Run
import BootImage.Proofs.Elf.ReadBack
import Mathlib.Data.List.Nodup
import Mathlib.Data.List.Perm.Basic

/-! What the comparison of two files tells.

    A section is looked up by its name, and of several with one name the first is found. Where the
    sections of each file have names of their own, the comparison finds every difference once, and
    the other way around it finds the same ones: `File.tellsApart_differences`. Where they do not, a
    section behind another of its name differs even from itself, or is not missed:
    `CommandLine.compareOutcome_eq_identical_iff` says what is left.

        first     .text  .data  .bss  .bss'
                    |      |      |     |
        second    .text  .data  .bss <--'   .bss'' is behind the first of its name -/

namespace BootImage.Elf

/-! ### Files that show no difference -/

namespace File

/-- The sections have names of their own. -/
def HasDistinctNames (f : File) : Prop := (f.namedSections.map (·.name)).Nodup

/-- Sections that share a name are the same. -/
def IsUnambiguous (f : File) : Prop :=
  ∀ s ∈ f.namedSections, ∀ t ∈ f.namedSections, s.name = t.name → s = t

/-- The second file has what the first has: every section of the first is found under its name, and
    no name is new. -/
structure Answers (b a : File) : Prop where
  entry : a.image.entry = b.image.entry
  segments : a.image.segments = b.image.segments
  found : ∀ s ∈ a.namedSections, b.namedSections.find? (·.name == s.name) = some s
  known : ∀ t ∈ b.namedSections, ∃ s ∈ a.namedSections, s.name = t.name

/-- Two files hold the same: the entry, the loaded segments, and each section as often, in whatever
    order. -/
structure Alike (a b : File) : Prop where
  entry : a.image.entry = b.image.entry
  segments : a.image.segments = b.image.segments
  sections : a.namedSections.Perm b.namedSections

theorem HasDistinctNames.isUnambiguous {f : File} (h : f.HasDistinctNames) : f.IsUnambiguous :=
  fun _ hs _ ht hname => List.inj_on_of_nodup_map h hs ht hname

/-- Where sections that share a name are the same, each of them is found under its name. -/
theorem IsUnambiguous.find?_eq {f : File} (h : f.IsUnambiguous) {s : NamedSection}
    (hs : s ∈ f.namedSections) : f.namedSections.find? (·.name == s.name) = some s := by
  cases hfind : f.namedSections.find? (·.name == s.name) with
  | none => exact absurd (List.find?_eq_none.1 hfind s hs) (by simp)
  | some t =>
    have hname : t.name = s.name := by simpa using List.find?_some hfind
    rw [h t (List.mem_of_find?_eq_some hfind) s hs hname]

end File

/-! ### Single differences -/

theorem mem_segmentDifferences {a b : List LoadSegment} {d : Difference} :
    d ∈ segmentDifferences a b ↔ ∃ i, a[i]? ≠ b[i]? ∧ .segment i = d := by
  have hrange : ∀ i, a[i]? ≠ b[i]? → i < max a.length b.length := by
    intro i hne
    by_contra hle
    rw [List.getElem?_eq_none (by omega), List.getElem?_eq_none (by omega)] at hne
    exact hne rfl
  simp only [segmentDifferences, List.mem_map, List.mem_filter, List.mem_range, bne_iff_ne]
  exact exists_congr fun i => and_congr_left fun _ =>
    ⟨fun h => h.2, fun hne => ⟨hrange i hne, hne⟩⟩

/-- Segments that differ nowhere are the same. -/
theorem segmentDifferences_eq_nil_iff {a b : List LoadSegment} :
    segmentDifferences a b = [] ↔ a = b := by
  simp only [List.eq_nil_iff_forall_not_mem, mem_segmentDifferences]
  constructor
  · intro h
    refine List.ext_getElem? fun i => ?_
    by_contra hne
    exact h _ ⟨i, hne, rfl⟩
  · rintro rfl d ⟨i, hne, -⟩
    exact hne rfl

/-- Sections of one name differ in where they lie, how large they are or what they hold. -/
theorem NamedSection.ne_iff {s t : NamedSection} (hname : s.name = t.name) :
    s ≠ t ↔ s.address ≠ t.address ∨ s.size ≠ t.size ∨ s.data ≠ t.data := by
  obtain ⟨name, address, size, data⟩ := s
  obtain ⟨name', address', size', data'⟩ := t
  obtain rfl : name = name' := hname
  simp only [ne_eq, NamedSection.mk.injEq, true_and, not_and_or]

theorem sectionDifference?_eq_none_iff {others : List NamedSection} {s : NamedSection} :
    sectionDifference? others s = none ↔ others.find? (·.name == s.name) = some s := by
  rw [sectionDifference?]
  split
  · next hnone => simp [hnone]
  · next other hother =>
    rw [hother, Option.some.injEq]
    split
    · next heq => exact iff_of_true rfl heq
    · next hne => exact iff_of_false (Option.some_ne_none _) hne

/-- A section differs in that nothing has its name, or in that the first of its name is another. -/
theorem sectionDifference?_eq_some_iff {others : List NamedSection} {s : NamedSection}
    {d : Difference} : sectionDifference? others s = some d ↔
      (d = .missingInSecond s.name ∧ ∀ t ∈ others, t.name ≠ s.name) ∨
        (d = .contents s.name ∧ ∃ t, others.find? (·.name == s.name) = some t ∧ t ≠ s) := by
  rw [sectionDifference?]
  split
  · next hnone =>
    have habsent : ∀ t ∈ others, t.name ≠ s.name := by simpa using hnone
    simp only [Option.some.injEq, hnone, reduceCtorEq, false_and, exists_false, and_false,
      or_false, eq_comm (a := d)]
    exact (and_iff_left habsent).symm
  · next other hother =>
    have hpresent : ¬ ∀ t ∈ others, t.name ≠ s.name := fun h =>
      h other (List.mem_of_find?_eq_some hother) (by simpa using List.find?_some hother)
    split
    · next heq => simp [hother, heq, hpresent]
    · next hne => simp [hother, hne, hpresent, eq_comm (a := d)]

theorem sectionDifferences_eq_nil_iff {a b : List NamedSection} : sectionDifferences a b = [] ↔
    (∀ s ∈ a, b.find? (·.name == s.name) = some s) ∧ ∀ t ∈ b, ∃ s ∈ a, s.name = t.name := by
  simp only [sectionDifferences, List.append_eq_nil_iff, List.filterMap_eq_nil_iff,
    sectionDifference?_eq_none_iff, List.map_eq_nil_iff, List.filter_eq_nil_iff,
    Bool.not_eq_eq_eq_not, Bool.not_true, Bool.not_eq_false, List.any_eq_true, beq_iff_eq]

/-- A section behind the first of its name is not missed, but nothing has it as its own. -/
example (s t : NamedSection) (hname : s.name = t.name) (hne : s ≠ t) :
    sectionDifferences [s] [s, t] = [] ∧ sectionDifferences [s, t] [s] = [.contents t.name] := by
  simp [sectionDifferences, sectionDifference?, hname, hne]

namespace File

variable {a b : File}

theorem differences_eq_nil_iff : a.differences b = [] ↔ b.Answers a := by
  simp only [differences, List.append_eq_nil_iff, segmentDifferences_eq_nil_iff,
    sectionDifferences_eq_nil_iff, ite_eq_left_iff, List.cons_ne_nil, imp_false, not_not]
  exact ⟨fun ⟨⟨hentry, hsegments⟩, hfound, hknown⟩ => ⟨hentry, hsegments, hfound, hknown⟩,
    fun h => ⟨⟨h.entry, h.segments⟩, h.found, h.known⟩⟩

/-- A file has what it has itself exactly if its sections of one name are the same. -/
theorem answers_self_iff : a.Answers a ↔ a.IsUnambiguous := by
  constructor
  · intro h s hs t ht hname
    have hfound := h.found s hs
    rw [hname, h.found t ht, Option.some.injEq] at hfound
    exact hfound.symm
  · intro h
    exact ⟨rfl, rfl, fun s hs => h.find?_eq hs, fun t ht => ⟨t, ht, rfl⟩⟩

/-- Where sections of one name are the same, the second file has what the first has exactly if both
    have the same sections. -/
theorem answers_iff_of_isUnambiguous (hb : b.IsUnambiguous) : b.Answers a ↔
    a.image.entry = b.image.entry ∧ a.image.segments = b.image.segments ∧
      ∀ s, s ∈ a.namedSections ↔ s ∈ b.namedSections := by
  constructor
  · intro h
    have hsubset : ∀ s ∈ a.namedSections, s ∈ b.namedSections := fun s hs =>
      List.mem_of_find?_eq_some (h.found s hs)
    refine ⟨h.entry, h.segments, fun s => ⟨hsubset s, fun hs => ?_⟩⟩
    obtain ⟨t, ht, hname⟩ := h.known s hs
    rwa [← hb t (hsubset t ht) s hs hname]
  · rintro ⟨hentry, hsegments, hsections⟩
    exact ⟨hentry, hsegments, fun s hs => hb.find?_eq ((hsections s).1 hs),
      fun t ht => ⟨t, (hsections t).2 ht, rfl⟩⟩

/-- Where all sections have names of their own, the files are then alike. -/
theorem answers_iff_alike (ha : a.HasDistinctNames) (hb : b.HasDistinctNames) :
    b.Answers a ↔ a.Alike b := by
  rw [answers_iff_of_isUnambiguous hb.isUnambiguous,
    ← List.perm_ext_iff_of_nodup (List.Nodup.of_map _ ha) (List.Nodup.of_map _ hb)]
  exact ⟨fun ⟨hentry, hsegments, hsections⟩ => ⟨hentry, hsegments, hsections⟩,
    fun h => ⟨h.entry, h.segments, h.sections⟩⟩

end File

/-! ### All differences, each once -/

/-- The same difference, seen from the other file. -/
def Difference.swap : Difference → Difference
  | .entry => .entry
  | .segment index => .segment index
  | .contents name => .contents name
  | .missingInSecond name => .missingInFirst name
  | .missingInFirst name => .missingInSecond name

@[simp] theorem Difference.swap_swap (d : Difference) : d.swap.swap = d := by
  cases d <;> rfl

theorem mem_map_swap {ds : List Difference} {d : Difference} :
    d ∈ ds.map Difference.swap ↔ d.swap ∈ ds := by
  constructor
  · intro h
    obtain ⟨e, he, rfl⟩ := List.mem_map.1 h
    rwa [Difference.swap_swap]
  · intro h
    exact List.mem_map.2 ⟨d.swap, h, d.swap_swap⟩

/-- A section of the file has this name. -/
def File.HasSection (f : File) (name : String) : Prop := ∃ s ∈ f.namedSections, s.name = name

/-- The list has every difference between two files once, and nothing else. -/
structure File.TellsApart (a b : File) (ds : List Difference) : Prop where
  nodup : ds.Nodup
  entry : .entry ∈ ds ↔ a.image.entry ≠ b.image.entry
  segment : ∀ i, .segment i ∈ ds ↔ a.image.segments[i]? ≠ b.image.segments[i]?
  contents : ∀ name, .contents name ∈ ds ↔
    ∃ s ∈ a.namedSections, ∃ t ∈ b.namedSections, s.name = name ∧ t.name = name ∧
      (s.address ≠ t.address ∨ s.size ≠ t.size ∨ s.data ≠ t.data)
  missingInSecond : ∀ name, .missingInSecond name ∈ ds ↔ a.HasSection name ∧ ¬ b.HasSection name
  missingInFirst : ∀ name, .missingInFirst name ∈ ds ↔ b.HasSection name ∧ ¬ a.HasSection name

namespace File.TellsApart

variable {a b : File} {ds es : List Difference}

/-- Only the order of such a list is open. -/
theorem perm (hd : a.TellsApart b ds) (he : a.TellsApart b es) : ds.Perm es := by
  refine (List.perm_ext_iff_of_nodup hd.nodup he.nodup).2 fun d => ?_
  cases d with
  | entry => rw [hd.entry, he.entry]
  | segment i => rw [hd.segment, he.segment]
  | contents name => rw [hd.contents, he.contents]
  | missingInSecond name => rw [hd.missingInSecond, he.missingInSecond]
  | missingInFirst name => rw [hd.missingInFirst, he.missingInFirst]

/-- From the other file the same differences are seen. -/
theorem swap (h : a.TellsApart b ds) : b.TellsApart a (ds.map Difference.swap) where
  nodup := h.nodup.map (Function.LeftInverse.injective Difference.swap_swap)
  entry := by rw [mem_map_swap, Difference.swap, h.entry, ne_comm]
  segment i := by rw [mem_map_swap, Difference.swap, h.segment, ne_comm]
  contents name := by
    rw [mem_map_swap, Difference.swap, h.contents]
    constructor
    · rintro ⟨s, hs, t, ht, hsname, htname, hne⟩
      exact ⟨t, ht, s, hs, htname, hsname, by simpa only [ne_comm] using hne⟩
    · rintro ⟨s, hs, t, ht, hsname, htname, hne⟩
      exact ⟨t, ht, s, hs, htname, hsname, by simpa only [ne_comm] using hne⟩
  missingInSecond name := by rw [mem_map_swap, Difference.swap, h.missingInFirst]
  missingInFirst name := by rw [mem_map_swap, Difference.swap, h.missingInSecond]

end File.TellsApart

/-- What is told about sections is told about a name: only one file has it, or the first section of
    the second file that has it is another. -/
theorem mem_sectionDifferences {a b : List NamedSection} {d : Difference} :
    d ∈ sectionDifferences a b ↔ ∃ name,
      (d = .missingInSecond name ∧ (∃ s ∈ a, s.name = name) ∧ ∀ t ∈ b, t.name ≠ name) ∨
      (d = .contents name ∧ ∃ s ∈ a, s.name = name ∧
        ∃ t, b.find? (·.name == name) = some t ∧ t ≠ s) ∨
      (d = .missingInFirst name ∧ (∃ t ∈ b, t.name = name) ∧ ∀ s ∈ a, s.name ≠ name) := by
  rw [sectionDifferences, List.mem_append, List.mem_filterMap, List.mem_map]
  simp only [sectionDifference?_eq_some_iff, List.mem_filter]
  constructor
  · rintro (⟨s, hs, ⟨rfl, habsent⟩ | ⟨rfl, hother⟩⟩ | ⟨t, ⟨ht, habsent⟩, rfl⟩)
    · exact ⟨s.name, .inl ⟨rfl, ⟨s, hs, rfl⟩, habsent⟩⟩
    · exact ⟨s.name, .inr (.inl ⟨rfl, s, hs, rfl, hother⟩)⟩
    · exact ⟨t.name, .inr (.inr ⟨rfl, ⟨t, ht, rfl⟩, by simpa using habsent⟩)⟩
  · rintro ⟨name, ⟨rfl, ⟨s, hs, rfl⟩, habsent⟩ | ⟨rfl, s, hs, rfl, hother⟩ |
      ⟨rfl, ⟨t, ht, rfl⟩, habsent⟩⟩
    · exact .inl ⟨s, hs, .inl ⟨rfl, habsent⟩⟩
    · exact .inl ⟨s, hs, .inr ⟨rfl, hother⟩⟩
    · exact .inr ⟨t, ⟨ht, by simpa using habsent⟩, rfl⟩

theorem nodup_segmentDifferences (a b : List LoadSegment) : (segmentDifferences a b).Nodup := by
  refine (List.nodup_range.filter _).map fun i j h => ?_
  injection h

/-- Sections with names of their own have differences of their own. -/
theorem nodup_sectionDifferences {a b : List NamedSection} (ha : (a.map (·.name)).Nodup)
    (hb : (b.map (·.name)).Nodup) : (sectionDifferences a b).Nodup := by
  refine List.nodup_append'.2 ⟨?_, ?_, ?_⟩
  · refine List.pairwise_filterMap.2 ((List.pairwise_map.1 ha).imp fun {s t} hne d hd e he => ?_)
    rcases sectionDifference?_eq_some_iff.1 hd with ⟨rfl, -⟩ | ⟨rfl, -⟩ <;>
      rcases sectionDifference?_eq_some_iff.1 he with ⟨rfl, -⟩ | ⟨rfl, -⟩ <;> simp [hne]
  · refine List.pairwise_map.2 (((List.pairwise_map.1 hb).filter _).imp fun {s t} hne heq => ?_)
    injection heq with hname
    exact hne hname
  · -- only the second scan finds what the first file lacks
    intro d hd hd'
    obtain ⟨s, -, hs⟩ := List.mem_filterMap.1 hd
    obtain ⟨t, -, rfl⟩ := List.mem_map.1 hd'
    rcases sectionDifference?_eq_some_iff.1 hs with ⟨heq, -⟩ | ⟨heq, -⟩ <;> cases heq

namespace File

variable {a b : File}

/-- A difference is about the entry, a segment or the name of a section. -/
theorem mem_differences {d : Difference} : d ∈ a.differences b ↔
    (d = .entry ∧ a.image.entry ≠ b.image.entry) ∨
      d ∈ segmentDifferences a.image.segments b.image.segments ∨
      d ∈ sectionDifferences a.namedSections b.namedSections := by
  rw [differences, List.append_assoc, List.mem_append, List.mem_append]
  refine or_congr_left ?_
  split
  · next heq => simp [heq]
  · next hne => simp [hne]

theorem nodup_differences (ha : a.HasDistinctNames) (hb : b.HasDistinctNames) :
    (a.differences b).Nodup := by
  rw [differences, List.append_assoc]
  refine List.nodup_append'.2 ⟨by split <;> simp,
    List.nodup_append'.2 ⟨nodup_segmentDifferences _ _, nodup_sectionDifferences ha hb, ?_⟩, ?_⟩
  · intro d hsegment hsection
    obtain ⟨i, -, rfl⟩ := mem_segmentDifferences.1 hsegment
    obtain ⟨name, ⟨heq, -⟩ | ⟨heq, -⟩ | ⟨heq, -⟩⟩ := mem_sectionDifferences.1 hsection <;> cases heq
  · intro d hentry hrest
    obtain rfl : d = .entry := by
      split at hentry
      · cases hentry
      · exact List.mem_singleton.1 hentry
    rcases List.mem_append.1 hrest with hsegment | hsection
    · obtain ⟨i, -, heq⟩ := mem_segmentDifferences.1 hsegment
      cases heq
    · obtain ⟨name, ⟨heq, -⟩ | ⟨heq, -⟩ | ⟨heq, -⟩⟩ := mem_sectionDifferences.1 hsection <;>
        cases heq

/-- Where all sections have names of their own, every difference is told, and told once. -/
theorem tellsApart_differences (ha : a.HasDistinctNames) (hb : b.HasDistinctNames) :
    a.TellsApart b (a.differences b) where
  nodup := nodup_differences ha hb
  entry := by simp [mem_differences, mem_segmentDifferences, mem_sectionDifferences]
  segment i := by simp [mem_differences, mem_segmentDifferences, mem_sectionDifferences]
  contents name := by
    have hother : .contents name ∈ a.differences b ↔ ∃ s ∈ a.namedSections, s.name = name ∧
        ∃ t, b.namedSections.find? (·.name == name) = some t ∧ t ≠ s := by
      simp [mem_differences, mem_segmentDifferences, mem_sectionDifferences]
    rw [hother]
    constructor
    · rintro ⟨s, hs, hname, t, hfind, hne⟩
      have htname : t.name = name := by simpa using List.find?_some hfind
      exact ⟨s, hs, t, List.mem_of_find?_eq_some hfind, hname, htname,
        (NamedSection.ne_iff (hname.trans htname.symm)).1 hne.symm⟩
    · rintro ⟨s, hs, t, ht, hname, htname, hne⟩
      exact ⟨s, hs, hname, t, htname ▸ hb.isUnambiguous.find?_eq ht,
        ((NamedSection.ne_iff (hname.trans htname.symm)).2 hne).symm⟩
  missingInSecond name := by
    simp [mem_differences, mem_segmentDifferences, mem_sectionDifferences, HasSection]
  missingInFirst name := by
    simp [mem_differences, mem_segmentDifferences, mem_sectionDifferences, HasSection]

end File

end BootImage.Elf

/-! ### Files of drafts -/

namespace BootImage.Elf.Draft

variable {d : Draft}

theorem hasDistinctNames_file (h : d.IsWritable) :
    d.file.HasDistinctNames ↔ (d.sections.map (·.name)).Nodup := by
  rw [File.HasDistinctNames, namedSections_file h, List.map_map]
  rfl

/-- A draft of which all sections have names of their own. -/
def linked : Draft :=
  ⟨0x100000, [⟨".text", .code, 0x100000, [1, 2], 4⟩, ⟨".data", .readWrite, 0x101000, [3], 1⟩], []⟩

/-- The draft with another entry, other code, and another name and permissions for the data. -/
def relinked : Draft :=
  ⟨0x100004, [⟨".text", .code, 0x100000, [1, 9], 4⟩, ⟨".rodata", .readOnly, 0x101000, [3], 1⟩], []⟩

/-- Two segments with zeroed memory of their own, for which there is one name. -/
def twoTails : Draft :=
  ⟨0x100000, [⟨".text", .code, 0x100000, [1], 2⟩, ⟨".data", .readWrite, 0x101000, [2], 4⟩], []⟩

theorem not_isUnambiguous_twoTails (h : twoTails.IsWritable) : ¬ twoTails.file.IsUnambiguous := by
  rw [File.IsUnambiguous, namedSections_file h]
  decide

end BootImage.Elf.Draft

namespace BootImage.CommandLine

open Elf

/-! ### The command -/

/-- The outcome of a comparison that finds no difference. -/
def identical : Outcome := printed 0 ["identical"] []

/-- The outcome of a comparison that finds these differences. -/
def told (first second : String) (ds : List Difference) : Outcome :=
  if ds = [] then identical else printed 1 (ds.map (·.text first second)) []

theorem status_told (first second : String) (ds : List Difference) :
    (told first second ds).status = if ds = [] then 0 else 1 := by
  rw [told]
  split <;> rfl

theorem told_eq_identical_iff {first second : String} {ds : List Difference} :
    told first second ds = identical ↔ ds = [] := by
  constructor
  · intro h
    by_contra hne
    have hstatus := status_told first second ds
    rw [h, if_neg hne] at hstatus
    exact absurd hstatus (by decide)
  · intro h
    rw [told, if_pos h]

variable {first second : String} {firstBytes secondBytes : List UInt8} {a b : File}

/-- Comparing two accepted files tells their differences. -/
theorem compareOutcome_eq (ha : File.read firstBytes = .ok a) (hb : File.read secondBytes = .ok b) :
    compareOutcome first second firstBytes secondBytes = told first second (a.differences b) := by
  rw [compareOutcome, ha, hb]
  cases hdifferences : a.differences b <;> simp [compareLines, hdifferences, told, identical]

theorem compareOutcome_eq_identical (ha : File.read firstBytes = .ok a)
    (hb : File.read secondBytes = .ok b) :
    compareOutcome first second firstBytes secondBytes = identical ↔ b.Answers a := by
  rw [compareOutcome_eq ha hb, told_eq_identical_iff, File.differences_eq_nil_iff]

/-- Comparing is a test for equality as far as names tell sections apart. A file is identical to
    itself exactly if its sections of one name are the same; between such files the test goes both
    ways; and where all names are distinct, identical files are alike. -/
theorem compareOutcome_eq_identical_iff (first second : String)
    (ha : File.read firstBytes = .ok a) (hb : File.read secondBytes = .ok b) :
    ((compareOutcome first second firstBytes secondBytes).status = 0 ↔
      compareOutcome first second firstBytes secondBytes = identical) ∧
    (compareOutcome first second firstBytes secondBytes = identical ↔ b.Answers a) ∧
    (compareOutcome first second firstBytes firstBytes = identical ↔ a.IsUnambiguous) ∧
    (a.IsUnambiguous → b.IsUnambiguous →
      (compareOutcome first second firstBytes secondBytes = identical ↔
        compareOutcome second first secondBytes firstBytes = identical)) ∧
    (a.HasDistinctNames → b.HasDistinctNames →
      (compareOutcome first second firstBytes secondBytes = identical ↔ a.Alike b)) := by
  refine ⟨?_, compareOutcome_eq_identical ha hb, ?_, ?_, ?_⟩
  · rw [compareOutcome_eq ha hb, told_eq_identical_iff, status_told]
    simp
  · rw [compareOutcome_eq_identical ha ha, File.answers_self_iff]
  · intro hua hub
    rw [compareOutcome_eq_identical ha hb, compareOutcome_eq_identical hb ha,
      File.answers_iff_of_isUnambiguous hub, File.answers_iff_of_isUnambiguous hua]
    exact ⟨fun ⟨he, hg, hs⟩ => ⟨he.symm, hg.symm, fun s => (hs s).symm⟩,
      fun ⟨he, hg, hs⟩ => ⟨he.symm, hg.symm, fun s => (hs s).symm⟩⟩
  · intro hda hdb
    rw [compareOutcome_eq_identical ha hb, File.answers_iff_alike hda hdb]

theorem compareOutcome_eq_identical_iff_twoTails :
    Draft.twoTails.IsWritable ∧ Draft.linked.IsWritable ∧ Draft.relinked.IsWritable ∧
    compareOutcome "a" "a" Draft.twoTails.bytes Draft.twoTails.bytes ≠ identical ∧
    compareOutcome "a" "b" Draft.linked.bytes Draft.linked.bytes = identical ∧
    (compareOutcome "a" "b" Draft.linked.bytes Draft.relinked.bytes).status ≠ 0 := by
  have htails : Draft.twoTails.IsWritable := by decide +kernel
  have hlinked : Draft.linked.IsWritable := by decide +kernel
  have hrelinked : Draft.relinked.IsWritable := by decide +kernel
  have hdistinct := (Draft.hasDistinctNames_file hlinked).2 (by decide)
  obtain ⟨-, -, hself, -⟩ := compareOutcome_eq_identical_iff "a" "a" (Draft.read_bytes htails)
    (Draft.read_bytes htails)
  obtain ⟨hstatus, -, hself', -, halike⟩ :=
    compareOutcome_eq_identical_iff "a" "b" (Draft.read_bytes hlinked)
      (Draft.read_bytes hrelinked)
  refine ⟨htails, hlinked, hrelinked, ?_, hself'.2 hdistinct.isUnambiguous, ?_⟩
  · rw [ne_eq, hself]
    exact Draft.not_isUnambiguous_twoTails htails
  · rw [ne_eq, hstatus, halike hdistinct ((Draft.hasDistinctNames_file hrelinked).2 (by decide))]
    have hsegments :
        Draft.linked.file.image.segments ≠ Draft.relinked.file.image.segments := by
      rw [Draft.segments_file, Draft.segments_file]
      decide
    exact fun h => hsegments h.segments

/-- Not every accepted file is identical to itself. -/
theorem not_forall_compareOutcome_self : ¬ ∀ (path : String) (bytes : List UInt8) (f : File),
    File.read bytes = .ok f → compareOutcome path path bytes bytes = identical := by
  intro h
  have htails : Draft.twoTails.IsWritable := by decide +kernel
  have hread := Draft.read_bytes htails
  have hself := (compareOutcome_eq_identical hread hread).1 (h "a" _ _ hread)
  exact Draft.not_isUnambiguous_twoTails htails (File.answers_self_iff.1 hself)

end BootImage.CommandLine
