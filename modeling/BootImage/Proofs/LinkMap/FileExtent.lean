import BootImage.Proofs.Image.Linked

/-! What a segment has in the file.

    The file holds a segment from its address to the end of the last of its stored sections. Gaps and
    zeroed sections in front of that end stand in the file too, and what is declared behind it is only
    in memory. Sections never end below those declared before them, so the highest end of a stored
    section is that of the last one, however small it is. The main statement is
    `Layout.fileExtents_of_link`.

        address                                                           stop
        |== stored ==|-- zeroed --|. .|== stored ==|-- zeroed --|-- zeroed --|
        |<------------- file size --------------->|
        |<---------------------------- memory size ------------------------>| -/

namespace BootImage

open Word Cursor

/-- A list has no element of a kind, or a last one. -/
theorem exists_last {α : Type} {p : α → Bool} : ∀ l : List α, (∀ a ∈ l, p a = false) ∨
    ∃ before a after, l = before ++ a :: after ∧ p a = true ∧ ∀ b ∈ after, p b = false
  | [] => .inl (by simp)
  | a :: l => by
    rcases exists_last l with hnone | ⟨before, b, after, rfl, hb, hafter⟩
    · cases ha : p a with
      | false => exact .inl (List.forall_mem_cons.2 ⟨ha, hnone⟩)
      | true => exact .inr ⟨[], a, l, rfl, ha, hnone⟩
    · exact .inr ⟨a :: before, b, after, rfl, hb, hafter⟩

theorem Contents.eq_zeroed {contents : Contents} (h : (contents == .stored) = false) :
    contents = .zeroed := by
  cases contents with
  | stored => cases h
  | zeroed => rfl

namespace MappedSegment

/-- The file holds a segment up to the end of the last section that is declared as stored: nothing if
    none is; every stored section lies in this part, and what is declared behind the last one lies
    behind it. -/
structure FileExtent (g : MappedSegment) (s : Segment) : Prop where
  declared : g.sections.map (fun t => (t.name, t.contents)) =
    s.sections.map (fun t => (t.name, t.contents))
  le_memSize : g.fileSize ≤ g.memSize
  ends : (g.fileSize = 0 ∧ ∀ t ∈ g.sections, t.contents = .zeroed) ∨
    ∃ before t after, g.sections = before ++ t :: after ∧ t.contents = .stored ∧
      g.address.toNat + g.fileSize.toNat = t.address.toNat + t.size.toNat ∧
      ∀ u ∈ after, u.contents = .zeroed ∧
        g.address.toNat + g.fileSize.toNat ≤ u.address.toNat
  stored : ∀ t ∈ g.sections, t.contents = .stored → g.address.toNat ≤ t.address.toNat ∧
    t.address.toNat + t.size.toNat ≤ g.address.toNat + g.fileSize.toNat

variable {g : MappedSegment} {pageSize : UInt64} {s : Segment} {before after : List MappedSection}
  {t : MappedSection}

/-- The file size reaches from the address to the end in the file. -/
theorem toNat_add_fileSize (g : MappedSegment) :
    g.address.toNat + g.fileSize.toNat = g.fileStop.toNat :=
  toNat_add_sub (le_foldl_max _ List.mem_cons_self)

/-- A stored section ends at or below the end in the file. -/
theorem stop_le_fileStop (ht : t ∈ g.sections) (hstored : t.contents = .stored) :
    t.stop ≤ g.fileStop := by
  have hmem : t ∈ g.sections.filter (·.contents == .stored) :=
    List.mem_filter.2 ⟨ht, by simp [hstored]⟩
  exact le_foldl_max _ (List.mem_cons_of_mem _ (List.mem_map_of_mem hmem))

/-- Without stored sections a segment has nothing in the file. -/
theorem fileSize_eq_zero (h : ∀ t ∈ g.sections, t.contents = .zeroed) : g.fileSize = 0 := by
  have hnone : g.sections.filter (·.contents == .stored) = [] :=
    List.filter_eq_nil_iff.2 fun t ht => by simp [h t ht]
  rw [fileSize, fileStop, hnone, List.map_nil, List.foldl_nil, UInt64.sub_self]

namespace Fits

/-- A section starts where its segment does or above, and ends by its size. -/
theorem section_bounds (h : g.Fits pageSize s) (ht : t ∈ g.sections) :
    g.address ≤ t.address ∧ t.address ≤ t.stop ∧
      t.address.toNat + t.size.toNat = t.stop.toNat := by
  obtain ⟨hlow, hmid, -⟩ := h.inOrder.bounds t ht
  exact ⟨hlow, hmid, toNat_add_sub hmid⟩

/-- In a segment, what is declared before a section ends where it starts or below, and what is
    declared behind it starts where it ends or above. -/
theorem section_ordered (h : g.Fits pageSize s) (hsections : g.sections = before ++ t :: after) :
    (∀ u ∈ before, u.stop ≤ t.address) ∧ ∀ u ∈ after, t.stop ≤ u.address := by
  have hordered := h.inOrder.pairwise
  rw [hsections, List.pairwise_append, List.pairwise_cons] at hordered
  exact ⟨fun u hu => hordered.2.2 u hu t List.mem_cons_self, hordered.2.1.1⟩

/-- What a segment has in the file ends with the last of its stored sections. -/
theorem fileStop_eq (h : g.Fits pageSize s) (hsections : g.sections = before ++ t :: after)
    (hstored : t.contents = .stored) (hlast : ∀ u ∈ after, u.contents = .zeroed) :
    g.fileStop = t.stop := by
  obtain ⟨hbefore, -⟩ := h.section_ordered hsections
  have hmem : t ∈ g.sections := by simp [hsections]
  obtain ⟨hlow, hmid, -⟩ := h.section_bounds hmem
  refine UInt64.le_antisymm ?_ (stop_le_fileStop hmem hstored)
  -- the end in the file is the address, or the end of some stored section
  rcases List.mem_cons.1 (foldl_max_mem _ _) with hfirst | hstop
  · rw [fileStop, hfirst]
    exact UInt64.le_trans hlow hmid
  · obtain ⟨u, hu, hstop⟩ := List.mem_map.1 hstop
    obtain ⟨hu, hcontents⟩ := List.mem_filter.1 hu
    rw [fileStop, ← hstop]
    rw [hsections, List.mem_append, List.mem_cons] at hu
    rcases hu with hu | rfl | hu
    · exact UInt64.le_trans (hbefore u hu) hmid
    · exact UInt64.le_refl _
    · simp [hlast u hu] at hcontents

/-- A segment that fits has its stored sections in the file, and nothing behind them. -/
theorem fileExtent (h : g.Fits pageSize s) : g.FileExtent s where
  declared := by
    refine (map_eq_of_forall₂ (h.sections.imp fun t u hfits => ?_)).symm
    rw [hfits.name, hfits.contents]
  le_memSize := h.fileSize_le
  ends := by
    rcases exists_last (p := (·.contents == .stored)) g.sections
      with hnone | ⟨before, t, after, hsections, hstored, hlast⟩
    · have hzeroed : ∀ t ∈ g.sections, t.contents = .zeroed := fun t ht =>
        Contents.eq_zeroed (hnone t ht)
      exact .inl ⟨fileSize_eq_zero hzeroed, hzeroed⟩
    · have hzeroed : ∀ u ∈ after, u.contents = .zeroed := fun u hu =>
        Contents.eq_zeroed (hlast u hu)
      have hmem : t ∈ g.sections := by simp [hsections]
      have hend : g.address.toNat + g.fileSize.toNat = t.stop.toNat := by
        rw [toNat_add_fileSize, h.fileStop_eq hsections (eq_of_beq hstored) hzeroed]
      refine .inr ⟨before, t, after, hsections, eq_of_beq hstored, ?_, fun u hu => ⟨hzeroed u hu, ?_⟩⟩
      · rw [hend, (h.section_bounds hmem).2.2]
      · rw [hend]
        exact UInt64.le_iff_toNat_le.1 ((h.section_ordered hsections).2 u hu)
  stored := by
    intro t ht hstored
    obtain ⟨hlow, -, hextent⟩ := h.section_bounds ht
    rw [hextent, toNat_add_fileSize]
    exact ⟨UInt64.le_iff_toNat_le.1 hlow, UInt64.le_iff_toNat_le.1 (stop_le_fileStop ht hstored)⟩

end Fits

end MappedSegment

namespace Layout

/-- Every segment that is linked has in the file what is stored of it, up to its last stored
    section. -/
theorem fileExtents_of_link {d : Layout} {inputs : List Input} {collect : Bool} {m : LinkMap}
    (h : d.link inputs collect = .ok m) :
    List.Forall₂ (fun s g => g.FileExtent s) d.segments m.segments :=
  (linked_of_link h).fits_segments.imp fun _ _ hfits => hfits.fileExtent

/-- A layout whose one segment stores its last section but one, and zeroes the others behind the
    code. -/
def interleaved : Layout where
  outputFormat := "elf32-littlearm"
  outputArch := "arm"
  entry := "_start"
  entrySection := ".crt0"
  loadAddress := 0x100000
  pageSize := 0x1000
  segments := [⟨"text", .code,
    [{ name := ".text", align := 4, statements := [Standard.keep [".crt0"]] },
      { name := ".scratch", contents := .zeroed, statements := [.reserve 0x100] },
      { name := ".stored", align := 16, statements := [] },
      { name := ".bss", contents := .zeroed, statements := [.reserve 0x20] }]⟩]
  unloaded := []
  required := []

/-- The zeroed data in front of an empty stored section stands in the file, up to where that section
    is aligned. -/
theorem fileExtents_of_link_interleaved :
    ∃ m, interleaved.link [⟨".crt0", 0x44, 4, true⟩] false = .ok m ∧
      m.segments.map (fun g => (g.fileSize, g.memSize)) = [(0x150, 0x170)] ∧
      List.Forall₂ (fun s g => g.FileExtent s) interleaved.segments m.segments := by
  have hsizes : (interleaved.link [⟨".crt0", 0x44, 4, true⟩] false).toOption.map
      (·.segments.map fun g => (g.fileSize, g.memSize)) = some [(0x150, 0x170)] := by
    decide +kernel
  obtain ⟨m, hm, hsizes⟩ := Option.map_eq_some_iff.1 hsizes
  have hlink := eq_ok_of_toOption hm
  exact ⟨m, hlink, hsizes, fileExtents_of_link hlink⟩

end Layout

end BootImage
