import BootImage.Proofs.Image.Linked
import BootImage.Proofs.LinkMap.Symbols

/-! Ranges of linked images.

    The symbols of a range have the positions that the link map gives them. A section that has a
    size makes its segment a loaded one, so a range of one section is either empty or lies in a
    segment of the image.

        segment   |-- section --|-- first ===== last --|
                                  the section has a size, so the segment is loaded -/

namespace BootImage

open Word Cursor

namespace Layout.Linked

variable {d : Layout} {inputs : List Input} {collect : Bool} {m : LinkMap} {g : MappedSegment}
  {t : MappedSection} {b : Bounds} {first last : UInt64}

/-- A range between two symbols of one section has their values as its bounds. -/
theorem range?_eq (h : d.Linked inputs collect m) (hg : g ∈ m.segments) (ht : t ∈ g.sections)
    (hfirst : (b.first, first) ∈ t.symbols) (hlast : (b.last, last) ∈ t.symbols)
    (hentry : d.entry ∉ [b.first, b.last]) : m.image.range? b = some (first, last) := by
  simp only [List.mem_cons, List.not_mem_nil, or_false, not_or] at hentry
  have hloaded : t ∈ m.segments.flatMap (·.sections) := List.mem_flatMap.2 ⟨g, hg, ht⟩
  have hfirst := h.get?_of_mem_symbols hloaded hfirst (Ne.symm hentry.1)
  have hlast := h.get?_of_mem_symbols hloaded hlast (Ne.symm hentry.2)
  change (m.symbols.get? b.first).bind _ = _
  rw [hfirst, Option.bind_some]
  change (m.symbols.get? b.last).bind _ = _
  rw [hlast, Option.bind_some]

/-- A range of one section of data may be written. -/
theorem writableRule_eq_nil (h : d.Linked inputs collect m) (hg : g ∈ m.segments)
    (hdata : g.summary.isData = true) (ht : t ∈ g.sections) (hlow : t.address ≤ first)
    (hle : first ≤ last) (hhigh : last ≤ t.stop) : m.image.writableRule b first last = [] := by
  obtain ⟨s, hs, hfits⟩ := exists_of_forall₂ h.fits_segments hg
  obtain ⟨hstart, -, hstop⟩ := hfits.inOrder.bounds t ht
  rw [Image.writableRule, reportIf_eq_nil]
  rcases eq_or_ne first last with rfl | hne
  · simp
  · have hlt : t.address < t.stop := UInt64.lt_of_le_of_lt hlow
      (UInt64.lt_of_lt_of_le (UInt64.lt_of_le_of_ne hle hne) hhigh)
    have hloaded : g.isLoaded = true := List.any_eq_true.2
      ⟨t, ht, decide_eq_true ((sub_pos_iff (UInt64.le_of_lt hlt)).2 hlt)⟩
    have hmem : g.summary ∈ m.image.segments :=
      List.mem_map_of_mem (List.mem_filter.2 ⟨hg, hloaded⟩)
    have hcovers : g.summary.covers first last = true := by
      rw [LoadSegment.covers, MappedSegment.stop_summary, Bool.and_eq_true, decide_eq_true_eq,
        decide_eq_true_eq]
      exact ⟨UInt64.le_trans hstart hlow, UInt64.le_trans hhigh hstop⟩
    have hany : (m.image.segments.any fun s => s.isData && s.covers first last) = true :=
      List.any_eq_true.2 ⟨_, hmem, by rw [hdata, hcovers]; rfl⟩
    rw [hany, Bool.not_true, Bool.and_false]

end Layout.Linked

end BootImage
