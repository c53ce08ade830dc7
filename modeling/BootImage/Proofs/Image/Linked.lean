import BootImage.Proofs.Image.Rules
import BootImage.Proofs.LinkMap.Geometry
import BootImage.Proofs.LinkMap.Symbols

/-! Images of link maps.

    An image that is linked by a map has the segments of the map that are loaded, and the others are
    left out. Whatever is left out, what stays is a sublist: it comes in declared order, on pages,
    and without overlaps, and each segment stores no more than it maps. So verification finds
    nothing of this kind, for any layout. The main statement is `Layout.isMapping_eq_false_of_link`.

        map     R+X   R    R+W        R is empty
        image   R+X        R+W        still in declared order, and still apart -/

namespace BootImage

open Word Cursor

/-! ### Segments of a map as segments of an image -/

namespace MappedSegment

variable {m : MappedSegment}

@[simp] theorem stop_summary (m : MappedSegment) : m.summary.stop = m.stop := by
  rw [summary, LoadSegment.stop, memSize, UInt64.add_comm, UInt64.sub_add_cancel]

/-- A segment stores no more than it maps. -/
theorem Fits.fileSize_le {pageSize : UInt64} {s : Segment} (h : m.Fits pageSize s) :
    m.fileSize ≤ m.memSize := by
  have hstored : ∀ stop ∈ m.address :: (m.sections.filter (·.contents == .stored)).map (·.stop),
      m.address ≤ stop ∧ stop ≤ m.stop := by
    intro stop hstop
    rcases List.mem_cons.1 hstop with rfl | hstop
    · exact ⟨UInt64.le_refl _, h.inOrder.le⟩
    · obtain ⟨t, ht, rfl⟩ := List.mem_map.1 hstop
      obtain ⟨hlow, hmid, hhigh⟩ := h.inOrder.bounds t (List.mem_filter.1 ht).1
      exact ⟨UInt64.le_trans hlow hmid, hhigh⟩
  obtain ⟨hlow, hhigh⟩ := hstored _ (foldl_max_mem _ _)
  have hfile := toNat_add_sub hlow
  have hmem := h.extent
  rw [UInt64.le_iff_toNat_le] at hhigh ⊢
  change m.address.toNat + m.fileSize.toNat = _ at hfile
  omega

/-- A segment that is loaded takes memory. -/
theorem Fits.memSize_pos {pageSize : UInt64} {s : Segment} (h : m.Fits pageSize s)
    (hloaded : m.isLoaded = true) : 0 < m.memSize := by
  obtain ⟨t, ht, hsize⟩ := List.any_eq_true.1 hloaded
  obtain ⟨hlow, hmid, hhigh⟩ := h.inOrder.bounds t ht
  have hsection : t.address < t.stop := (sub_pos_iff hmid).1 (of_decide_eq_true hsize)
  have hsegment : m.address < m.stop :=
    UInt64.lt_of_le_of_lt hlow (UInt64.lt_of_lt_of_le hsection hhigh)
  exact (sub_pos_iff (UInt64.le_of_lt hsegment)).2 hsegment

end MappedSegment

namespace Layout.Linked

variable {d : Layout} {inputs : List Input} {collect : Bool} {m : LinkMap}

/-- The segments of the image are segments of the map, in order. -/
theorem loaded_sublist (m : LinkMap) :
    (m.image.loaded.map (·.2)).Sublist (m.segments.map (·.summary)) :=
  (Image.loaded_sublist _).trans (List.filter_sublist.map _)

/-- Every segment of the image takes memory. -/
theorem map_loaded (h : d.Linked inputs collect m) :
    m.image.loaded.map (·.2) = m.image.segments := by
  refine Image.map_loaded fun s hs => ?_
  obtain ⟨t, ht, rfl⟩ := List.mem_map.1 hs
  obtain ⟨hmem, hloaded⟩ := List.mem_filter.1 ht
  obtain ⟨s', -, hfits⟩ := exists_of_forall₂ h.fits_segments hmem
  exact hfits.memSize_pos hloaded

/-- The permissions of the map are those of the layout. -/
theorem map_permissions (h : d.Linked inputs collect m) :
    m.segments.map (·.permissions) = d.segments.map (·.permissions) :=
  map_eq_of_forall₂ (h.fits_segments.imp fun _ _ hfits => hfits.permissions).flip

/-- Single segments of the image are as they should be. -/
theorem permissionRules_eq_nil (h : d.Linked inputs collect m) :
    Image.permissionRules d.pageSize (d.segments.map (·.permissions)) m.image.loaded = [] := by
  refine Image.permissionRules_eq_nil.2 ⟨?_, fun s hs => ?_⟩
  · have hsub := (loaded_sublist m).map (·.permissions)
    rw [List.map_map, List.map_map] at hsub
    rw [← h.map_permissions]
    exact hsub
  · obtain ⟨t, ht, heq⟩ := List.mem_map.1 ((loaded_sublist m).subset (List.mem_map_of_mem hs))
    obtain ⟨s', hs', hfits⟩ := exists_of_forall₂ h.fits_segments ht
    rw [← heq]
    refine ⟨?_, (isAligned_iff_dvd _ h.sound.pageSize).2 hfits.aligned, hfits.fileSize_le⟩
    exact (congrArg Permissions.writeAndExecute hfits.permissions).trans
      (h.sound.writeOrExecute s' hs')

/-- Segments of the image do not overlap. -/
theorem overlapRule_eq_nil (h : d.Linked inputs collect m) :
    Image.overlapRule m.image.loaded = [] := by
  obtain ⟨stop, horder⟩ := h.inOrder
  have hsummaries : (m.segments.map (·.summary)).Pairwise fun a b => a.stop ≤ b.address :=
    List.pairwise_map.2 (horder.pairwise.imp fun {a b} hle => by rwa [MappedSegment.stop_summary])
  have hpairs := List.pairwise_map.1 (hsummaries.sublist (loaded_sublist m))
  exact Image.overlapRule_eq_nil.2 hpairs.isChain

/-- All that the rules for segments can find is that none is loaded, or that the first that is
    starts elsewhere. -/
theorem segmentRule_eq (h : d.Linked inputs collect m) :
    m.image.segmentRule d =
      match m.image.loaded with
      | [] => [.noSegments]
      | (_, first) :: _ =>
        reportIf (first.address != d.loadAddress)
          (.wrongLoadAddress d.loadAddress first.address) := by
  have hsingle := h.permissionRules_eq_nil
  have hpairs := h.overlapRule_eq_nil
  rw [Image.segmentRule]
  cases hloaded : m.image.loaded with
  | nil => rfl
  | cons s rest =>
    rw [hloaded] at hsingle hpairs
    simp only [hsingle, hpairs, List.append_nil]

/-- The rules for segments find nothing exactly if the first segment of the image starts at the load
    address. -/
theorem segmentRule_eq_nil_iff (h : d.Linked inputs collect m) :
    m.image.segmentRule d = [] ↔ m.image.segments.head?.map (·.address) = some d.loadAddress := by
  rw [h.segmentRule_eq, ← h.map_loaded]
  cases m.image.loaded with
  | nil => simp
  | cons s rest => simp

/-- All that the rule for the entry can find is that it lies elsewhere than the code or the load
    address. -/
theorem entryRule_eq (h : d.Linked inputs collect m) :
    m.image.entryRule d =
      reportIf ((m.image.segments.find? (·.permissions.execute)).map (·.address) != some m.entry)
        (.entryNotAtCodeStart m.entry) ++
      reportIf (m.entry != d.loadAddress) (.entryNotAtLoadAddress m.entry d.loadAddress) := by
  have hentry : m.image.symbols.get? d.entry = some m.image.entry := h.get?_entry
  simp only [Image.entryRule, hentry, bne_self_eq_false]
  rfl

theorem entryRule_eq_nil_iff (h : d.Linked inputs collect m) :
    m.image.entryRule d = [] ↔
      (m.image.segments.find? (·.permissions.execute)).map (·.address) = some m.entry ∧
        m.entry = d.loadAddress := by
  rw [h.entryRule_eq, List.append_eq_nil_iff, reportIf_eq_nil, reportIf_eq_nil,
    bne_eq_false_iff_eq, bne_eq_false_iff_eq]

end Layout.Linked

/-! ### What verification cannot find -/

/-- The violation is about which symbol the entry is, or about how segments are mapped. -/
def Violation.isMapping : Violation → Bool
  | .entryMismatch .. | .writableAndExecutable .. | .unexpectedPermissions ..
  | .misalignedSegment .. | .segmentOverlap .. | .fileSizeExceedsMemSize .. => true
  | _ => false

/-- The violation is about the range between two symbols. -/
def Violation.isRange : Violation → Bool
  | .rangeInverted .. | .rangeMisaligned .. | .rangeNotWritable .. | .notPointerMultiple ..
  | .tlsOutsideBss | .endBeforeBss => true
  | _ => false

theorem Violation.isMapping_of_isRange {v : Violation} (h : v.isRange = true) :
    v.isMapping = false := by
  cases v <;> simp_all [isRange, isMapping]

namespace Image

variable (f : Image)

/-- The rule for symbols finds nothing about the mapping, in any image. -/
theorem isMapping_symbolRule (d : Layout) : ∀ v ∈ f.symbolRule d, v.isMapping = false := by
  intro v hv
  obtain ⟨name, -, rfl⟩ := List.mem_map.1 hv
  rfl

/-- Rules for ranges find nothing else, in any image. -/
theorem isRange_rangeRule (b : Bounds) {inOrder : UInt64 → UInt64 → List Violation}
    (hinOrder : ∀ first last, ∀ v ∈ inOrder first last, v.isRange = true) :
    ∀ v ∈ f.rangeRule b inOrder, v.isRange = true := by
  intro v hv
  rw [rangeRule] at hv
  split at hv
  · cases hv
  · split at hv
    · rw [List.mem_singleton.1 hv]
      rfl
    · exact hinOrder _ _ v hv

theorem isRange_writableRule (b : Bounds) (first last : UInt64) :
    ∀ v ∈ f.writableRule b first last, v.isRange = true := by
  intro v hv
  rw [(mem_reportIf.1 hv).2]
  rfl

theorem isRange_hookListRule (b : Bounds) : ∀ v ∈ f.hookListRule b, v.isRange = true := by
  refine f.isRange_rangeRule b fun first last v hv => ?_
  rcases List.mem_append.1 hv with hv | hv
  · rw [(mem_reportIf.1 hv).2]
    rfl
  · exact f.isRange_writableRule b first last v hv

theorem isRange_bssRule : ∀ v ∈ f.bssRule, v.isRange = true := by
  refine f.isRange_rangeRule .bss fun first last v hv => ?_
  simp only [List.mem_append, mem_reportIf] at hv
  rcases hv with ((⟨-, rfl⟩ | hv) | hv) | ⟨-, rfl⟩
  · rfl
  · exact f.isRange_writableRule .bss first last v hv
  · refine f.isRange_rangeRule .tls (fun tlsFirst tlsLast w hw => ?_) v hv
    rw [(mem_reportIf.1 hw).2]
    rfl
  · rfl

/-- A report that is split by its rules: the entry, the segments, the symbols, and the ranges. -/
theorem mem_violations {d : Layout} {v : Violation} (h : v ∈ d.violations f) :
    v ∈ f.entryRule d ∨ v ∈ f.segmentRule d ∨ v ∈ f.symbolRule d ∨ v.isRange = true := by
  simp only [Layout.violations, List.mem_append] at h
  rcases h with (((((h | h) | h) | h) | h) | h) | h
  · exact .inl h
  · exact .inr (.inl h)
  · exact .inr (.inr (.inl h))
  · exact .inr (.inr (.inr (f.isRange_bssRule v h)))
  · exact .inr (.inr (.inr (f.isRange_rangeRule .data (f.isRange_writableRule .data) v h)))
  · exact .inr (.inr (.inr (f.isRange_hookListRule .preinit v h)))
  · exact .inr (.inr (.inr (f.isRange_hookListRule .init v h)))

end Image

namespace Layout

variable {d : Layout} {inputs : List Input} {collect : Bool} {m : LinkMap}

theorem Linked.isMapping_entryRule (h : d.Linked inputs collect m) :
    ∀ v ∈ m.image.entryRule d, v.isMapping = false := by
  intro v hv
  rw [h.entryRule_eq, List.mem_append, mem_reportIf, mem_reportIf] at hv
  rcases hv with ⟨-, rfl⟩ | ⟨-, rfl⟩ <;> rfl

theorem Linked.isMapping_segmentRule (h : d.Linked inputs collect m) :
    ∀ v ∈ m.image.segmentRule d, v.isMapping = false := by
  intro v hv
  rw [h.segmentRule_eq] at hv
  split at hv
  · rw [List.mem_singleton.1 hv]
    rfl
  · rw [(mem_reportIf.1 hv).2]
    rfl

/-- Verifying what was linked finds no violation of the mapping, for any layout and any inputs. -/
theorem isMapping_eq_false_of_link (h : d.link inputs collect = .ok m) :
    ∀ v ∈ d.violations m.image, v.isMapping = false := by
  have hlinked := linked_of_link h
  intro v hv
  rcases Image.mem_violations m.image hv with hv | hv | hv | hv
  · exact hlinked.isMapping_entryRule v hv
  · exact hlinked.isMapping_segmentRule v hv
  · exact m.image.isMapping_symbolRule d v hv
  · exact Violation.isMapping_of_isRange hv

/-- Of four segments two are left out, and the one that stays at the end has the permissions of one
    that does not. -/
theorem isMapping_eq_false_of_link_log :
    let log : Segment :=
      ⟨"log", .readWrite, [{ name := ".log", statements := [Standard.place [".log"]] }]⟩
    let d := { Standard.layout with segments := Standard.layout.segments ++ [log] }
    ∃ m, d.link [⟨".crt0", 0x40, 4, true⟩, ⟨".log", 0x20, 16, true⟩] true = .ok m ∧
      m.image.segments.map (·.permissions) = [.code, .readWrite] ∧
      ∀ v ∈ d.violations m.image, v.isMapping = false := by
  intro log d
  let inputs : List Input := [⟨".crt0", 0x40, 4, true⟩, ⟨".log", 0x20, 16, true⟩]
  obtain ⟨m, hm⟩ := exists_of_isOk (e := d.link inputs true) (by decide +kernel)
  have hsegments : (d.link inputs true).toOption.map (·.image.segments.map (·.permissions)) =
      some [.code, .readWrite] := by decide +kernel
  rw [hm] at hsegments
  exact ⟨m, hm, by simpa [Except.toOption] using hsegments, isMapping_eq_false_of_link hm⟩

end Layout

end BootImage
