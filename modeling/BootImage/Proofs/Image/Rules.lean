import BootImage.Image.Verify
import Mathlib.Data.List.Basic

/-! What the rules of verification find.

    A report is the lists of its rules, one after the other. Each statement here says when a rule
    finds nothing, or what it can find at all. The rule for permissions looks greedily: it takes the
    first declared segment that has the permissions it wants, and never goes back. That is enough,
    since whatever order lets later segments be found after a later match lets them be found after
    the first one.

        declared    R+X   R    R+W  R    R+W
        loaded      R+X        R+W       R+W      each taken at its first chance -/

namespace BootImage

open Word

@[simp] theorem reportIf_eq_nil {broken : Bool} {v : Violation} :
    reportIf broken v = [] ↔ broken = false := by
  cases broken <;> simp [reportIf]

@[simp] theorem mem_reportIf {broken : Bool} {v w : Violation} :
    w ∈ reportIf broken v ↔ broken = true ∧ w = v := by
  cases broken <;> simp [reportIf]

namespace Image

/-- A greedy match keeps what is left as long as any match could. -/
theorem cons_sublist_iff_dropWhile {p : Permissions} {rest : List Permissions} :
    ∀ {declared : List Permissions}, (p :: rest).Sublist declared ↔
      (declared.dropWhile (· != p)).isEmpty = false ∧
        rest.Sublist (declared.dropWhile (· != p)).tail
  | [] => by simp
  | q :: declared => by
    rcases eq_or_ne q p with rfl | hne
    · simp
    · have hskip : (p :: rest).Sublist (q :: declared) ↔ (p :: rest).Sublist declared := by
        refine ⟨fun h => ?_, fun h => h.cons q⟩
        cases h with
        | cons _ h => exact h
        | cons_cons _ h => exact absurd rfl hne
      rw [hskip, cons_sublist_iff_dropWhile, List.dropWhile_cons_of_pos (by simpa using hne)]

/-- The rules for single segments find nothing exactly if the permissions come in declared order and
    each segment is as it should be. -/
theorem permissionRules_eq_nil {pageSize : UInt64} : ∀ {declared : List Permissions}
    {segments : List (Nat × LoadSegment)}, permissionRules pageSize declared segments = [] ↔
      (segments.map (·.2.permissions)).Sublist declared ∧
        ∀ s ∈ segments, s.2.permissions.writeAndExecute = false ∧
          isAligned s.2.address pageSize = true ∧ s.2.fileSize ≤ s.2.memSize
  | declared, [] => by simp [permissionRules]
  | declared, (i, s) :: rest => by
    simp only [permissionRules, List.append_eq_nil_iff, reportIf_eq_nil, List.map_cons,
      cons_sublist_iff_dropWhile, List.forall_mem_cons]
    constructor
    · rintro ⟨⟨⟨⟨hboth, hfound⟩, haligned⟩, hfile⟩, hrest⟩
      rw [hfound] at hrest
      obtain ⟨hsub, hall⟩ := permissionRules_eq_nil.1 hrest
      exact ⟨⟨hfound, hsub⟩, ⟨hboth, by simpa using haligned, by simpa using hfile⟩, hall⟩
    · rintro ⟨⟨hfound, hsub⟩, ⟨hboth, haligned, hfile⟩, hall⟩
      refine ⟨⟨⟨⟨hboth, hfound⟩, by simpa using haligned⟩, by simpa using hfile⟩, ?_⟩
      rw [hfound]
      exact permissionRules_eq_nil.2 ⟨hsub, hall⟩

/-- The rule for overlaps finds nothing exactly if each segment ends before the next starts. -/
theorem overlapRule_eq_nil : ∀ {segments : List (Nat × LoadSegment)},
    overlapRule segments = [] ↔ segments.IsChain fun a b => a.2.stop ≤ b.2.address
  | [] => by simp [overlapRule]
  | [_] => by simp [overlapRule]
  | a :: b :: rest => by
    have ih : overlapRule (b :: rest) = [] ↔
        (b :: rest).IsChain fun a b => a.2.stop ≤ b.2.address := overlapRule_eq_nil
    simp only [overlapRule, List.tail_cons] at ih
    rw [List.isChain_cons_cons, ← ih]
    simp [overlapRule]

/-- A range whose bounds are in order is as wrong as what is found in order. -/
theorem rangeRule_of_range? {f : Image} {b : Bounds} {first last : UInt64}
    (h : f.range? b = some (first, last)) (hle : first ≤ last)
    (inOrder : UInt64 → UInt64 → List Violation) : f.rangeRule b inOrder = inOrder first last := by
  rw [rangeRule, h]
  exact if_neg (UInt64.not_lt.2 hle)

theorem map_snd_numbered (f : Image) :
    (f.segments.zipIdx.map fun (s, i) => (i, s)).map (·.2) = f.segments := by
  rw [List.map_map]
  exact List.zipIdx_map_fst 0 f.segments

/-- The segments that take memory are among those of the image, in order. -/
theorem loaded_sublist (f : Image) : (f.loaded.map (·.2)).Sublist f.segments := by
  conv_rhs => rw [← f.map_snd_numbered]
  exact List.filter_sublist.map _

/-- Where every segment takes memory, these are all of them. -/
theorem map_loaded {f : Image} (h : ∀ s ∈ f.segments, 0 < s.memSize) :
    f.loaded.map (·.2) = f.segments := by
  have hall : f.loaded = f.segments.zipIdx.map fun (s, i) => (i, s) := by
    refine List.filter_eq_self.2 fun x hx => ?_
    have hmem : x.2 ∈ f.segments := f.map_snd_numbered ▸ List.mem_map_of_mem hx
    exact decide_eq_true (h _ hmem)
  rw [hall, map_snd_numbered]

end Image

end BootImage
