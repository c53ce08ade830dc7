import BootImage.LinkMap.Link
import BootImage.Proofs.Cursor
import BootImage.Proofs.Layout.Sound
import Mathlib.Data.List.Nodup

/-! What linking does.

    Each function of linking has one statement here that says all that holds when it answers: where
    the cursor went and what was recorded. Later statements rest on these alone and do not open the
    functions again.

        Linked ── segments ── Segment.Mapped ── sections ── Section.Mapped ── steps ── Step.move?
               └─ unloaded ──────────────────────────────── Section.Mapped, from zero -/

namespace BootImage

open Word Cursor

/-! ### Lists that are related element by element -/

/-- In two lists that are related element by element, what stands at one position is related. -/
theorem exists_getElem?_of_forall₂ {α β : Type} {R : α → β → Prop} {as : List α} {bs : List β}
    (h : List.Forall₂ R as bs) {k : Nat} {b : β} (hk : bs[k]? = some b) :
    ∃ a, as[k]? = some a ∧ R a b := by
  induction h generalizing k with
  | nil => simp at hk
  | cons hab _ ih =>
    cases k with
    | zero => exact ⟨_, rfl, (show _ = b by simpa using hk) ▸ hab⟩
    | succ k => exact ih (by simpa using hk)

theorem exists_of_forall₂ {α β : Type} {R : α → β → Prop} {as : List α} {bs : List β}
    (h : List.Forall₂ R as bs) {b : β} (hb : b ∈ bs) : ∃ a ∈ as, R a b := by
  obtain ⟨k, hk⟩ := List.mem_iff_getElem?.1 hb
  obtain ⟨a, ha, hr⟩ := exists_getElem?_of_forall₂ h hk
  exact ⟨a, List.mem_of_getElem? ha, hr⟩

/-- A map over a list that answers did so for each element. -/
theorem forall₂_of_mapM {α β : Type} {f : α → Option β} : ∀ {as : List α} {bs : List β},
    as.mapM f = some bs → List.Forall₂ (fun a b => f a = some b) as bs
  | [], bs, h => by
    simp only [List.mapM_nil, Option.pure_def, Option.some.injEq] at h
    rw [← h]
    exact .nil
  | a :: as, bs, h => by
    simp only [List.mapM_cons, Option.bind_eq_bind, Option.bind_eq_some_iff, Option.pure_def,
      Option.some.injEq] at h
    obtain ⟨b, hb, rest, hrest, rfl⟩ := h
    exact .cons hb (forall₂_of_mapM hrest)

/-- Lists that agree element by element are the same. -/
theorem map_eq_of_forall₂ {α β γ : Type} {f : α → γ} {g : β → γ} {as : List α} {bs : List β}
    (h : List.Forall₂ (fun a b => f a = g b) as bs) : as.map f = bs.map g := by
  induction h with
  | nil => rfl
  | cons hab _ ih => rw [List.map_cons, List.map_cons, hab, ih]

/-- Sorting keeps lists related if related elements compare alike. -/
theorem forall₂_mergeSort {α : Type} {R : α → α → Prop} {le : α → α → Bool}
    (hle : ∀ {a b a' b'}, R a a' → R b b' → le a b = le a' b') {l l' : List α}
    (h : List.Forall₂ R l l') : List.Forall₂ R (l.mergeSort le) (l'.mergeSort le) := by
  have hR : ∀ p ∈ l.zip l', R p.1 p.2 := fun p hp => List.forall₂_zip h hp
  -- both are sorted as the pairs are
  have hfst := List.map_mergeSort (r := fun p q => le p.1 q.1) (s := le) (f := Prod.fst)
    (l := l.zip l') fun _ _ _ _ => rfl
  have hsnd := List.map_mergeSort (r := fun p q => le p.1 q.1) (s := le) (f := Prod.snd)
    (l := l.zip l') fun p hp q hq => hle (hR p hp) (hR q hq)
  rw [List.map_fst_zip (Nat.le_of_eq h.length_eq)] at hfst
  rw [List.map_snd_zip (Nat.le_of_eq h.length_eq.symm)] at hsnd
  rw [← hfst, ← hsnd, List.forall₂_map_left_iff, List.forall₂_map_right_iff, List.forall₂_same]
  exact fun p hp => hR p (List.mem_mergeSort.1 hp)

/-- A map over a list answers if it does for each element; what is related to what is answered then
    is so element by element. -/
theorem exists_mapM_of_forall₂ {α β γ : Type} {f : α → Option γ} {R : α → β → Prop}
    {T : γ → β → Prop} {as : List α} {bs : List β} (h : List.Forall₂ R as bs)
    (hf : ∀ a ∈ as, ∀ b, R a b → ∃ c, f a = some c ∧ T c b) :
    ∃ cs, as.mapM f = some cs ∧ List.Forall₂ T cs bs := by
  induction h with
  | nil => exact ⟨[], rfl, .nil⟩
  | cons hab _ ih =>
    obtain ⟨c, hc, hcb⟩ := hf _ List.mem_cons_self _ hab
    obtain ⟨cs, hcs, hrest⟩ := ih fun a ha => hf a (List.mem_cons_of_mem _ ha)
    exact ⟨c :: cs, by simp [List.mapM_cons, hc, hcs], .cons hcb hrest⟩

/-! ### Steps -/

/-- Where a step starts and where it leaves the cursor, for each kind of step. -/
def Step.Moves (step : Step) (c : UInt64) (e : Extent) (next : UInt64) : Prop :=
  match step with
  | .symbol _ => e.start = c ∧ next = c
  | .align a => e.start = c ∧ align? c a = some next
  | .reserve n => e.start = c ∧ advance? c n = some next
  | .place i => align? c i.align = some e.start ∧ advance? e.start i.size = some next

theorem Step.moves_of_move? {step : Step} {c next : UInt64} {e : Extent}
    (h : step.move? c = some (e, next)) : e.step = step ∧ e.stop = next ∧ step.Moves c e next := by
  cases step with
  | symbol name =>
    simp only [move?, Option.some.injEq, Prod.mk.injEq] at h
    obtain ⟨rfl, rfl⟩ := h
    exact ⟨rfl, rfl, rfl, rfl⟩
  | align a =>
    simp only [move?, Option.bind_eq_bind, Option.bind_eq_some_iff] at h
    obtain ⟨r, hr, h⟩ := h
    simp only [Option.some.injEq, Prod.mk.injEq] at h
    obtain ⟨rfl, rfl⟩ := h
    exact ⟨rfl, rfl, rfl, hr⟩
  | reserve n =>
    simp only [move?, Option.bind_eq_bind, Option.bind_eq_some_iff] at h
    obtain ⟨r, hr, h⟩ := h
    simp only [Option.some.injEq, Prod.mk.injEq] at h
    obtain ⟨rfl, rfl⟩ := h
    exact ⟨rfl, rfl, rfl, hr⟩
  | place i =>
    simp only [move?, Option.bind_eq_bind, Option.bind_eq_some_iff] at h
    obtain ⟨start, hstart, r, hr, h⟩ := h
    simp only [Option.some.injEq, Prod.mk.injEq] at h
    obtain ⟨rfl, rfl⟩ := h
    exact ⟨rfl, rfl, hstart, hr⟩

/-- A step that aligns does so to a power of two. -/
def Step.IsRegular : Step → Prop
  | .align a => isPowerOfTwo a = true
  | .place i => isPowerOfTwo i.align = true
  | _ => True

/-- A regular step covers locations at or above the cursor, and the cursor goes on where it ends. -/
theorem Step.bounds_of_move? {step : Step} {c next : UInt64} {e : Extent} (hr : step.IsRegular)
    (h : step.move? c = some (e, next)) : c ≤ e.start ∧ e.start ≤ e.stop ∧ e.stop = next := by
  obtain ⟨-, rfl, hmove⟩ := Step.moves_of_move? h
  cases step with
  | symbol name =>
    obtain ⟨hstart, hnext⟩ := hmove
    exact ⟨UInt64.le_of_eq hstart.symm, UInt64.le_of_eq (hstart.trans hnext.symm), rfl⟩
  | align a =>
    obtain ⟨hstart, hnext⟩ := hmove
    exact ⟨UInt64.le_of_eq hstart.symm, hstart ▸ le_of_align? hr hnext, rfl⟩
  | reserve n =>
    obtain ⟨hstart, hnext⟩ := hmove
    exact ⟨UInt64.le_of_eq hstart.symm, hstart ▸ le_of_advance? hnext, rfl⟩
  | place i =>
    obtain ⟨hstart, hnext⟩ := hmove
    exact ⟨le_of_align? hr hstart, le_of_advance? hnext, rfl⟩

/-- No step takes the cursor past the limit. -/
theorem Step.le_limit_of_move? {step : Step} {c next : UInt64} {e : Extent} (hr : step.IsRegular)
    (hc : c ≤ addressLimit) (h : step.move? c = some (e, next)) : next ≤ addressLimit := by
  obtain ⟨-, -, hmove⟩ := Step.moves_of_move? h
  cases step with
  | symbol name => exact hmove.2 ▸ hc
  | align a => exact (toNat_of_align? hr hmove.2).2
  | reserve n => exact (toNat_of_advance? hmove.2).2
  | place i => exact (toNat_of_advance? hmove.2).2

/-! ### Sections -/

/-- A section was placed with the cursor at `c`: its start is aligned, and its steps are swept from
    there to its end. -/
structure Section.Mapped (r : Routing) (s : Section) (c : UInt64) (m : MappedSection) : Prop where
  name : m.name = s.name
  contents : m.contents = s.contents
  aligned : align? c (s.startAlign (s.steps r)) = some m.address
  swept : Swept Step.move? (s.steps r) m.address m.extents m.stop

theorem Section.mapped_of_move? {r : Routing} {s : Section} {c next : UInt64} {m : MappedSection}
    (h : s.move? r c = some (m, next)) : s.Mapped r c m ∧ m.stop = next := by
  simp only [move?, Option.bind_eq_bind, Option.bind_eq_some_iff] at h
  obtain ⟨address, haddress, ⟨extents, stop⟩, hsweep, h⟩ := h
  simp only [Option.some.injEq, Prod.mk.injEq] at h
  obtain ⟨rfl, rfl⟩ := h
  exact ⟨⟨rfl, rfl, haddress, swept_of_sweep? hsweep⟩, rfl⟩

/-- The steps of a section are all taken, in order. -/
theorem Section.Mapped.map_step {r : Routing} {s : Section} {c : UInt64} {m : MappedSection}
    (h : s.Mapped r c m) : m.extents.map (·.step) = s.steps r := by
  have hsteps : List.Forall₂ (fun step (e : Extent) => id step = e.step) (s.steps r) m.extents :=
    h.swept.forall₂ fun step _ c e next hmove => (Step.moves_of_move? hmove).1.symm
  rw [← map_eq_of_forall₂ hsteps, List.map_id]

/-- A section places the inputs of its steps. -/
theorem Section.Mapped.inputs_eq {r : Routing} {s : Section} {c : UInt64} {m : MappedSection}
    (h : s.Mapped r c m) : m.inputs = (s.steps r).filterMap (·.input?) := by
  rw [MappedSection.inputs, ← h.map_step, List.filterMap_map]
  rfl

/-- The alignments that a section needs are powers of two. -/
structure Section.IsRegular (r : Routing) (s : Section) : Prop where
  align : isPowerOfTwo s.align = true
  steps : ∀ step ∈ s.steps r, step.IsRegular

/-! ### Segments -/

/-- A segment was placed with the cursor at `c`: it starts on a page, and its sections are swept
    from there to its end. -/
structure Segment.Mapped (r : Routing) (pageSize : UInt64) (s : Segment) (c : UInt64)
    (m : MappedSegment) : Prop where
  name : m.name = s.name
  permissions : m.permissions = s.permissions
  aligned : align? c pageSize = some m.address
  swept : Swept (Section.move? r) s.sections m.address m.sections m.stop

theorem Segment.mapped_of_move? {r : Routing} {pageSize : UInt64} {s : Segment} {c next : UInt64}
    {m : MappedSegment} (h : s.move? r pageSize c = some (m, next)) :
    s.Mapped r pageSize c m ∧ m.stop = next := by
  simp only [move?, Option.bind_eq_bind, Option.bind_eq_some_iff] at h
  obtain ⟨address, haddress, ⟨sections, stop⟩, hsweep, h⟩ := h
  simp only [Option.some.injEq, Prod.mk.injEq] at h
  obtain ⟨rfl, rfl⟩ := h
  exact ⟨⟨rfl, rfl, haddress, swept_of_sweep? hsweep⟩, rfl⟩

/-- Each section of a segment was placed with the cursor somewhere. -/
theorem Segment.Mapped.sections {r : Routing} {pageSize : UInt64} {s : Segment} {c : UInt64}
    {m : MappedSegment} (h : s.Mapped r pageSize c m) :
    List.Forall₂ (fun s t => ∃ c, s.Mapped r c t) s.sections m.sections :=
  h.swept.forall₂ fun _ _ c _ _ hmove => ⟨c, (Section.mapped_of_move? hmove).1⟩

/-! ### Link maps -/

theorem exists_of_isOk {ε α : Type} {e : Except ε α} (h : e.isOk = true) : ∃ a, e = .ok a := by
  cases e with
  | ok a => exact ⟨a, rfl⟩
  | error f => cases h

theorem eq_ok_of_toOption {ε α : Type} {e : Except ε α} {a : α} (h : e.toOption = some a) :
    e = .ok a := by
  cases e with
  | ok b => exact congrArg Except.ok (Option.some.inj h)
  | error fault => cases h

/-- What is known of a link map: the layout and the inputs were fit to be linked, the segments were
    swept from the load address on and the unloaded sections placed from zero, and the rest was read
    off these and off the routing. -/
structure Layout.Linked (d : Layout) (inputs : List Input) (collect : Bool) (m : LinkMap) :
    Prop where
  sound : d.Sound
  inputs_aligned : ∀ i ∈ inputs, isPowerOfTwo i.align = true
  segments : ∃ stop,
    Swept (Segment.move? (d.routing collect inputs) d.pageSize) d.segments d.loadAddress m.segments
      stop
  unloaded : List.Forall₂ (fun s t => s.Mapped (d.routing collect inputs) 0 t) d.unloaded m.unloaded
  entry : entryAddress? d.entrySection m.segments = some m.entry
  symbols : m.symbols =
    (SymbolTable.ofList (m.segments.flatMap fun s => s.sections.flatMap (·.symbols))).insert d.entry
      m.entry
  orphans : m.orphans = (d.routing collect inputs).orphans
  discarded : m.discarded = (d.routing collect inputs).discarded

namespace Layout

variable {d : Layout} {inputs : List Input} {collect : Bool} {m : LinkMap}

theorem linked_of_map? {r : Routing} {segments : List MappedSegment}
    {unloaded : List MappedSection} (h : d.map? r = some (segments, unloaded)) :
    (∃ stop, Swept (Segment.move? r d.pageSize) d.segments d.loadAddress segments stop) ∧
      List.Forall₂ (fun s t => s.Mapped r 0 t) d.unloaded unloaded := by
  simp only [map?, Option.bind_eq_bind, Option.bind_eq_some_iff] at h
  obtain ⟨⟨swept, stop⟩, hsweep, mapped, hmap, h⟩ := h
  simp only [Option.some.injEq, Prod.mk.injEq] at h
  obtain ⟨rfl, rfl⟩ := h
  refine ⟨⟨stop, swept_of_sweep? hsweep⟩, (forall₂_of_mapM hmap).imp fun s t hst => ?_⟩
  obtain ⟨⟨t, next⟩, hmove, rfl⟩ := Option.map_eq_some_iff.1 hst
  exact (Section.mapped_of_move? hmove).1

/-- Only a layout without faults is linked. -/
theorem fault?_of_link (h : d.link inputs collect = .ok m) : d.fault? = none := by
  rw [link] at h
  split at h
  · cases h
  · assumption

/-- All that linking did when it gives a map. -/
theorem linked_of_link (h : d.link inputs collect = .ok m) : d.Linked inputs collect m := by
  rw [link] at h
  split at h
  · cases h
  · next hfault =>
    split at h
    · cases h
    · next hmisaligned =>
      dsimp only at h
      split at h
      · cases h
      · next segments unloaded hmap =>
        split at h
        · cases h
        · next entry hentry =>
          obtain ⟨hsegments, hunloaded⟩ := linked_of_map? hmap
          cases h
          exact {
            sound := sound_of_fault? hfault
            inputs_aligned := fun i hi => by
              simpa using List.find?_eq_none.1 hmisaligned i hi
            segments := hsegments
            unloaded := hunloaded
            entry := hentry
            symbols := rfl
            orphans := rfl
            discarded := rfl }

/-- Each segment was placed with the cursor somewhere. -/
theorem Linked.mapped (h : d.Linked inputs collect m) :
    List.Forall₂ (fun s t => ∃ c, s.Mapped (d.routing collect inputs) d.pageSize c t) d.segments
      m.segments := by
  obtain ⟨stop, hswept⟩ := h.segments
  exact hswept.forall₂ fun _ _ c _ _ hmove => ⟨c, (Segment.mapped_of_move? hmove).1⟩

/-- Each section that lies in a segment was placed with the cursor somewhere. -/
theorem Linked.loaded (h : d.Linked inputs collect m) :
    List.Forall₂ (fun s t => ∃ c, s.Mapped (d.routing collect inputs) c t) d.loaded
      (m.segments.flatMap (·.sections)) := by
  refine List.rel_flatMap h.mapped ?_
  rintro s t ⟨_, hmapped⟩
  exact hmapped.sections

/-- A section of a segment was placed in a segment with the same permissions. -/
theorem Linked.exists_section (h : d.Linked inputs collect m) {g : Segment} (hg : g ∈ d.segments)
    {s : Section} (hs : s ∈ g.sections) :
    ∃ g' ∈ m.segments, g'.permissions = g.permissions ∧
      ∃ t ∈ g'.sections, ∃ c, s.Mapped (d.routing collect inputs) c t := by
  obtain ⟨g', hg', c, hmapped⟩ := exists_of_forall₂ h.mapped.flip hg
  obtain ⟨t, ht, hsection⟩ := exists_of_forall₂ hmapped.sections.flip hs
  exact ⟨g', hg', hmapped.permissions, t, ht, hsection⟩

/-- Each section of the layout, loaded or not, was placed with the cursor somewhere. -/
theorem Linked.sections (h : d.Linked inputs collect m) :
    List.Forall₂ (fun s t => ∃ c, s.Mapped (d.routing collect inputs) c t) d.sections
      m.sections :=
  List.rel_append h.loaded (h.unloaded.imp fun _ _ ht => ⟨0, ht⟩)

/-- The sections of the map have the names of those of the layout. -/
theorem Linked.map_name_sections (h : d.Linked inputs collect m) :
    m.sections.map (·.name) = d.sections.map (·.name) :=
  map_eq_of_forall₂ (h.sections.imp fun _ _ ⟨_, hmapped⟩ => hmapped.name).flip

/-- A section of the map is found by its name. -/
theorem Linked.section?_name (h : d.Linked inputs collect m) {t : MappedSection}
    (ht : t ∈ m.sections) : m.section? t.name = some t := by
  have hnodup : (m.sections.map (·.name)).Nodup := h.map_name_sections ▸ h.sound.names_nodup
  rw [LinkMap.section?]
  cases hfind : m.sections.find? (·.name == t.name) with
  | none => exact absurd (List.find?_eq_none.1 hfind t ht) (by simp)
  | some u =>
    have hname : u.name = t.name := by simpa using List.find?_some hfind
    rw [List.inj_on_of_nodup_map hnodup (List.mem_of_find?_eq_some hfind) ht hname]

end Layout

end BootImage
