import BootImage.Proofs.LinkMap.Entry
import BootImage.Proofs.LinkMap.Positions
import BootImage.Proofs.LinkMap.Symbols
import Mathlib.Data.List.TakeWhile

/-! Where an image starts.

    The entry section comes first in the first section of the first segment, so an image should
    start at the load address. What stands in front of it can still move it: the section starts
    where it is aligned for itself and for each of its inputs, and statements in front of the first
    rule may align further. Nothing of this moves the cursor exactly if the load address is a
    multiple of every alignment. The main statement is `Layout.starts_of_link`.

        load address      section starts        preamble aligns      entry
        |. . . . . . . . .|. . . . . . . . . . .|. . . . . . . . . . |== .crt0 ==|== ... -/

namespace BootImage

open Word Cursor

/-! ### In front of the first rule -/

/-- The statement places inputs. -/
def Statement.places : Statement → Bool
  | .input _ => true
  | _ => false

/-- The statements of a section in front of its first rule. -/
def Section.preamble (s : Section) : List Statement := s.statements.takeWhile (!·.places)

/-- The rule that takes space first ends the preamble, and no gap stands in front of it. -/
theorem Layout.exists_of_leadingRule? {statements : List Statement} {rule : InputRule}
    (h : leadingRule? statements = some rule) :
    (∃ after, statements = statements.takeWhile (!·.places) ++ .input rule :: after) ∧
      ∀ n, .reserve n ∈ statements.takeWhile (!·.places) → n = 0 := by
  obtain ⟨before, after, rfl, hbefore⟩ := leadingRule?_eq_some_iff.1 h
  have hkept : ∀ statement ∈ before, (!statement.places) = true := fun statement hmem => by
    cases statement with
    | input rule => exact (hbefore _ hmem).elim
    | _ => rfl
  have hpreamble : (before ++ .input rule :: after).takeWhile (!·.places) = before := by
    rw [List.takeWhile_append_of_pos hkept]
    exact List.append_nil _
  rw [hpreamble]
  exact ⟨⟨after, rfl⟩, fun n hn => hbefore _ hn⟩

/-- The step places nothing and leaves no gap of its own. -/
def Step.OnlyAligns : Step → Prop
  | .symbol _ => True
  | .align a => isPowerOfTwo a = true
  | .reserve n => n = 0
  | .place _ => False

/-- From `c` to `stop` the cursor was only aligned: it went up, kept what divides it, and stays
    exactly if it is a multiple of every one of the alignments. -/
structure Cursor.Aligned (alignments : UInt64 → Prop) (c stop : UInt64) : Prop where
  le : c ≤ stop
  keeps : ∀ b, isPowerOfTwo b = true → b.toNat ∣ c.toNat → b.toNat ∣ stop.toNat
  stays : stop = c ↔ ∀ a, alignments a → a.toNat ∣ c.toNat

theorem Cursor.aligned_self {alignments : UInt64 → Prop} (hnone : ∀ a, ¬ alignments a)
    (c : UInt64) : Aligned alignments c c :=
  ⟨UInt64.le_refl c, fun _ _ h => h, by simp [hnone]⟩

/-- One step that only aligns. -/
theorem Step.aligned_of_move? {step : Step} {c next : UInt64} {e : Extent}
    (honly : step.OnlyAligns) (h : step.move? c = some (e, next)) :
    e.placed? = none ∧ Aligned (step = .align ·) c next := by
  obtain ⟨rfl, -, hmove⟩ := moves_of_move? h
  cases hstep : e.step with
  | symbol name =>
    simp only [hstep, Moves] at hmove
    exact ⟨by simp [Extent.placed?, hstep], hmove.2 ▸ aligned_self (by simp) _⟩
  | align a =>
    simp only [hstep, Moves, OnlyAligns] at hmove honly
    refine ⟨by simp [Extent.placed?, hstep], le_of_align? honly hmove.2,
      fun b hb hdvd => dvd_of_align?_of_dvd hb honly hmove.2 hdvd, ?_⟩
    simp only [Step.align.injEq, forall_eq']
    exact ⟨fun heq => heq ▸ dvd_of_align? honly hmove.2, eq_of_align? honly hmove.2⟩
  | reserve n =>
    simp only [hstep, Moves, OnlyAligns] at hmove honly
    have hnext : next = c := by
      rw [← UInt64.toNat_inj, (toNat_of_advance? hmove.2).1, honly, UInt64.toNat_zero, Nat.add_zero]
    exact ⟨by simp [Extent.placed?, hstep], hnext ▸ aligned_self (by simp) _⟩
  | place i =>
    rw [hstep] at honly
    exact honly.elim

/-- Alignments in a row. -/
theorem Cursor.Aligned.trans {first rest : UInt64 → Prop} {c next stop : UInt64}
    (h : Aligned first c next) (h' : Aligned rest next stop) :
    Aligned (fun a => first a ∨ rest a) c stop where
  le := UInt64.le_trans h.le h'.le
  keeps b hb hdvd := h'.keeps b hb (h.keeps b hb hdvd)
  stays := by
    constructor
    · rintro rfl
      -- the cursor came back to where it was, so it never moved
      obtain rfl : next = stop := UInt64.le_antisymm h'.le h.le
      rintro a (ha | ha)
      · exact h.stays.1 rfl a ha
      · exact h'.stays.1 rfl a ha
    · intro hall
      obtain rfl : next = c := h.stays.2 fun a ha => hall a (.inl ha)
      exact h'.stays.2 fun a ha => hall a (.inr ha)

/-- A run of steps that only align. -/
theorem Step.aligned_of_swept {steps : List Step} {c stop : UInt64} {es : List Extent}
    (honly : ∀ step ∈ steps, step.OnlyAligns) (h : Swept Step.move? steps c es stop) :
    es.filterMap (·.placed?) = [] ∧ Aligned (.align · ∈ steps) c stop := by
  induction h with
  | nil c => exact ⟨rfl, aligned_self (by simp) c⟩
  | cons head tail ih =>
    rw [List.forall_mem_cons] at honly
    obtain ⟨hplaced, hhead⟩ := aligned_of_move? honly.1 head
    obtain ⟨hrest, htail⟩ := ih honly.2
    refine ⟨by rw [List.filterMap_cons_none hplaced, hrest], ?_⟩
    simpa only [List.mem_cons, eq_comm] using hhead.trans htail

/-! ### The first input of a section -/

namespace Section

variable {r : Routing} {s : Section} {rule : InputRule}

theorem not_places_of_mem_preamble {statement : Statement} (h : statement ∈ s.preamble) :
    statement.places = false := by
  simpa using List.mem_takeWhile_imp h

theorem mem_of_mem_preamble {statement : Statement} (h : statement ∈ s.preamble) :
    statement ∈ s.statements := (List.takeWhile_prefix _).subset h

/-- The preamble of a section only aligns. -/
theorem aligned_of_preamble (hr : s.IsRegular r) (hgap : ∀ n, .reserve n ∈ s.preamble → n = 0)
    {c stop : UInt64} {es : List Extent}
    (h : Swept Step.move? (Statement.stepsFrom r s.name 0 s.preamble) c es stop) :
    es.filterMap (·.placed?) = [] ∧ Aligned (.align · ∈ s.preamble) c stop := by
  have hsame (a : UInt64) : .align a ∈ Statement.stepsFrom r s.name 0 s.preamble ↔
      .align a ∈ s.preamble := by
    constructor
    · intro hstep
      obtain ⟨statement, hmem, hgives⟩ := Statement.exists_of_mem_stepsFrom r hstep
      cases statement with
      | align b => cases hgives; exact hmem
      | input rule => obtain ⟨i, hi⟩ := hgives; cases hi
      | _ => cases hgives
    · exact fun hmem => Statement.mem_stepsFrom r hmem fun _ => List.mem_singleton_self _
  have honly : ∀ step ∈ Statement.stepsFrom r s.name 0 s.preamble, step.OnlyAligns := by
    intro step hstep
    obtain ⟨statement, hmem, hgives⟩ := Statement.exists_of_mem_stepsFrom r hstep
    cases statement with
    | symbol name => cases hgives; trivial
    | align a =>
      cases hgives
      exact hr.steps (.align a) (Statement.mem_stepsFrom r (mem_of_mem_preamble hmem)
        fun _ => List.mem_singleton_self _)
    | reserve n => cases hgives; exact hgap n hmem
    | input rule => cases not_places_of_mem_preamble hmem
  simpa only [hsame] using Step.aligned_of_swept honly h

/-- The first rule of a section stands behind the preamble, and its slot is the first. -/
theorem getElem?_length_preamble (h : Layout.leadingRule? s.statements = some rule) :
    s.statements[s.preamble.length]? = some (.input rule) ∧
      s.statements.take s.preamble.length = s.preamble ∧
      s.slots[0]? = some (⟨s.name, s.preamble.length⟩, rule) := by
  obtain ⟨⟨after, hstatements⟩, -⟩ := Layout.exists_of_leadingRule? h
  have hcut : s.statements = s.preamble ++ .input rule :: after := hstatements
  refine ⟨?_, ?_, ?_⟩
  · rw [hcut, List.getElem?_append_right (Nat.le_refl _), Nat.sub_self, List.getElem?_cons_zero]
  · rw [hcut, List.take_left]
  · rw [slots, hcut, List.zipIdx_append, List.filterMap_append, List.filterMap_eq_nil_iff.2]
    · simp
    · rintro ⟨statement, i⟩ hmem
      have hplaces := not_places_of_mem_preamble (List.fst_mem_of_mem_zipIdx hmem)
      cases statement with
      | input rule => cases hplaces
      | _ => rfl

end Section

namespace Section.Mapped

variable {r : Routing} {s : Section} {c : UInt64} {m : MappedSection} {rule : InputRule}

/-- A section starts at the cursor exactly if the cursor is a multiple of all that it aligns to. -/
theorem address_eq_iff_dvd (h : s.Mapped r c m) (hr : s.IsRegular r) :
    m.address = c ↔ s.align.toNat ∣ c.toNat ∧ ∀ i ∈ m.inputs, i.align.toNat ∣ c.toNat := by
  constructor
  · rintro rfl
    exact ⟨(h.fits hr).aligned, (h.fits hr).aligned_inputs⟩
  · rintro ⟨hown, hinputs⟩
    have hstart : s.startAlign (s.steps r) ∈ s.align :: m.inputs.map (·.align) :=
      h.inputs_eq ▸ foldl_max_mem _ _
    refine eq_of_align? (Section.dvd_startAlign hr).1 h.aligned ?_
    rcases List.mem_cons.1 hstart with hstart | hstart
    · exact hstart ▸ hown
    · obtain ⟨i, hi, heq⟩ := List.mem_map.1 hstart
      exact heq ▸ hinputs i hi

/-- Where the first rule of a section takes inputs, the first of them comes first. It starts at the
    cursor exactly if the cursor is a multiple of all that the section aligns to, and of what its
    preamble does. -/
theorem exists_first (h : s.Mapped r c m) (hr : s.IsRegular r)
    (hrule : Layout.leadingRule? s.statements = some rule)
    (htaken : r.inputsOf ⟨s.name, s.preamble.length⟩ rule.order ≠ []) :
    ∃ p, m.placed.head? = some p ∧
      (p.address = c ↔ s.align.toNat ∣ c.toNat ∧ (∀ i ∈ m.inputs, i.align.toNat ∣ c.toNat) ∧
        ∀ a, .align a ∈ s.preamble → a.toNat ∣ c.toNat) := by
  obtain ⟨hk, htake, -⟩ := Section.getElem?_length_preamble hrule
  obtain ⟨-, hgap⟩ := Layout.exists_of_leadingRule? hrule
  obtain ⟨first, last, as, bs, cs, hextents, hbefore, hplace, -⟩ := h.cut hk
  rw [htake] at hbefore
  obtain ⟨hnone, haligned⟩ := Section.aligned_of_preamble hr hgap hbefore
  obtain ⟨i, is, hinputs⟩ := List.exists_cons_of_ne_nil htaken
  rw [Statement.steps, hinputs, List.map_cons] at hplace
  obtain ⟨e, next, rest, rfl, hmove⟩ := hplace.exists_of_cons
  obtain ⟨hstep, -, hstart, -⟩ := Step.moves_of_move? hmove
  have hplaced : e.placed? = some ⟨i.name, e.start, i.size⟩ := by simp [Extent.placed?, hstep]
  have he : e ∈ m.extents := by simp [hextents]
  have hmem : i ∈ m.inputs := List.mem_filterMap.2 ⟨e, he, by simp [hstep, Step.input?]⟩
  have hpow : isPowerOfTwo i.align = true :=
    hr.steps (.place i) (hstep ▸ h.map_step ▸ List.mem_map_of_mem he)
  -- what the section starts at is aligned for the input already, and the preamble keeps it so
  have hfirst : e.start = first :=
    eq_of_align? hpow hstart (haligned.keeps _ hpow ((h.fits hr).aligned_inputs i hmem))
  refine ⟨⟨i.name, e.start, i.size⟩, ?_, ?_⟩
  · rw [MappedSection.placed, hextents, List.filterMap_append, hnone, List.nil_append,
      List.cons_append, List.filterMap_cons_some hplaced, List.head?_cons]
  · rw [← and_assoc, ← h.address_eq_iff_dvd hr]
    change e.start = c ↔ _
    rw [hfirst]
    constructor
    · rintro rfl
      have hlow := le_of_align? (Section.dvd_startAlign hr).1 h.aligned
      have haddress : m.address = first := UInt64.le_antisymm haligned.le hlow
      exact ⟨haddress, haddress ▸ haligned.stays.1 haddress.symm⟩
    · rintro ⟨rfl, hpreamble⟩
      exact haligned.stays.2 hpreamble

end Section.Mapped

/-! ### The entry -/

/-- An image starts with the entry section: it is the first input of the first section of the first
    segment, the entry symbol has its address, and this is the load address exactly if nothing in
    front of it aligns further. -/
structure LinkMap.Starts (m : LinkMap) (d : Layout) (s : Section) (t : MappedSection)
    (p : Placed) : Prop where
  declared : d.segments.head?.bind (·.sections.head?) = some s
  mapped : m.segments.head?.bind (·.sections.head?) = some t
  first : t.placed.head? = some p
  name : p.name = d.entrySection
  entry : m.entry = p.address
  symbol : m.symbols.get? d.entry = some m.entry
  atLoadAddress : m.entry = d.loadAddress ↔ s.align.toNat ∣ d.loadAddress.toNat ∧
    (∀ i ∈ t.inputs, i.align.toNat ∣ d.loadAddress.toNat) ∧
    ∀ a, .align a ∈ s.preamble → a.toNat ∣ d.loadAddress.toNat

namespace Layout

variable {d : Layout} {inputs : List Input} {collect : Bool} {m : LinkMap} {g : Segment}
  {s : Section} {rule : InputRule}

/-- The leading rule takes every input with the name of the entry section: as a pattern, this name
    stands for itself whatever wildcards it has. -/
theorem Leads.inputsOf_ne_nil (h : d.Leads g s rule) (hnodup : (d.sections.map (·.name)).Nodup)
    (collect : Bool) {i : Input} (hi : i ∈ inputs) (hname : i.name = d.entrySection) :
    (d.routing collect inputs).inputsOf ⟨s.name, s.preamble.length⟩ rule.order ≠ [] := by
  have haccepts : rule.accepts i.name = true := by
    rw [InputRule.accepts, h.patterns, hname, List.any_cons, List.any_nil, Bool.or_false,
      Wildcard.ofString, Wildcard.accepts_iff_matches, Wildcard.matches_map_ofByte_iff]
    exact Wildcard.denotes_self _
  have hzero : d.sections[0]? = some s := List.head?_eq_getElem? ▸ h.head?_sections
  obtain ⟨-, -, hslot⟩ := Section.getElem?_length_preamble h.leadingRule
  have htaken := h.mem_taken collect hi haccepts
  rw [← pool_filter_routing d collect inputs hnodup hzero hslot] at htaken
  exact List.ne_nil_of_mem ((rule.order.arrange_perm _).mem_iff.2 htaken)

/-- Every image that is linked starts with the entry section. -/
theorem starts_of_link (h : d.link inputs collect = .ok m) : ∃ s t p, m.Starts d s t p := by
  have hlinked := linked_of_link h
  obtain ⟨g, s, rule, hleads⟩ := exists_leads_of_fault? (fault?_of_link h)
  obtain ⟨stop, hswept⟩ := hlinked.segments
  obtain ⟨g', t, hg', ht, haligned, hmapped, hentry⟩ := hleads.exists_mapped hswept
  have hload : g'.address = d.loadAddress := eq_of_align? hlinked.sound.pageSize haligned
    ((isAligned_iff_dvd _ hlinked.sound.pageSize).1 hlinked.sound.loadAddress_aligned)
  rw [hlinked.entry, eq_comm, Option.bind_eq_some_iff] at hentry
  obtain ⟨p, hp, hentry⟩ := hentry
  obtain ⟨hname, haddress⟩ : p.name = d.entrySection ∧ p.address = m.entry := by
    simpa using hentry
  have hs : s ∈ d.sections := List.mem_of_mem_head? hleads.head?_sections
  have hr := hlinked.isRegular.sections s hs
  have hnodup := hlinked.sound.names_nodup
  obtain ⟨i, hi, hsame, -⟩ := exists_of_forall₂ (hmapped.fits hr).placed (List.mem_of_mem_head? hp)
  have hlisted : i ∈ inputs :=
    d.inputs_steps_subset collect inputs hnodup hs (hmapped.inputs_eq ▸ hi)
  have htaken := hleads.inputsOf_ne_nil hnodup collect hlisted (hsame.symm.trans hname)
  obtain ⟨q, hq, hstarts⟩ := hmapped.exists_first hr hleads.leadingRule htaken
  obtain rfl : q = p := Option.some.inj (hq.symm.trans hp)
  refine ⟨s, t, q, ?_⟩
  exact
    { declared := by rw [hleads.segment, Option.bind_some, hleads.leading]
      mapped := by rw [hg', Option.bind_some, ht]
      first := hq
      name := hname
      entry := haddress.symm
      symbol := hlinked.get?_entry
      atLoadAddress := haddress ▸ hload ▸ hstarts }

/-- Code that asks for a large alignment moves the entry away from the load address. -/
theorem starts_of_link_huge :
    let inputs : List Input := [⟨".text.huge", 0x10, 0x200000, true⟩, ⟨".crt0", 0x40, 4, false⟩]
    ∃ m, Standard.layout.link inputs true = .ok m ∧ m.entry = 0x200000 ∧
      ∃ s t p, m.Starts Standard.layout s t p := by
  intro inputs
  obtain ⟨m, hm⟩ := exists_of_isOk (e := Standard.layout.link inputs true) (by decide +kernel)
  have hentry : (Standard.layout.link inputs true).toOption.map (·.entry) = some 0x200000 := by
    decide +kernel
  rw [hm] at hentry
  exact ⟨m, hm, by simpa [Except.toOption] using hentry, starts_of_link hm⟩

end Layout

end BootImage
