import BootImage.Proofs.Layout.Sound
import BootImage.Proofs.Word

/-! Usable layouts.

    Which layouts have no faults can be said without the walks that look for one. Each rule holds of
    the layout as a whole: the words are multiples and powers of two, the names and the symbols
    differ, every segment has sections and keeps code apart from what is written. The last rule is
    about the front of the layout only: nothing that takes space stands there before the entry
    section. The main statement is `Layout.fault?_eq_none_iff_usable`.

        first segment, first section:   symbol  align  reserve 0  symbol   input [entry section]
                                        \____________ no space __________/  kept                 -/

namespace BootImage

open Word

/-- The statement defines a symbol, aligns, or leaves a gap of no bytes. -/
def Statement.TakesNoSpace : Statement → Prop
  | .symbol _ => True
  | .align _ => True
  | .reserve size => size = 0
  | .input _ => False

namespace Layout

/-! ### The rule that takes space first -/

theorem leadingRule?_cons {statement : Statement} (h : statement.TakesNoSpace)
    (rest : List Statement) : leadingRule? (statement :: rest) = leadingRule? rest := by
  cases statement with
  | symbol name => rfl
  | align a => rfl
  | reserve size =>
    obtain rfl : size = 0 := h
    rfl
  | input rule => exact h.elim

/-- The rule that takes space first has only statements without space in front of it. -/
theorem leadingRule?_eq_some_iff {statements : List Statement} {rule : InputRule} :
    leadingRule? statements = some rule ↔ ∃ before after,
      statements = before ++ .input rule :: after ∧
        ∀ statement ∈ before, statement.TakesNoSpace := by
  constructor
  · intro h
    induction statements with
    | nil => cases h
    | cons statement rest ih =>
      by_cases hspace : statement.TakesNoSpace
      · rw [leadingRule?_cons hspace] at h
        obtain ⟨before, after, rfl, hbefore⟩ := ih h
        exact ⟨statement :: before, after, rfl, List.forall_mem_cons.2 ⟨hspace, hbefore⟩⟩
      · cases statement with
        | symbol name => exact absurd trivial hspace
        | align a => exact absurd trivial hspace
        | reserve size =>
          rw [leadingRule?, if_pos (UInt64.pos_iff_ne_zero.2 hspace)] at h
          cases h
        | input first =>
          obtain rfl : first = rule := Option.some.inj h
          exact ⟨[], rest, rfl, List.forall_mem_nil _⟩
  · rintro ⟨before, after, rfl, hbefore⟩
    induction before with
    | nil => rfl
    | cons statement before ih =>
      obtain ⟨hspace, hbefore⟩ := List.forall_mem_cons.1 hbefore
      rw [List.cons_append, leadingRule?_cons hspace, ih hbefore]

/-- A rule that keeps the entry section leads the layout: it is the first to take space in the first
    section of the first segment, and that segment holds code. -/
structure Leads (d : Layout) (g : Segment) (s : Section) (rule : InputRule) : Prop where
  segment : d.segments.head? = some g
  execute : g.permissions.execute = true
  leading : g.sections.head? = some s
  leadingRule : leadingRule? s.statements = some rule
  keep : rule.keep = true
  patterns : rule.patterns = [d.entrySection]

variable {d : Layout}

/-- The entry section leads exactly if it does so in the first section of the code segment. -/
theorem entryLeads_iff : d.entryLeads = true ↔
    ∃ g s rule, d.codeSegment? = some g ∧ g.sections.head? = some s ∧
      leadingRule? s.statements = some rule ∧ rule.keep = true ∧
      rule.patterns = [d.entrySection] := by
  rw [entryLeads]
  constructor
  · intro h
    split at h
    · next rule hrule =>
      obtain ⟨s, hs, hrule⟩ := Option.bind_eq_some_iff.1 hrule
      obtain ⟨g, hg, hs⟩ := Option.bind_eq_some_iff.1 hs
      rw [Bool.and_eq_true, beq_iff_eq] at h
      exact ⟨g, s, rule, hg, hs, hrule, h.1, h.2⟩
    · cases h
  · rintro ⟨g, s, rule, hg, hs, hrule, hkeep, hpatterns⟩
    simp [hg, hs, hrule, hkeep, hpatterns]

/-- A segment that holds code and comes first is the code segment. -/
theorem codeSegment?_of_head? {g : Segment} (h : d.segments.head? = some g)
    (hcode : g.permissions.execute = true) : d.codeSegment? = some g := by
  obtain ⟨rest, hsegments⟩ := List.head?_eq_some_iff.1 h
  rw [codeSegment?, hsegments, List.find?_cons, hcode]

/-- The entry is not at fault exactly if a rule that keeps it leads the layout. -/
theorem entryFault?_eq_none_iff : d.entryFault? = none ↔ ∃ g s rule, d.Leads g s rule := by
  constructor
  · intro h
    rw [entryFault?] at h
    split at h
    · cases h
    · next hfirst =>
      split at h
      · next hleads =>
        obtain ⟨g, s, rule, hg, hs, hrule, hkeep, hpatterns⟩ := entryLeads_iff.1 hleads
        -- there is a code segment, so there is a first one, and that is no other
        cases hsegments : d.segments with
        | nil => simp [codeSegment?, hsegments] at hg
        | cons first rest =>
          have hcode : first.permissions.execute = true := by
            simpa [hsegments, Option.filter_eq_none_iff] using hfirst
          have hhead : d.segments.head? = some first := by rw [hsegments, List.head?_cons]
          obtain rfl : first = g := by
            rw [codeSegment?_of_head? hhead hcode] at hg
            exact Option.some.inj hg
          exact ⟨first, s, rule, hhead, hcode, hs, hrule, hkeep, hpatterns⟩
      · cases h
  · rintro ⟨g, s, rule, h⟩
    have hleads : d.entryLeads = true := entryLeads_iff.2 ⟨g, s, rule,
      codeSegment?_of_head? h.segment h.execute, h.leading, h.leadingRule, h.keep, h.patterns⟩
    have hfirst : d.segments.head?.filter (!·.permissions.execute) = none := by
      simp [h.segment, h.execute]
    rw [entryFault?, hfirst]
    exact if_pos hleads

/-- In a layout without faults the rule of the entry section leads. -/
theorem exists_leads_of_fault? (h : d.fault? = none) : ∃ g s rule, d.Leads g s rule :=
  entryFault?_eq_none_iff.1 (fault?_eq_none_iff_rules.1 h).2.2.2.2

/-! ### The rules as a whole -/

/-- The first segment holds code, and in its first section only statements without space stand in
    front of a rule that keeps the entry section and nothing else. -/
def EntryAtFront (d : Layout) : Prop :=
  ∃ g segments s sections before rule after, d.segments = g :: segments ∧
    g.permissions.execute = true ∧ g.sections = s :: sections ∧
    s.statements = before ++ .input rule :: after ∧
    (∀ statement ∈ before, statement.TakesNoSpace) ∧
    rule.keep = true ∧ rule.patterns = [d.entrySection]

/-- The rules that a usable layout follows. -/
structure Usable (d : Layout) : Prop where
  pageSize : d.pageSize.toNat.isPowerOfTwo
  loadAddress_dvd : d.pageSize.toNat ∣ d.loadAddress.toNat
  loadAddress_lt : d.loadAddress.toNat < 2 ^ 32
  segments_nodup : (d.segments.map (·.name)).Nodup
  writeOrExecute : ∀ g ∈ d.segments, ¬ (g.permissions.write = true ∧ g.permissions.execute = true)
  sections_ne_nil : ∀ g ∈ d.segments, g.sections ≠ []
  sections_nodup : (d.sections.map (·.name)).Nodup
  aligned : ∀ s ∈ d.sections, s.align.toNat.isPowerOfTwo ∧
    ∀ a, .align a ∈ s.statements → a.toNat.isPowerOfTwo
  symbols_nodup : d.symbols.Nodup
  required : d.required ⊆ d.symbols
  entry : d.EntryAtFront

/-- A rule that keeps the entry section leads exactly if it stands at the front of the layout. -/
theorem exists_leads_iff : (∃ g s rule, d.Leads g s rule) ↔ d.EntryAtFront := by
  constructor
  · rintro ⟨g, s, rule, h⟩
    obtain ⟨segments, hsegments⟩ := List.head?_eq_some_iff.1 h.segment
    obtain ⟨sections, hsections⟩ := List.head?_eq_some_iff.1 h.leading
    obtain ⟨before, after, hstatements, hbefore⟩ := leadingRule?_eq_some_iff.1 h.leadingRule
    exact ⟨g, segments, s, sections, before, rule, after, hsegments, h.execute, hsections,
      hstatements, hbefore, h.keep, h.patterns⟩
  · rintro ⟨g, segments, s, sections, before, rule, after, hsegments, hcode, hsections,
      hstatements, hbefore, hkeep, hpatterns⟩
    exact ⟨g, s, rule, by rw [hsegments, List.head?_cons], hcode,
      by rw [hsections, List.head?_cons],
      leadingRule?_eq_some_iff.2 ⟨before, after, hstatements, hbefore⟩, hkeep, hpatterns⟩

/-- The alignments that a section names are its own and those of its statements. -/
theorem forall_mem_alignments {s : Section} {p : UInt64 → Prop} :
    (∀ a ∈ s.alignments, p a) ↔ p s.align ∧ ∀ a, .align a ∈ s.statements → p a := by
  rw [Section.alignments, List.forall_mem_cons]
  simp only [List.mem_filterMap]
  refine and_congr_right fun _ => forall_congr' fun a =>
    imp_congr_left ⟨?_, fun h => ⟨_, h, rfl⟩⟩
  rintro ⟨statement, hmem, hstatement⟩
  cases statement with
  | align b =>
    obtain rfl : b = a := Option.some.inj hstatement
    exact hmem
  | _ => cases hstatement

/-- The addresses are not at fault exactly if the page size is a power of two that divides a load
    address below the limit. -/
theorem addressFault?_eq_none_iff_toNat : d.addressFault? = none ↔
    d.pageSize.toNat.isPowerOfTwo ∧ d.pageSize.toNat ∣ d.loadAddress.toNat ∧
      d.loadAddress.toNat < 2 ^ 32 := by
  rw [addressFault?_eq_none_iff, ← isPowerOfTwo_iff_toNat, UInt64.lt_iff_toNat_lt]
  exact and_congr_right fun hpage => and_congr_left fun _ => isAligned_iff_dvd _ hpage

/-- A layout has no faults exactly if it follows all rules. -/
theorem fault?_eq_none_iff_usable (d : Layout) : d.fault? = none ↔ d.Usable := by
  rw [fault?_eq_none_iff_rules, addressFault?_eq_none_iff_toNat, segmentFault?_eq_none_iff,
    sectionFault?_eq_none_iff, symbolFault?_eq_none_iff, entryFault?_eq_none_iff, fresh_nil_iff,
    fresh_nil_iff, exists_leads_iff]
  simp only [forall_mem_alignments, isPowerOfTwo_iff_toNat, Permissions.writeAndExecute_eq,
    ← Bool.not_eq_true, Bool.and_eq_true]
  constructor
  · rintro ⟨⟨hpage, hdvd, hlt⟩, ⟨hsegments, hgs⟩, ⟨hsections, haligned⟩, ⟨hsymbols, hrequired⟩,
      hentry⟩
    exact {
      pageSize := hpage
      loadAddress_dvd := hdvd
      loadAddress_lt := hlt
      segments_nodup := hsegments
      writeOrExecute := fun g hg => (hgs g hg).1
      sections_ne_nil := fun g hg => (hgs g hg).2
      sections_nodup := hsections
      aligned := haligned
      symbols_nodup := hsymbols
      required := hrequired
      entry := hentry }
  · intro h
    exact ⟨⟨h.pageSize, h.loadAddress_dvd, h.loadAddress_lt⟩,
      ⟨h.segments_nodup, fun g hg => ⟨h.writeOrExecute g hg, h.sections_ne_nil g hg⟩⟩,
      ⟨h.sections_nodup, h.aligned⟩, ⟨h.symbols_nodup, fun _ hname => h.required hname⟩, h.entry⟩

end Layout

end BootImage
