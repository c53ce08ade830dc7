import BootImage.Proofs.Layout.Usable
import BootImage.Proofs.LinkMap.Conservation
import BootImage.Proofs.Text.ByteOrder
import BootImage.Proofs.Wildcard

/-! The entry of a link map.

    The rules of a layout make the entry section lead: the first segment holds code, and the first
    rule of its first section keeps the entry section and nothing else. That rule is also the first
    of the whole layout, so no other takes what it accepts, and collection drops none of it. If the
    name of the entry section has no wildcards, the rule accepts just this name, and the image has
    an entry exactly if an input of this name is listed. The main statement is
    `Layout.isSome_entryAddress?_iff`.

        segments   text                       first rule      first placed input
                   └─ .text ── statements ──  [".crt0"] ────  .crt0 -/

namespace BootImage

open Cursor

/-- A rule with one pattern, and that without wildcards, accepts this name alone. -/
theorem InputRule.accepts_iff_of_literal {rule : InputRule} {name : String}
    (hpatterns : rule.patterns = [name]) (hrun : '*' ∉ name.toList) (hsingle : '?' ∉ name.toList)
    (other : String) : rule.accepts other = true ↔ other = name := by
  have hrun' : '*'.toUInt8 ∉ Text.encode name := fun h =>
    hrun (Text.mem_toList_of_mem_encode (by decide) h)
  have hsingle' : '?'.toUInt8 ∉ Text.encode name := fun h =>
    hsingle (Text.mem_toList_of_mem_encode (by decide) h)
  rw [accepts, hpatterns, List.any_cons, List.any_nil, Bool.or_false, Wildcard.ofString,
    Wildcard.accepts_iff_matches, Wildcard.matches_map_ofByte_iff,
    Wildcard.denotes_iff_eq hrun' hsingle', Text.encode_inj]

namespace Layout

/-- The rule that takes space first is the first rule. -/
theorem head?_rules_of_leadingRule? {s : Section} {rule : InputRule}
    (h : leadingRule? s.statements = some rule) : s.rules.head? = some rule := by
  obtain ⟨before, after, hstatements, hbefore⟩ := leadingRule?_eq_some_iff.1 h
  rw [Section.rules, hstatements, List.filterMap_append, List.filterMap_eq_nil_iff.2]
  · rfl
  · intro statement hmem
    cases statement with
    | input rule => exact (hbefore _ hmem).elim
    | _ => rfl

variable {d : Layout} {g : Segment} {s : Section} {rule : InputRule}

/-- The leading rule is the first of its section. -/
theorem Leads.first (h : d.Leads g s rule) : s.rules.head? = some rule :=
  head?_rules_of_leadingRule? h.leadingRule

/-- The leading section is the first of the layout. -/
theorem Leads.head?_sections (h : d.Leads g s rule) : d.sections.head? = some s := by
  obtain ⟨gs, hsegments⟩ := List.head?_eq_some_iff.1 h.segment
  obtain ⟨ss, hsections⟩ := List.head?_eq_some_iff.1 h.leading
  simp [sections, loaded, hsegments, hsections]

/-- The leading rule takes exactly what it accepts. -/
theorem Leads.taken_eq (h : d.Leads g s rule) (collect : Bool) (inputs : List Input) :
    d.taken collect inputs 0 s 0 = inputs.filter (rule.accepts ·.name) := by
  have hzero : d.sections[0]? = some s := List.head?_eq_getElem? ▸ h.head?_sections
  have hrule : s.rules[0]? = some rule := List.head?_eq_getElem? ▸ h.first
  exact d.taken_eq_filter collect inputs hzero hrule h.keep (by simp) (by simp)

/-- What the leading rule accepts is routed to it, and kept. -/
theorem Leads.mem_taken (h : d.Leads g s rule) (collect : Bool) {inputs : List Input} {i : Input}
    (hi : i ∈ inputs) (haccepts : rule.accepts i.name = true) :
    i ∈ d.taken collect inputs 0 s 0 := by
  rw [h.taken_eq]
  exact List.mem_filter.2 ⟨hi, haccepts⟩

/-- The leading rule takes only what it accepts. -/
theorem Leads.accepts_of_mem_taken (h : d.Leads g s rule) {collect : Bool} {inputs : List Input}
    {i : Input} (hi : i ∈ d.taken collect inputs 0 s 0) : rule.accepts i.name = true := by
  rw [h.taken_eq] at hi
  exact (List.mem_filter.1 hi).2

/-- The leading section places first what its leading rule takes. -/
theorem Leads.inputs_steps (h : d.Leads g s rule) (hnodup : (d.sections.map (·.name)).Nodup)
    (collect : Bool) (inputs : List Input) :
    ∃ rest, (s.steps (d.routing collect inputs)).filterMap (·.input?) =
      rule.order.arrange (d.taken collect inputs 0 s 0) ++ rest := by
  obtain ⟨rules, hrules⟩ := List.head?_eq_some_iff.1 h.first
  have hzero : d.sections[0]? = some s := by
    rw [← List.head?_eq_getElem?]
    exact h.head?_sections
  rw [d.inputs_steps_routing collect inputs hnodup hzero, hrules, List.zipIdx_cons,
    List.flatMap_cons]
  exact ⟨_, rfl⟩

/-- The leading section comes first in a link map too, in the segment at the load address, and its
    first input decides the entry. -/
theorem Leads.exists_mapped (h : d.Leads g s rule) {r : Routing} {segments : List MappedSegment}
    {stop : UInt64}
    (hswept : Swept (Segment.move? r d.pageSize) d.segments d.loadAddress segments stop) :
    ∃ g' t, segments.head? = some g' ∧ g'.sections.head? = some t ∧
      align? d.loadAddress d.pageSize = some g'.address ∧ s.Mapped r g'.address t ∧
      entryAddress? d.entrySection segments = t.placed.head?.bind fun p =>
        if p.name = d.entrySection then some p.address else none := by
  obtain ⟨gs, hsegments⟩ := List.head?_eq_some_iff.1 h.segment
  obtain ⟨ss, hsections⟩ := List.head?_eq_some_iff.1 h.leading
  rw [hsegments] at hswept
  obtain ⟨g', _, gs', rfl, hmove⟩ := hswept.exists_of_cons
  obtain ⟨hg, -⟩ := Segment.mapped_of_move? hmove
  have hsections' := hg.swept
  rw [hsections] at hsections'
  obtain ⟨t, _, ts, hts, hmove'⟩ := hsections'.exists_of_cons
  have hexecute : g'.permissions.execute = true := hg.permissions ▸ h.execute
  have hhead : g'.sections.head? = some t := by rw [hts, List.head?_cons]
  refine ⟨g', t, rfl, hhead, hg.aligned, (Section.mapped_of_move? hmove').1, ?_⟩
  rw [entryAddress?, List.find?_cons, hexecute]
  simp only [Option.bind_eq_bind, Option.bind_some, hhead]

/-- Of the code segment and its first section the entry has the first input. -/
theorem Leads.isSome_entryAddress?_iff_head? (h : d.Leads g s rule) {collect : Bool}
    {inputs : List Input} {segments : List MappedSegment} {unloaded : List MappedSection}
    (hmap : d.map? (d.routing collect inputs) = some (segments, unloaded)) :
    (entryAddress? d.entrySection segments).isSome = true ↔
      ∃ i ∈ ((s.steps (d.routing collect inputs)).filterMap (·.input?)).head?,
        i.name = d.entrySection := by
  obtain ⟨⟨stop, hswept⟩, -⟩ := linked_of_map? hmap
  obtain ⟨g', t, -, -, -, hs, hentry⟩ := h.exists_mapped hswept
  have hlabels := t.map_label_placed
  rw [← hs.inputs_eq, hentry]
  cases hplaced : t.placed with
  | nil =>
    rw [hplaced, List.map_nil, eq_comm, List.map_eq_nil_iff] at hlabels
    simp [hlabels]
  | cons p ps =>
    cases hinputs : t.inputs with
    | nil => simp [hplaced, hinputs] at hlabels
    | cons i is =>
      have hname : p.name = i.name := by
        simp only [hplaced, hinputs, List.map_cons, List.cons.injEq] at hlabels
        exact congrArg Prod.fst hlabels.1
      simp [hname]

/-- Where the name of the entry section has no wildcards, there is an entry exactly if an input has
    this name. -/
theorem isSome_entryAddress?_iff {collect : Bool} {inputs : List Input}
    {segments : List MappedSegment} {unloaded : List MappedSection} (hfault : d.fault? = none)
    (hmap : d.map? (d.routing collect inputs) = some (segments, unloaded))
    (hrun : '*' ∉ d.entrySection.toList) (hsingle : '?' ∉ d.entrySection.toList) :
    (entryAddress? d.entrySection segments).isSome = true ↔
      ∃ i ∈ inputs, i.name = d.entrySection := by
  obtain ⟨g, s, rule, h⟩ := exists_leads_of_fault? hfault
  have hnodup := (sound_of_fault? hfault).names_nodup
  have hs : s ∈ d.sections := List.mem_of_mem_head? h.head?_sections
  have haccepts := InputRule.accepts_iff_of_literal h.patterns hrun hsingle
  rw [h.isSome_entryAddress?_iff_head? hmap]
  constructor
  · rintro ⟨i, hi, hname⟩
    exact ⟨i, d.inputs_steps_subset collect inputs hnodup hs (List.mem_of_mem_head? hi), hname⟩
  · rintro ⟨i, hi, hname⟩
    obtain ⟨rest, hinputs⟩ := h.inputs_steps hnodup collect inputs
    have htaken := h.mem_taken collect hi ((haccepts i.name).2 hname)
    have hperm := rule.order.arrange_perm (d.taken collect inputs 0 s 0)
    rw [hinputs]
    cases harranged : rule.order.arrange (d.taken collect inputs 0 s 0) with
    | nil =>
      rw [harranged] at hperm
      exact absurd (hperm.mem_iff.2 htaken) List.not_mem_nil
    | cons j js =>
      -- whichever input comes first, the leading rule took it
      have hj : j ∈ d.taken collect inputs 0 s 0 :=
        hperm.mem_iff.1 (harranged ▸ List.mem_cons_self)
      exact ⟨j, rfl, (haccepts j.name).1 (h.accepts_of_mem_taken hj)⟩

end Layout

end BootImage
