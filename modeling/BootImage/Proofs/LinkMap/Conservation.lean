import BootImage.Proofs.LinkMap.Geometry

/-! Linking conserves the inputs.

    Every input that is listed goes to exactly one place: it is dropped, or left over as an orphan,
    or placed once, in the section that its name is routed to. Nothing else is placed. Inputs may be
    listed more than once, so this is said of the lists as multisets. The main statement is
    `Layout.conserves_of_link`.

        inputs ~ placed in segments ++ placed unloaded ++ orphans ++ discarded -/

namespace BootImage

/-- What of an input is found again where it is placed. -/
def Input.label (i : Input) : String × UInt64 := (i.name, i.size)

/-- What is found of an input where it is placed. -/
def Placed.label (p : Placed) : String × UInt64 := (p.name, p.size)

/-- A link map conserves the inputs: what is dropped and what is left over are exactly those that
    should be, in the order of the list; each section places exactly the inputs that stay and that
    it owns; and all parts together are the inputs again. -/
structure LinkMap.Conserves (m : LinkMap) (d : Layout) (inputs : List Input) (collect : Bool) :
    Prop where
  discarded : m.discarded = inputs.filter (d.drops collect)
  orphans : m.orphans =
    inputs.filter fun i => !d.drops collect i && (d.firstRule? i.name).isNone
  names : m.sections.map (·.name) = d.sections.map (·.name)
  taken : ∀ (k : Nat) (s : MappedSection), m.sections[k]? = some s →
    s.inputs.Perm (inputs.filter fun i => !d.drops collect i && d.owner? i.name == some k)
  placed : ∀ s ∈ m.sections, s.placed.map (·.label) = s.inputs.map (·.label)
  whole : (inputs.map (·.label)).Perm
    (m.placed.map (·.2.label) ++ (m.unloaded.flatMap (·.placed)).map (·.label) ++
      m.orphans.map (·.label) ++ m.discarded.map (·.label))

/-- Extents place the inputs of their steps, in order. -/
theorem map_label_filterMap_placed? (es : List Extent) :
    (es.filterMap (·.placed?)).map (·.label) =
      ((es.map (·.step)).filterMap (·.input?)).map (·.label) := by
  rw [List.filterMap_map, List.map_filterMap, List.map_filterMap]
  refine List.filterMap_congr fun e _ => ?_
  cases hstep : e.step <;> simp [Extent.placed?, Step.input?, hstep, Placed.label, Input.label]

/-- What is placed in a section are its inputs, in order. -/
theorem MappedSection.map_label_placed (m : MappedSection) :
    m.placed.map (·.label) = m.inputs.map (·.label) := by
  rw [placed, inputs, map_label_filterMap_placed?, List.filterMap_map]
  rfl

/-- A name has an owner if some rule accepts it. -/
theorem Layout.isSome_owner? (d : Layout) (name : String) :
    (d.owner? name).isSome = (d.firstRule? name).isSome := by
  rw [owner?, firstRule?, List.findIdx?_isSome, List.isSome_find?, List.any_flatMap]

namespace Layout.Linked

variable {d : Layout} {inputs : List Input} {collect : Bool} {m : LinkMap}

/-- A mapped section has the inputs that stay and that its position owns. -/
theorem taken (h : d.Linked inputs collect m) {k : Nat} {t : MappedSection}
    (hk : m.sections[k]? = some t) :
    t.inputs.Perm (inputs.filter fun i => !d.drops collect i && d.owner? i.name == some k) := by
  obtain ⟨s, hs, c, hmapped⟩ := exists_getElem?_of_forall₂ h.sections hk
  rw [hmapped.inputs_eq]
  exact d.inputs_steps_perm collect inputs h.sound.names_nodup hs

/-- All sections together have the inputs that stay and that some rule accepts. -/
theorem inputs_perm (h : d.Linked inputs collect m) :
    (m.sections.flatMap (·.inputs)).Perm
      (inputs.filter fun i => !d.drops collect i && (d.owner? i.name).isSome) := by
  let owned := inputs.filter fun i => !d.drops collect i && (d.owner? i.name).isSome
  have hlength : m.sections.length = d.sections.length := by
    simpa using congrArg List.length h.map_name_sections
  have howner : ∀ i ∈ owned, ∃ k < m.sections.length, d.owner? i.name = some k := by
    intro i hi
    simp only [owned, List.mem_filter, Bool.and_eq_true] at hi
    obtain ⟨k, hk⟩ := Option.isSome_iff_exists.1 hi.2.2
    obtain ⟨hlt, -⟩ := List.findIdx?_eq_some_iff_getElem.1 hk
    exact ⟨k, hlength ▸ hlt, hk⟩
  have htaken (k : Nat) : (inputs.filter fun i => !d.drops collect i && d.owner? i.name == some k) =
      owned.filter (d.owner? ·.name == some k) := by
    rw [List.filter_filter]
    refine List.filter_congr fun i _ => ?_
    cases d.owner? i.name <;> simp [Bool.and_comm]
  rw [← List.zipIdx_map_fst 0 m.sections, List.flatMap_map]
  refine (perm_flatMap_range fun k t hk => ?_).trans (perm_flatMap_range_filter howner)
  rw [← htaken]
  exact h.taken hk

/-- The inputs are what is placed, left over and dropped. -/
theorem inputs_whole (h : d.Linked inputs collect m) :
    (m.sections.flatMap (·.inputs) ++ m.orphans ++ m.discarded).Perm inputs := by
  have hstay : m.orphans = (inputs.filter fun i => !d.drops collect i).filter fun i =>
      !(d.owner? i.name).isSome := by
    rw [h.orphans, orphans_routing, List.filter_filter]
    refine List.filter_congr fun i _ => ?_
    rw [isSome_owner?, Option.not_isSome, Bool.and_comm]
  have howned : (m.sections.flatMap (·.inputs)).Perm
      ((inputs.filter fun i => !d.drops collect i).filter fun i => (d.owner? i.name).isSome) := by
    rw [List.filter_filter]
    simp only [Bool.and_comm]
    exact h.inputs_perm
  have hkept : (m.sections.flatMap (·.inputs) ++ m.orphans).Perm
      (inputs.filter fun i => !d.drops collect i) := by
    rw [hstay]
    exact (howned.append_right _).trans (List.filter_append_perm _ _)
  rw [h.discarded, discarded_routing]
  exact (hkept.append_right _).trans
    (List.perm_append_comm.trans (List.filter_append_perm (d.drops collect) inputs))

end Layout.Linked

/-- Every successful link conserves the inputs. -/
theorem Layout.conserves_of_link {d : Layout} {inputs : List Input} {collect : Bool} {m : LinkMap}
    (h : d.link inputs collect = .ok m) : m.Conserves d inputs collect := by
  have hlinked := linked_of_link h
  have hplaced : m.placed.map (·.2.label) ++ (m.unloaded.flatMap (·.placed)).map (·.label) =
      (m.sections.flatMap (·.inputs)).map (·.label) := by
    have hlabels : (m.sections.flatMap (·.inputs)).map (·.label) =
        (m.sections.flatMap (·.placed)).map (·.label) := by
      rw [List.map_flatMap, List.map_flatMap]
      exact List.flatMap_congr fun s _ => s.map_label_placed.symm
    rw [hlabels, LinkMap.sections, List.flatMap_append, List.map_append, LinkMap.placed]
    simp [List.map_flatMap, List.flatMap_assoc, Function.comp_def]
  refine {
    discarded := hlinked.discarded.trans (discarded_routing d collect inputs)
    orphans := hlinked.orphans.trans (orphans_routing d collect inputs)
    names := hlinked.map_name_sections
    taken := fun k s hk => hlinked.taken hk
    placed := fun s _ => s.map_label_placed
    whole := ?_ }
  rw [hplaced, ← List.map_append, ← List.map_append]
  exact (hlinked.inputs_whole.map _).symm

/-- One input of each kind: placed, dropped, placed unloaded, and left over. -/
theorem Layout.conserves_of_link_standard :
    let inputs : List Input := [⟨".crt0", 0x40, 4, false⟩, ⟨".text.b", 0x10, 4, false⟩,
      ⟨".debug_info", 0x500, 1, true⟩, ⟨".note", 0x24, 4, true⟩]
    ∃ m, Standard.layout.link inputs true = .ok m ∧
      m.discarded.map (·.name) = [".text.b"] ∧ m.orphans.map (·.name) = [".note"] ∧
      m.Conserves Standard.layout inputs true := by
  intro inputs
  obtain ⟨m, hm⟩ := exists_of_isOk (e := Standard.layout.link inputs true) (by decide +kernel)
  have hnames : (Standard.layout.link inputs true).toOption.map
      (fun m => (m.discarded.map (·.name), m.orphans.map (·.name))) =
        some ([".text.b"], [".note"]) := by decide +kernel
  rw [hm] at hnames
  simp only [Except.toOption, Option.map_some, Option.some.injEq, Prod.mk.injEq] at hnames
  exact ⟨m, hm, hnames.1, hnames.2, conserves_of_link hm⟩

end BootImage
