import BootImage.Proofs.LinkMap.Outcome

/-! Inputs that grow.

    Sizes are not asked for when inputs are routed and put in order, so inputs of other sizes are
    placed by the same steps. Two links of such lists are followed step by step: rounding up keeps
    the order of two cursors, and so does adding a size to the lower one and a size that is no
    smaller to the other. What the lower cursor passes lies at or below what the other passes, and
    it stays within the limit if the other does. Only the entry does not move: in front of it
    nothing has a size. The main statement is `Layout.exists_link_of_grown`.

        smaller   |== .crt0 ==|== a ==|. . |== b ==|. . . . .|== next page ...
        larger    |== .crt0 ==|==== a ====|. . . . |==== b ====|. . . . . . . .|== next page ...
                  entry -/

namespace BootImage

open Word Cursor

/-! ### Inputs of other sizes -/

/-- Two inputs differ at most in their sizes. -/
structure Input.Resized (i j : Input) : Prop where
  name : i.name = j.name
  align : i.align = j.align
  retained : i.retained = j.retained

/-- Two inputs differ at most in their sizes, and the second is no smaller. -/
structure Input.GrowsTo (i j : Input) : Prop extends Input.Resized i j where
  size : i.size ≤ j.size

/-- Two steps are the same, but that the inputs that they place are related. -/
inductive Step.Alike (R : Input → Input → Prop) : Step → Step → Prop
  | symbol (name : String) : Alike R (.symbol name) (.symbol name)
  | align (a : UInt64) : Alike R (.align a) (.align a)
  | reserve (n : UInt64) : Alike R (.reserve n) (.reserve n)
  | place {i j : Input} (h : R i j) : Alike R (.place i) (.place j)

/-- Sections take the same steps by both routings, but that the inputs that they place are related. -/
def Routing.StepsAlike (R : Input → Input → Prop) (r r' : Routing) : Prop :=
  ∀ s : Section, List.Forall₂ (Step.Alike R) (s.steps r) (s.steps r')

/-- Collection does not ask for sizes. -/
theorem Input.Resized.drops_eq {i j : Input} (h : i.Resized j) (d : Layout) (collect : Bool) :
    d.drops collect i = d.drops collect j := by
  rw [Layout.drops, Layout.drops, h.name, h.retained]

section Resized

variable {R : Input → Input → Prop} (hR : ∀ i j, R i j → i.Resized j)
include hR

theorem Order.forall₂_arrange (o : Order) {l l' : List Input} (h : List.Forall₂ R l l') :
    List.Forall₂ R (o.arrange l) (o.arrange l') := by
  cases o with
  | listed => exact h
  | byName =>
    refine forall₂_mergeSort (fun ha hb => ?_) h
    rw [(hR _ _ ha).name, (hR _ _ hb).name]
  | byPriority =>
    refine forall₂_mergeSort (fun ha hb => ?_) h
    rw [(hR _ _ ha).name, (hR _ _ hb).name]

/-- What each rule takes does not depend on sizes. -/
theorem Layout.forall₂_inputsOf {d : Layout} {collect : Bool} {inputs inputs' : List Input}
    (h : List.Forall₂ R inputs inputs') (slot : Slot) (order : Order) :
    List.Forall₂ R ((d.routing collect inputs).inputsOf slot order)
      ((d.routing collect inputs').inputsOf slot order) := by
  have hstay : List.Forall₂ R (inputs.filter fun i => !d.drops collect i)
      (inputs'.filter fun i => !d.drops collect i) := by
    refine List.rel_filter (fun i j hij => ?_) h
    simp only [(hR i j hij).drops_eq]
  have hpool : List.Forall₂ (fun x y => x.1 = y.1 ∧ R x.2 y.2) (d.routing collect inputs).pool
      (d.routing collect inputs').pool := by
    rw [pool_routing, pool_routing]
    refine List.rel_filterMap (fun i j hij => ?_) hstay
    rw [(hR i j hij).name]
    cases route? d.slots j.name with
    | none => exact .none
    | some route => exact .some ⟨rfl, hij⟩
  refine order.forall₂_arrange hR (List.rel_map (fun _ _ hxy => hxy.2) (List.rel_filter ?_ hpool))
  intro x y hxy
  simp only [hxy.1]

/-- Inputs of other sizes are placed by the same steps. -/
theorem Layout.stepsAlike_routing (d : Layout) (collect : Bool) {inputs inputs' : List Input}
    (h : List.Forall₂ R inputs inputs') :
    Routing.StepsAlike R (d.routing collect inputs) (d.routing collect inputs') := by
  intro s
  refine List.rel_flatMap (List.forall₂_same.2 fun _ _ => rfl) ?_
  rintro ⟨statement, i⟩ _ rfl
  cases statement with
  | symbol name => exact .cons (.symbol name) .nil
  | align a => exact .cons (.align a) .nil
  | reserve n => exact .cons (.reserve n) .nil
  | input rule =>
    exact List.rel_map (fun _ _ hij => .place hij) (Layout.forall₂_inputsOf hR h _ _)

/-- Sections are aligned alike for inputs of other sizes. -/
theorem Routing.StepsAlike.startAlign_eq {r r' : Routing} (h : Routing.StepsAlike R r r')
    (s : Section) : s.startAlign (s.steps r) = s.startAlign (s.steps r') := by
  have hinputs : List.Forall₂ R ((s.steps r).filterMap (·.input?))
      ((s.steps r').filterMap (·.input?)) := by
    refine List.rel_filterMap (fun step step' halike => ?_) (h s)
    cases halike with
    | place hij => exact .some hij
    | _ => exact .none
  rw [Section.startAlign, Section.startAlign,
    map_eq_of_forall₂ (hinputs.imp fun i j hij => (hR i j hij).align)]

end Resized

/-! ### The entry -/

/-- From the same cursor, alike steps place first an input of the same name at the same address. -/
theorem Step.head?_placed_alike {R : Input → Input → Prop} (hR : ∀ i j, R i j → i.Resized j)
    {steps steps' : List Step} (h : List.Forall₂ (Step.Alike R) steps steps') {c stop stop' : UInt64}
    {es es' : List Extent} (hswept : Swept Step.move? steps c es stop)
    (hswept' : Swept Step.move? steps' c es' stop') :
    (es.filterMap (·.placed?)).head?.map (fun p => (p.name, p.address)) =
      (es'.filterMap (·.placed?)).head?.map (fun p => (p.name, p.address)) := by
  induction h generalizing c es es' with
  | nil =>
    cases hswept
    cases hswept'
    rfl
  | cons halike _ ih =>
    cases hswept with
    | cons head tail =>
      cases hswept' with
      | cons head' tail' =>
        cases halike with
        | place hij =>
          obtain ⟨hstep, -, hstart, -⟩ := moves_of_move? head
          obtain ⟨hstep', -, hstart', -⟩ := moves_of_move? head'
          rw [(hR _ _ hij).align, hstart', Option.some.injEq] at hstart
          simp [Extent.placed?, hstep, hstep', (hR _ _ hij).name, hstart]
        | _ =>
          obtain ⟨rfl, rfl⟩ := Prod.mk.inj (Option.some.inj (head.symm.trans head'))
          have hstep := (moves_of_move? head).1
          rw [List.filterMap_cons_none (by simp [Extent.placed?, hstep]),
            List.filterMap_cons_none (by simp [Extent.placed?, hstep])]
          exact ih tail tail'

/-- By alike steps the image has the same entry: nothing in front of it has a size of its own. -/
theorem Layout.entryAddress?_alike {d : Layout} (hfault : d.fault? = none)
    {R : Input → Input → Prop} (hR : ∀ i j, R i j → i.Resized j) {r r' : Routing}
    (hsteps : Routing.StepsAlike R r r') {segments segments' : List MappedSegment}
    {stop stop' : UInt64}
    (hswept : Swept (Segment.move? r d.pageSize) d.segments d.loadAddress segments stop)
    (hswept' : Swept (Segment.move? r' d.pageSize) d.segments d.loadAddress segments' stop') :
    entryAddress? d.entrySection segments = entryAddress? d.entrySection segments' := by
  obtain ⟨g, s, rule, hleads⟩ := exists_leads_of_fault? hfault
  obtain ⟨g₁, t, -, -, hpage, hmapped, hentry⟩ := hleads.exists_mapped hswept
  obtain ⟨g₂, t', -, -, hpage', hmapped', hentry'⟩ := hleads.exists_mapped hswept'
  have hsegment : g₁.address = g₂.address := Option.some.inj (hpage.symm.trans hpage')
  have haligned := hmapped.aligned
  rw [hsteps.startAlign_eq hR, hsegment, hmapped'.aligned] at haligned
  have hfirst := Step.head?_placed_alike hR (hsteps s) hmapped.swept
    (Option.some.inj haligned ▸ hmapped'.swept)
  have hbind (t : MappedSection) : (t.placed.head?.bind fun p =>
      if p.name = d.entrySection then some p.address else none) =
        (t.placed.head?.map fun p => (p.name, p.address)).bind fun p =>
          if p.1 = d.entrySection then some p.2 else none := by
    rw [Option.bind_map]
    rfl
  rw [hentry, hentry', hbind, hbind]
  exact congrArg (Option.bind · _) hfirst

/-! ### Below what has grown -/

/-- An extent of a step whose input may grow, at or below another. -/
structure Extent.LiesBelow (e f : Extent) : Prop where
  step : Step.Alike Input.GrowsTo e.step f.step
  start : e.start ≤ f.start
  stop : e.stop ≤ f.stop

/-- A section lies at or below another of its name, with all that it covers. -/
structure MappedSection.LiesBelow (s t : MappedSection) : Prop where
  name : s.name = t.name
  contents : s.contents = t.contents
  address : s.address ≤ t.address
  stop : s.stop ≤ t.stop
  extents : List.Forall₂ Extent.LiesBelow s.extents t.extents

/-- A segment lies at or below another of its name, with all its sections. -/
structure MappedSegment.LiesBelow (g h : MappedSegment) : Prop where
  name : g.name = h.name
  permissions : g.permissions = h.permissions
  address : g.address ≤ h.address
  stop : g.stop ≤ h.stop
  sections : List.Forall₂ MappedSection.LiesBelow g.sections h.sections

/-- An input was placed at or below where another of its name was. -/
structure Placed.LiesBelow (p q : Placed) : Prop where
  name : p.name = q.name
  address : p.address ≤ q.address

/-- Everything in a link map lies at or below its counterpart in another: the same names are placed
    in the same order, and the same symbols have values. The entry does not move. -/
structure LinkMap.LiesBelow (m n : LinkMap) : Prop where
  entry : m.entry = n.entry
  segments : List.Forall₂ MappedSegment.LiesBelow m.segments n.segments
  unloaded : List.Forall₂ MappedSection.LiesBelow m.unloaded n.unloaded
  placed : List.Forall₂ Placed.LiesBelow (m.sections.flatMap (·.placed))
    (n.sections.flatMap (·.placed))
  symbols : ∀ name, Option.Rel (· ≤ ·) (m.symbols.get? name) (n.symbols.get? name)

/-- A step can be taken from a lower cursor too, with an input that is no larger, and goes no
    higher. -/
theorem Step.Alike.exists_move? {step step' : Step} (h : Step.Alike Input.GrowsTo step step')
    (hr : step'.IsRegular) {c c' next' : UInt64} {f : Extent} (hc : c ≤ c')
    (hmove : step'.move? c' = some (f, next')) :
    ∃ e next, step.move? c = some (e, next) ∧ e.LiesBelow f ∧ next ≤ next' := by
  obtain ⟨hstep, rfl, hmoves⟩ := Step.moves_of_move? hmove
  have halike := h
  rw [← hstep] at halike
  cases h with
  | symbol name =>
    obtain ⟨hstart, hstop⟩ := hmoves
    exact ⟨⟨.symbol name, c, c⟩, c, rfl, ⟨halike, hstart ▸ hc, hstop ▸ hc⟩, hstop ▸ hc⟩
  | align a =>
    obtain ⟨hstart, hnext⟩ := hmoves
    obtain ⟨next, halign, hle⟩ := align?_of_le hr hc hnext
    exact ⟨⟨.align a, c, next⟩, next, by simp [Step.move?, halign],
      ⟨halike, hstart ▸ hc, hle⟩, hle⟩
  | reserve n =>
    obtain ⟨hstart, hnext⟩ := hmoves
    obtain ⟨next, hadvance, hle⟩ := advance?_of_le hc (UInt64.le_refl n) hnext
    exact ⟨⟨.reserve n, c, next⟩, next, by simp [Step.move?, hadvance],
      ⟨halike, hstart ▸ hc, hle⟩, hle⟩
  | @place i j hgrows =>
    obtain ⟨hstart, hnext⟩ := hmoves
    obtain ⟨start, halign, hlow⟩ := align?_of_le hr hc hstart
    obtain ⟨next, hadvance, hle⟩ := advance?_of_le hlow hgrows.size hnext
    rw [← hgrows.align] at halign
    exact ⟨⟨.place i, start, next⟩, next, by simp [Step.move?, halign, hadvance],
      ⟨halike, hlow, hle⟩, hle⟩

/-- A step is like itself. -/
theorem Step.alike_self (step : Step) : Step.Alike Input.GrowsTo step step := by
  cases step with
  | symbol name => exact .symbol name
  | align a => exact .align a
  | reserve n => exact .reserve n
  | place i => exact .place ⟨⟨rfl, rfl, rfl⟩, UInt64.le_refl _⟩

section Lockstep

variable {r r' : Routing} (hsteps : Routing.StepsAlike Input.GrowsTo r r')
include hsteps

/-- A section can be placed from a lower cursor with inputs that are no larger. -/
theorem Section.Mapped.exists_move?_of_grown {s : Section} {c c' : UInt64} {t' : MappedSection}
    (h : s.Mapped r' c' t') (hr : s.IsRegular r') (hc : c ≤ c') :
    ∃ t, s.move? r c = some (t, t.stop) ∧ t.LiesBelow t' := by
  obtain ⟨address, halign, haddress⟩ := align?_of_le (dvd_startAlign hr).1 hc h.aligned
  obtain ⟨es, stop, hswept, hextents, hstop⟩ := h.swept.exists_of_le
    (fun _ step' hstep' h _ _ _ _ hc hmove => h.exists_move? (hr.steps step' hstep') hc hmove)
    (hsteps s) haddress
  rw [← hsteps.startAlign_eq (fun _ _ h => h.toResized)] at halign
  refine ⟨⟨s.name, s.contents, address, stop, es⟩, ?_, ?_⟩
  · simp [move?, halign, hswept.sweep?_eq]
  · exact ⟨h.name.symm, h.contents.symm, haddress, hstop, hextents⟩

/-- A segment can be placed from a lower cursor with inputs that are no larger. -/
theorem Segment.Mapped.exists_move?_of_grown {g : Segment} {pageSize c c' : UInt64}
    {k' : MappedSegment} (h : g.Mapped r' pageSize c' k') (hpage : isPowerOfTwo pageSize = true)
    (hr : ∀ s ∈ g.sections, s.IsRegular r') (hc : c ≤ c') :
    ∃ k, g.move? r pageSize c = some (k, k.stop) ∧ k.LiesBelow k' := by
  obtain ⟨address, halign, haddress⟩ := align?_of_le hpage hc h.aligned
  obtain ⟨ts, stop, hswept, hsections, hstop⟩ := h.swept.exists_of_le
    (T := MappedSection.LiesBelow) (fun _ s hs heq c c' _ _ hc hmove => by
      obtain ⟨hmapped, rfl⟩ := Section.mapped_of_move? hmove
      obtain ⟨t, hmove, hbelow⟩ := hmapped.exists_move?_of_grown hsteps (hr s hs) hc
      exact ⟨t, t.stop, heq ▸ hmove, hbelow, hbelow.stop⟩)
    (List.forall₂_same.2 fun _ _ => rfl) haddress
  refine ⟨⟨g.name, g.permissions, address, stop, ts⟩, ?_, ?_⟩
  · simp [move?, halign, hswept.sweep?_eq]
  · exact ⟨h.name.symm, h.permissions.symm, haddress, hstop, hsections⟩

end Lockstep

/-- Everything can be placed with inputs that are no larger. -/
theorem Layout.Linked.exists_map?_of_grown {d : Layout} {grown : List Input} {collect : Bool}
    {n : LinkMap} (h : d.Linked grown collect n) {r : Routing}
    (hsteps : Routing.StepsAlike Input.GrowsTo r (d.routing collect grown)) :
    ∃ segments unloaded, d.map? r = some (segments, unloaded) ∧
      List.Forall₂ MappedSegment.LiesBelow segments n.segments ∧
      List.Forall₂ MappedSection.LiesBelow unloaded n.unloaded := by
  obtain ⟨stop', hswept'⟩ := h.segments
  obtain ⟨segments, stop, hswept, hsegments, -⟩ := hswept'.exists_of_le
    (T := MappedSegment.LiesBelow) (fun _ g hg heq c c' _ _ hc hmove => by
      obtain ⟨hmapped, rfl⟩ := Segment.mapped_of_move? hmove
      obtain ⟨k, hmove, hbelow⟩ := hmapped.exists_move?_of_grown hsteps h.sound.pageSize
        (h.isRegular.loaded hg) hc
      exact ⟨k, k.stop, heq ▸ hmove, hbelow, hbelow.stop⟩)
    (List.forall₂_same.2 fun _ _ => rfl) (UInt64.le_refl d.loadAddress)
  obtain ⟨unloaded, hunloaded, hbelow⟩ := exists_mapM_of_forall₂ (f := (·.mapUnloaded? r)) h.unloaded
    fun s hs t hmapped => by
      obtain ⟨t', hmove, hbelow⟩ := hmapped.exists_move?_of_grown hsteps
        (h.isRegular.unloaded s hs) (UInt64.le_refl 0)
      exact ⟨t', by rw [Section.mapUnloaded?, hmove, Option.map_some], hbelow⟩
  refine ⟨segments, unloaded, ?_, hsegments, hbelow⟩
  simp only [map?, hswept.sweep?_eq, hunloaded, Option.bind_eq_bind, Option.bind_some]

/-! ### What is read off the steps -/

theorem Extent.LiesBelow.placed? {e f : Extent} (h : e.LiesBelow f) :
    Option.Rel Placed.LiesBelow e.placed? f.placed? := by
  obtain ⟨step, start, stop⟩ := e
  obtain ⟨step', start', stop'⟩ := f
  obtain ⟨halike, hstart, -⟩ := h
  cases halike with
  | place hgrows => exact .some ⟨hgrows.name, hstart⟩
  | _ => exact .none

theorem Extent.LiesBelow.symbol? {e f : Extent} (h : e.LiesBelow f) :
    Option.Rel (fun x y => x.1 = y.1 ∧ x.2 ≤ y.2) e.symbol? f.symbol? := by
  obtain ⟨step, start, stop⟩ := e
  obtain ⟨step', start', stop'⟩ := f
  obtain ⟨halike, hstart, -⟩ := h
  cases halike with
  | symbol name => exact .some ⟨rfl, hstart⟩
  | _ => exact .none

/-- The same names are found with values that are no higher. -/
theorem rel_find?_fst {xs ys : List (String × UInt64)}
    (h : List.Forall₂ (fun x y => x.1 = y.1 ∧ x.2 ≤ y.2) xs ys) (name : String) :
    Option.Rel (· ≤ ·) ((xs.find? (·.1 == name)).map (·.2)) ((ys.find? (·.1 == name)).map (·.2)) := by
  induction h with
  | nil => exact .none
  | @cons x y _ _ hxy _ ih =>
    rw [List.find?_cons, List.find?_cons, hxy.1]
    cases y.1 == name with
    | true => exact .some hxy.2
    | false => exact ih

namespace Layout

variable {d : Layout} {inputs grown : List Input} {collect : Bool} {m n : LinkMap}

/-- Maps whose segments and sections lie below those of others do so in all that is read off them. -/
theorem Linked.liesBelow (hm : d.Linked inputs collect m) (hn : d.Linked grown collect n)
    (hentry : m.entry = n.entry)
    (hsegments : List.Forall₂ MappedSegment.LiesBelow m.segments n.segments)
    (hunloaded : List.Forall₂ MappedSection.LiesBelow m.unloaded n.unloaded) : m.LiesBelow n := by
  have hloaded : List.Forall₂ MappedSection.LiesBelow (m.segments.flatMap (·.sections))
      (n.segments.flatMap (·.sections)) :=
    List.rel_flatMap hsegments fun _ _ h => h.sections
  refine ⟨hentry, hsegments, hunloaded, ?_, fun name => ?_⟩
  · refine List.rel_flatMap (List.rel_append hloaded hunloaded) fun s t h => ?_
    exact List.rel_filterMap (fun _ _ hef => hef.placed?) h.extents
  · rcases eq_or_ne name d.entry with rfl | hne
    · rw [hm.get?_entry, hn.get?_entry, hentry]
      exact .some (UInt64.le_refl _)
    · rw [hm.get?_of_ne hne, hn.get?_of_ne hne]
      refine rel_find?_fst (List.rel_flatMap hloaded fun s t h => ?_) name
      exact List.rel_filterMap (fun _ _ hef => hef.symbol?) h.extents

/-- Where inputs can be linked, inputs that are no larger can be linked too, and everything lies at
    or below where it was. -/
theorem exists_link_of_grown (h : d.link grown collect = .ok n)
    (hgrows : List.Forall₂ Input.GrowsTo inputs grown) :
    ∃ m, d.link inputs collect = .ok m ∧ m.LiesBelow n := by
  have hn := linked_of_link h
  have hfault := fault?_of_link h
  have hsteps := stepsAlike_routing (fun _ _ h => h.toResized) d collect hgrows
  obtain ⟨segments, unloaded, hmap, hsegments, hunloaded⟩ := hn.exists_map?_of_grown hsteps
  have hready : d.Ready inputs := ⟨hfault, fun i hi => by
    obtain ⟨j, hj, hij⟩ := exists_of_forall₂ hgrows.flip hi
    exact hij.align ▸ (isPowerOfTwo_iff_toNat _).1 (hn.inputs_aligned j hj)⟩
  obtain ⟨stop, hswept⟩ := (linked_of_map? hmap).1
  obtain ⟨stop', hswept'⟩ := hn.segments
  have hentry := entryAddress?_alike hfault (fun _ _ h => h.toResized) hsteps hswept hswept'
  rw [hn.entry] at hentry
  rcases hready.link_eq_of_map? hmap with ⟨hnone, -⟩ | ⟨-, m, hlink, rfl, rfl⟩
  · rw [hentry] at hnone
    cases hnone
  · have hm := linked_of_link hlink
    rw [hm.entry, Option.some.injEq] at hentry
    exact ⟨m, hlink, hm.liesBelow hn hentry hsegments hunloaded⟩

end Layout

end BootImage
