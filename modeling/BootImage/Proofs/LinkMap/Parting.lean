import BootImage.Proofs.LinkMap.Growth
import BootImage.Proofs.LinkMap.Relinked

/-! Where two links part.

    A link map is read from front to back as landmarks: where segments and sections start, what each
    step covers, and where they stop. Two lists of inputs that differ in the size of one input give
    the same landmarks up to where this input is placed, and there too it starts at the same
    address; only what follows can move. An input that is not placed makes no difference at all. The
    main statement, also about inputs that grow, is `Layout.link_grown`.

        one    segment  section  symbol  place a  place i      symbol  ...  section  segment
        other  segment  section  symbol  place a  place j      symbol  ...  section  segment
               \____________ the same __________/ same start   what follows may move            -/

namespace BootImage

open Word Cursor

/-! ### Landmarks -/

/-- Something that has an address: the start of a segment or section, an extent, or a stop. -/
inductive Landmark where
  | start (name : String) (address : UInt64)
  | extent (e : Extent)
  | stop (address : UInt64)

/-- The input that is placed at the landmark. -/
def Landmark.input? : Landmark → Option Input
  | .extent e => e.step.input?
  | _ => none

/-- The symbol that is defined at the landmark, with its value. -/
def Landmark.symbol? : Landmark → Option (String × UInt64)
  | .extent e => e.symbol?
  | _ => none

/-- A section from its start to its stop. -/
def MappedSection.landmarks (s : MappedSection) : List Landmark :=
  .start s.name s.address :: s.extents.map .extent ++ [.stop s.stop]

/-- A segment from its start to its stop. -/
def MappedSegment.landmarks (g : MappedSegment) : List Landmark :=
  .start g.name g.address :: g.sections.flatMap (·.landmarks) ++ [.stop g.stop]

/-- A link map in the order of the layout: the segments, and then the unloaded sections. -/
def LinkMap.landmarks (m : LinkMap) : List Landmark :=
  m.segments.flatMap (·.landmarks) ++ m.unloaded.flatMap (·.landmarks)

/-- Two lists of landmarks are the same up to where the one has the input `i` and the other has `j`,
    and both inputs start there at the same address. -/
def PartAt (i j : Input) (l l' : List Landmark) : Prop :=
  ∃ common e e' rest rest', l = common ++ .extent e :: rest ∧ l' = common ++ .extent e' :: rest' ∧
    e.step = .place i ∧ e'.step = .place j ∧ e.start = e'.start

/-- The inputs are the same, or they are these two. -/
def Input.Replaced (i j : Input) (a b : Input) : Prop := a = b ∨ (a = i ∧ b = j)

namespace PartAt

variable {i j : Input} {l l' : List Landmark}

/-- What is the same in front stays so. -/
theorem append_left (h : PartAt i j l l') (front : List Landmark) :
    PartAt i j (front ++ l) (front ++ l') := by
  obtain ⟨common, e, e', rest, rest', rfl, rfl, h⟩ := h
  exact ⟨front ++ common, e, e', rest, rest', (List.append_assoc ..).symm,
    (List.append_assoc ..).symm, h⟩

/-- What follows does not matter. -/
theorem append_right (h : PartAt i j l l') (back back' : List Landmark) :
    PartAt i j (l ++ back) (l' ++ back') := by
  obtain ⟨common, e, e', rest, rest', rfl, rfl, h⟩ := h
  exact ⟨common, e, e', rest ++ back, rest' ++ back', List.append_assoc .., List.append_assoc .., h⟩

end PartAt

/-! ### Runs side by side -/

section Runs

variable {i j : Input}

/-- Two sweeps from one cursor stay the same or part, if two moves from one cursor do. -/
theorem Cursor.Swept.eq_or_partAt {α β : Type} {move move' : α → UInt64 → Option (β × UInt64)}
    {S : α → α → Prop} {f : β → List Landmark}
    (hstep : ∀ a a', S a a' → ∀ c b next b' next', move a c = some (b, next) →
      move' a' c = some (b', next') →
        (b = b' ∧ next = next') ∨ PartAt i j (f b) (f b'))
    {as as' : List α} (hS : List.Forall₂ S as as') {c stop stop' : UInt64} {bs bs' : List β}
    (h : Swept move as c bs stop) (h' : Swept move' as' c bs' stop') :
    (bs = bs' ∧ stop = stop') ∨ PartAt i j (bs.flatMap f) (bs'.flatMap f) := by
  induction hS generalizing c bs bs' with
  | nil =>
    cases h
    cases h'
    exact .inl ⟨rfl, rfl⟩
  | cons ha _ ih =>
    cases h with
    | cons head tail =>
      cases h' with
      | cons head' tail' =>
        rw [List.flatMap_cons, List.flatMap_cons]
        rcases hstep _ _ ha _ _ _ _ _ head head' with ⟨rfl, rfl⟩ | hpart
        · rcases ih tail tail' with ⟨rfl, rfl⟩ | hpart
          · exact .inl ⟨rfl, rfl⟩
          · exact .inr (hpart.append_left _)
        · exact .inr (hpart.append_right _ _)

/-- What is made of the elements of one list in two ways stays the same or parts, if it does for
    each element. -/
theorem eq_or_partAt_of_forall₂ {α β : Type} {R R' : α → β → Prop} {f : β → List Landmark}
    (hstep : ∀ a b b', R a b → R' a b' → b = b' ∨ PartAt i j (f b) (f b'))
    {as : List α} {bs bs' : List β} (h : List.Forall₂ R as bs) (h' : List.Forall₂ R' as bs') :
    bs = bs' ∨ PartAt i j (bs.flatMap f) (bs'.flatMap f) := by
  induction h generalizing bs' with
  | nil =>
    cases h'
    exact .inl rfl
  | cons ha _ ih =>
    cases h' with
    | cons ha' hrest =>
      rw [List.flatMap_cons, List.flatMap_cons]
      rcases hstep _ _ _ ha ha' with rfl | hpart
      · exact (ih hrest).imp (congrArg _) fun hpart => hpart.append_left _
      · exact .inr (hpart.append_right _ _)

/-- From one cursor, steps with the same input go the same way, and those with one of the two
    inputs each start at the same address. -/
theorem Step.Alike.eq_or_partAt {step step' : Step} (hresized : i.Resized j)
    (h : Step.Alike (Input.Replaced i j) step step') {c next next' : UInt64} {e e' : Extent}
    (hmove : step.move? c = some (e, next)) (hmove' : step'.move? c = some (e', next')) :
    (e = e' ∧ next = next') ∨ PartAt i j [.extent e] [.extent e'] := by
  have hsame (hstep : step = step') : e = e' ∧ next = next' := by
    subst hstep
    exact Prod.mk.inj (Option.some.inj (hmove.symm.trans hmove'))
  cases h with
  | @place a b hab =>
    rcases hab with rfl | ⟨rfl, rfl⟩
    · exact .inl (hsame rfl)
    · obtain ⟨hstep, -, hstart, -⟩ := moves_of_move? hmove
      obtain ⟨hstep', -, hstart', -⟩ := moves_of_move? hmove'
      rw [hresized.align, hstart', Option.some.injEq] at hstart
      exact .inr ⟨[], e, e', [], [], rfl, rfl, hstep, hstep', hstart.symm⟩
  | _ => exact .inl (hsame rfl)

theorem Input.Resized.of_replaced (hresized : i.Resized j) (a b : Input)
    (h : Input.Replaced i j a b) : a.Resized b := by
  rcases h with rfl | ⟨rfl, rfl⟩
  · exact ⟨rfl, rfl, rfl⟩
  · exact hresized

variable {r r' : Routing} (hresized : i.Resized j)
  (hsteps : Routing.StepsAlike (Input.Replaced i j) r r')
include hresized hsteps

/-- From one cursor, a section is placed the same way or parts where the two inputs differ. -/
theorem Section.Mapped.eq_or_partAt {s : Section} {c : UInt64} {t t' : MappedSection}
    (h : s.Mapped r c t) (h' : s.Mapped r' c t') :
    t = t' ∨ PartAt i j t.landmarks t'.landmarks := by
  have haligned := h.aligned
  rw [hsteps.startAlign_eq hresized.of_replaced, h'.aligned, Option.some.injEq] at haligned
  obtain ⟨name, contents, address, stop, es⟩ := t
  obtain ⟨name', contents', address', stop', es'⟩ := t'
  obtain rfl : name = name' := h.name.trans h'.name.symm
  obtain rfl : contents = contents' := h.contents.trans h'.contents.symm
  obtain rfl : address' = address := haligned
  rcases h.swept.eq_or_partAt (f := fun e => [.extent e])
    (fun _ _ halike _ _ _ _ _ hmove hmove' => halike.eq_or_partAt hresized hmove hmove') (hsteps s)
    h'.swept with ⟨rfl, rfl⟩ | hpart
  · exact .inl rfl
  · rw [← List.map_eq_flatMap, ← List.map_eq_flatMap] at hpart
    exact .inr ((hpart.append_right _ _).append_left [.start name address'])

/-- From one cursor, a segment is placed the same way or parts where the two inputs differ. -/
theorem Segment.Mapped.eq_or_partAt {g : Segment} {pageSize c : UInt64} {k k' : MappedSegment}
    (h : g.Mapped r pageSize c k) (h' : g.Mapped r' pageSize c k') :
    k = k' ∨ PartAt i j k.landmarks k'.landmarks := by
  have haligned := h.aligned
  rw [h'.aligned, Option.some.injEq] at haligned
  obtain ⟨name, permissions, address, stop, ts⟩ := k
  obtain ⟨name', permissions', address', stop', ts'⟩ := k'
  obtain rfl : name = name' := h.name.trans h'.name.symm
  obtain rfl : permissions = permissions' := h.permissions.trans h'.permissions.symm
  obtain rfl : address' = address := haligned
  rcases h.swept.eq_or_partAt (f := (·.landmarks)) (S := Eq)
    (fun s _ heq c t _ t' _ hmove hmove' => by
      subst heq
      obtain ⟨hmapped, rfl⟩ := Section.mapped_of_move? hmove
      obtain ⟨hmapped', rfl⟩ := Section.mapped_of_move? hmove'
      exact (hmapped.eq_or_partAt hresized hsteps hmapped').imp_left fun heq => ⟨heq, heq ▸ rfl⟩)
    (List.forall₂_same.2 fun _ _ => rfl) h'.swept with ⟨rfl, rfl⟩ | hpart
  · exact .inl rfl
  · exact .inr ((hpart.append_right _ _).append_left [.start name address'])

end Runs

/-- Two maps of one layout are the same or part where the two inputs differ. -/
theorem Layout.Linked.eq_or_partAt {d : Layout} {collect : Bool} {m n : LinkMap} {i j : Input}
    {inputs inputs' : List Input} (hm : d.Linked inputs collect m) (hn : d.Linked inputs' collect n)
    (hresized : i.Resized j) (h : List.Forall₂ (Input.Replaced i j) inputs inputs') :
    (m.segments = n.segments ∧ m.unloaded = n.unloaded) ∨
      PartAt i j m.landmarks n.landmarks := by
  have hsteps := stepsAlike_routing hresized.of_replaced d collect h
  obtain ⟨stop, hswept⟩ := hm.segments
  obtain ⟨stop', hswept'⟩ := hn.segments
  rcases hswept.eq_or_partAt (f := (·.landmarks)) (S := Eq)
    (fun s _ heq c t _ t' _ hmove hmove' => by
      subst heq
      obtain ⟨hmapped, rfl⟩ := Segment.mapped_of_move? hmove
      obtain ⟨hmapped', rfl⟩ := Segment.mapped_of_move? hmove'
      exact (hmapped.eq_or_partAt hresized hsteps hmapped').imp_left fun heq => ⟨heq, heq ▸ rfl⟩)
    (List.forall₂_same.2 fun _ _ => rfl) hswept' with ⟨hsegments, -⟩ | hpart
  · rcases eq_or_partAt_of_forall₂ (f := (·.landmarks))
      (fun _ _ _ ht ht' => ht.eq_or_partAt hresized hsteps ht') hm.unloaded hn.unloaded
      with hunloaded | hpart
    · exact .inl ⟨hsegments, hunloaded⟩
    · rw [LinkMap.landmarks, LinkMap.landmarks, hsegments]
      exact .inr (hpart.append_left _)
  · exact .inr (hpart.append_right _ _)

/-! ### What the landmarks say -/

/-- What is found at landmarks other than starts and stops is found of the extents. -/
theorem LinkMap.filterMap_landmarks {α : Type} {f : Landmark → Option α}
    (hstart : ∀ name address, f (.start name address) = none)
    (hstop : ∀ address, f (.stop address) = none) (m : LinkMap) :
    m.landmarks.filterMap f = m.sections.flatMap fun t => t.extents.filterMap (f <| .extent ·) := by
  have hsection (t : MappedSection) :
      t.landmarks.filterMap f = t.extents.filterMap (f <| .extent ·) := by
    simp [MappedSection.landmarks, hstart, hstop, List.filterMap_map]
  have hsegment (g : MappedSegment) : g.landmarks.filterMap f =
      g.sections.flatMap fun t => t.extents.filterMap (f <| .extent ·) := by
    simp [MappedSegment.landmarks, hstart, hstop, List.filterMap_flatMap, hsection]
  simp [landmarks, sections, List.filterMap_flatMap, hsegment, hsection, List.flatMap_assoc]

/-- The landmarks have the inputs of the sections, in order. -/
theorem LinkMap.filterMap_input?_landmarks (m : LinkMap) :
    m.landmarks.filterMap (·.input?) = m.sections.flatMap (·.inputs) :=
  m.filterMap_landmarks (fun _ _ => rfl) fun _ => rfl

/-- The landmarks have the symbols of the sections, in order. -/
theorem LinkMap.filterMap_symbol?_landmarks (m : LinkMap) :
    m.landmarks.filterMap (·.symbol?) = m.sections.flatMap (·.symbols) :=
  m.filterMap_landmarks (fun _ _ => rfl) fun _ => rfl

namespace Layout

variable {d : Layout} {inputs : List Input} {collect : Bool} {m n : LinkMap} {i j : Input}

/-- A symbol that is defined at a landmark has its value in the table if a loaded section defines it
    and it is not the entry. -/
theorem Linked.get?_of_mem_landmarks (h : d.Linked inputs collect m) {name : String}
    {value : UInt64} (hmem : (name, value) ∈ m.landmarks.filterMap (·.symbol?)) :
    m.symbols.get? name = if name = d.entry then some m.entry
      else if name ∈ d.loaded.flatMap (·.symbols) then some value else none := by
  rw [m.filterMap_symbol?_landmarks] at hmem
  split
  · next heq => exact heq ▸ h.get?_entry
  · next hne =>
    split
    · next hloaded =>
      obtain ⟨other, hother⟩ := Option.isSome_iff_exists.1 (h.isSome_get? hloaded)
      have hfind := hother
      rw [h.get?_of_ne hne, Option.map_eq_some_iff] at hfind
      obtain ⟨p, hp, rfl⟩ := hfind
      have hname : p.1 = name := by simpa using List.find?_some hp
      have hp' : p ∈ m.sections.flatMap (·.symbols) := by
        rw [LinkMap.sections, List.flatMap_append]
        exact List.mem_append_left _ (List.mem_of_find?_eq_some hp)
      -- no name is defined twice, so this is the value at the landmark
      have hnodup : ((m.sections.flatMap (·.symbols)).map (·.1)).Nodup := by
        rw [map_fst_flatMap_symbols h.sections]
        exact h.sound.symbols_nodup
      obtain rfl : p = (name, value) := List.inj_on_of_nodup_map hnodup hp' hmem hname
      exact hother
    · next hloaded =>
      rw [← Option.not_isSome_iff_eq_none, h.isSome_get?_iff, not_or]
      exact ⟨hloaded, hne⟩

/-- The input is placed: collection spares it, and some rule accepts its name. -/
def places (d : Layout) (collect : Bool) (i : Input) : Bool :=
  !d.drops collect i && (d.owner? i.name).isSome

/-- The landmarks have the inputs that are placed. -/
theorem Linked.landmarks_perm (h : d.Linked inputs collect m) :
    (m.landmarks.filterMap (·.input?)).Perm (inputs.filter (d.places collect)) := by
  rw [m.filterMap_input?_landmarks]
  exact h.inputs_perm

end Layout

/-- Two maps are the same up to where the one has the input `i` and the other has `j`: both start
    there at the same address, and what follows places the same inputs. The symbols that are defined
    up to there have the same values, and the image has the same entry. -/
structure LinkMap.SameUpTo (m n : LinkMap) (i j : Input) (common rest rest' : List Landmark)
    (e e' : Extent) : Prop where
  left : m.landmarks = common ++ .extent e :: rest
  right : n.landmarks = common ++ .extent e' :: rest'
  step : e.step = .place i
  step' : e'.step = .place j
  start : e.start = e'.start
  inputs : (rest.filterMap (·.input?)).Perm (rest'.filterMap (·.input?))
  symbols : ∀ name value, (name, value) ∈ common.filterMap (·.symbol?) →
    m.symbols.get? name = n.symbols.get? name
  entry : m.entry = n.entry

namespace Layout

variable {d : Layout} {collect : Bool} {m n : LinkMap} {i j : Input} {before after : List Input}

/-- An input of another size is placed exactly if the input is. -/
theorem places_eq (d : Layout) (collect : Bool) (h : i.Resized j) :
    d.places collect i = d.places collect j := by
  rw [places, places, h.drops_eq, h.name]

/-- Without the input that differs, the same inputs are placed before and behind where it is. -/
theorem Linked.perm_of_landmarks (h : d.Linked (before ++ i :: after) collect m)
    (hplaced : d.places collect i = true) {common rest : List Landmark} {e : Extent}
    (hlandmarks : m.landmarks = common ++ .extent e :: rest) (hstep : e.step = .place i) :
    (common.filterMap (·.input?) ++ rest.filterMap (·.input?)).Perm
      (before.filter (d.places collect) ++ after.filter (d.places collect)) := by
  have hinput : Landmark.input? (.extent e) = some i := by rw [Landmark.input?, hstep, Step.input?]
  have hperm := h.landmarks_perm
  rw [hlandmarks, List.filterMap_append, List.filterMap_cons_some hinput, List.filter_append,
    List.filter_cons_of_pos hplaced] at hperm
  exact (List.perm_middle.symm.trans (hperm.trans List.perm_middle)).cons_inv

/-- The entry does not depend on sizes. -/
theorem Linked.entry_eq {inputs inputs' : List Input} (hm : d.Linked inputs collect m)
    (hn : d.Linked inputs' collect n) (hfault : d.fault? = none) {R : Input → Input → Prop}
    (hR : ∀ i j, R i j → i.Resized j) (h : List.Forall₂ R inputs inputs') : m.entry = n.entry := by
  obtain ⟨stop, hswept⟩ := hm.segments
  obtain ⟨stop', hswept'⟩ := hn.segments
  have hentry :=
    entryAddress?_alike hfault hR (stepsAlike_routing hR d collect h) hswept hswept'
  rwa [hm.entry, hn.entry, Option.some.injEq] at hentry

/-- Where the one input is placed, maps with the same landmarks have the same input in its place. -/
theorem Linked.eq_of_landmarks_eq (hm : d.Linked (before ++ i :: after) collect m)
    (hn : d.Linked (before ++ j :: after) collect n) (hresized : i.Resized j)
    (hplaced : d.places collect i = true) (h : m.landmarks = n.landmarks) : i = j := by
  have hperm := hm.landmarks_perm
  have hperm' := hn.landmarks_perm
  rw [h, List.filter_append, List.filter_cons_of_pos hplaced] at hperm
  rw [List.filter_append,
    List.filter_cons_of_pos (d.places_eq collect hresized ▸ hplaced)] at hperm'
  have hsame : ([i] ++ after.filter (d.places collect)).Perm ([j] ++ after.filter (d.places collect)) :=
    (List.perm_append_left_iff _).1 (hperm.symm.trans hperm')
  exact List.singleton_perm_singleton.1 ((List.perm_append_right_iff _).1 hsame)

/-- Maps whose landmarks part at the two inputs have the input placed there, and are the same up to
    there. -/
theorem Linked.exists_sameUpTo (hm : d.Linked (before ++ i :: after) collect m)
    (hn : d.Linked (before ++ j :: after) collect n) (hresized : i.Resized j)
    (hentry : m.entry = n.entry) (h : PartAt i j m.landmarks n.landmarks) :
    d.places collect i = true ∧
      ∃ common rest rest' e e', m.SameUpTo n i j common rest rest' e e' := by
  obtain ⟨common, e, e', rest, rest', hleft, hright, hstep, hstep', hstart⟩ := h
  have hplaced : d.places collect i = true := by
    have hmem : i ∈ m.landmarks.filterMap (·.input?) := List.mem_filterMap.2
      ⟨.extent e, by simp [hleft], by rw [Landmark.input?, hstep, Step.input?]⟩
    exact (List.mem_filter.1 (hm.landmarks_perm.mem_iff.1 hmem)).2
  have hperm := hm.perm_of_landmarks hplaced hleft hstep
  have hperm' := hn.perm_of_landmarks (d.places_eq collect hresized ▸ hplaced) hright hstep'
  refine ⟨hplaced, common, rest, rest', e, e', ?_⟩
  exact {
    left := hleft
    right := hright
    step := hstep
    step' := hstep'
    start := hstart
    inputs := (List.perm_append_left_iff _).1 (hperm.trans hperm'.symm)
    symbols := fun name value hmem => by
      have hmem' (l : List Landmark) : (name, value) ∈ (common ++ l).filterMap (·.symbol?) := by
        rw [List.filterMap_append]
        exact List.mem_append_left _ hmem
      rw [hm.get?_of_mem_landmarks (hleft ▸ hmem' _), hn.get?_of_mem_landmarks (hright ▸ hmem' _),
        hentry]
    entry := hentry }

/-- If the size of one input changes, the maps are the same up to where it is placed, and the same
    altogether if it is not placed. -/
theorem link_resized (hm : d.link (before ++ i :: after) collect = .ok m)
    (hn : d.link (before ++ j :: after) collect = .ok n) (hresized : i.Resized j) (hne : i ≠ j) :
    (d.places collect i = true → ∃ common rest rest' e e', m.SameUpTo n i j common rest rest' e e') ∧
      (d.places collect i = false → m.Coincides n) := by
  have hlinked := linked_of_link hm
  have hlinked' := linked_of_link hn
  have hreplaced : List.Forall₂ (Input.Replaced i j) (before ++ i :: after) (before ++ j :: after) :=
    List.rel_append (List.forall₂_same.2 fun _ _ => .inl rfl)
      (.cons (.inr ⟨rfl, rfl⟩) (List.forall₂_same.2 fun _ _ => .inl rfl))
  have hentry : m.entry = n.entry :=
    hlinked.entry_eq hlinked' (fault?_of_link hm) hresized.of_replaced hreplaced
  rcases hlinked.eq_or_partAt hlinked' hresized hreplaced with ⟨hsegments, hunloaded⟩ | hpart
  · refine ⟨fun hplaced => absurd ?_ hne, fun _ => ⟨hentry, hsegments, hunloaded, ?_⟩⟩
    · exact hlinked.eq_of_landmarks_eq hlinked' hresized hplaced
        (by rw [LinkMap.landmarks, LinkMap.landmarks, hsegments, hunloaded])
    · rw [hlinked.symbols, hlinked'.symbols, hsegments, hentry]
  · obtain ⟨hplaced, hsame⟩ := hlinked.exists_sameUpTo hlinked' hresized hentry hpart
    refine ⟨fun _ => hsame, fun hnot => ?_⟩
    rw [hplaced] at hnot
    cases hnot

/-- Where inputs can be linked, inputs that are no larger can be linked too: the same is placed in
    the same order, and everything lies at or below where it was. If only one input differs, nothing
    moves in front of where it is placed. -/
theorem link_grown {inputs grown : List Input} (h : d.link grown collect = .ok n)
    (hgrows : List.Forall₂ Input.GrowsTo inputs grown) :
    ∃ m, d.link inputs collect = .ok m ∧ m.LiesBelow n ∧
      ∀ before i j after, inputs = before ++ i :: after → grown = before ++ j :: after → i ≠ j →
        (d.places collect i = true →
          ∃ common rest rest' e e', m.SameUpTo n i j common rest rest' e e') ∧
        (d.places collect i = false → m.Coincides n) := by
  obtain ⟨m, hm, hbelow⟩ := exists_link_of_grown h hgrows
  refine ⟨m, hm, hbelow, ?_⟩
  rintro before i j after rfl rfl hne
  obtain ⟨i', hi', hij⟩ := exists_getElem?_of_forall₂ hgrows (k := before.length) (b := j) (by simp)
  obtain rfl : i = i' := by simpa using hi'
  exact link_resized hm h hij.toResized hne

/-- Code that grows over the end of its page moves the segments behind it by a page. -/
theorem link_grown_code :
    let a : Input := ⟨".crt0", 0x40, 4, true⟩
    let i : Input := ⟨".text.main", 0x100, 16, true⟩
    let j : Input := ⟨".text.main", 0x1000, 16, true⟩
    let b : Input := ⟨".data.x", 8, 4, true⟩
    List.Forall₂ Input.GrowsTo [a, i, b] [a, j, b] ∧
      ∃ m n, Standard.layout.link [a, i, b] false = .ok m ∧
        Standard.layout.link [a, j, b] false = .ok n ∧
        n.segments.map (·.address) = [0x100000, 0x102000, 0x102000] ∧ m.LiesBelow n ∧
        ∃ common rest rest' e e', m.SameUpTo n i j common rest rest' e e' := by
  intro a i j b
  have hself (x : Input) : x.GrowsTo x := ⟨⟨rfl, rfl, rfl⟩, UInt64.le_refl _⟩
  have hgrows : List.Forall₂ Input.GrowsTo [a, i, b] [a, j, b] :=
    .cons (hself a) (.cons ⟨⟨rfl, rfl, rfl⟩, by decide⟩ (.cons (hself b) .nil))
  have haddresses : (Standard.layout.link [a, j, b] false).toOption.map
      (·.segments.map (·.address)) = some [0x100000, 0x102000, 0x102000] := by decide +kernel
  obtain ⟨n, hn, haddresses⟩ := Option.map_eq_some_iff.1 haddresses
  have hlink := eq_ok_of_toOption hn
  obtain ⟨m, hm, hbelow, hparts⟩ := link_grown hlink hgrows
  have hsame := (hparts [a] i j [b] rfl rfl (by decide)).1 (by decide +kernel)
  exact ⟨hgrows, m, n, hm, hlink, haddresses, hbelow, hsame⟩

end Layout

end BootImage
