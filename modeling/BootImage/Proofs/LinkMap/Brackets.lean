import BootImage.Proofs.LinkMap.Conservation
import BootImage.Proofs.LinkMap.Symbols

/-! Symbols bracket what is placed.

    What a section holds is divided by its statements, so the extents of a link map are listed by
    section and statement, in the order of declaration. All of them lie one after the other, over
    all segments. A symbol covers nothing, so its value is a bound: what was declared before it ends
    there or below, and what was declared after it starts there or above. The main statement is
    `Layout.brackets_of_link`.

        statement     input a    symbol first    input b   align   input c    symbol last   input d
        placed       |= a =|                    |= b =|           |= c =|                   |= d =|
                                first                                         last -/

namespace BootImage

open Cursor

/-! ### Lists by section and statement -/

/-- A statement at the first position is declared before one at the second: it stands in an earlier
    section, or earlier in the same one. -/
def Precedes (p q : Nat × Nat) : Prop := p.1 < q.1 ∨ p.1 = q.1 ∧ p.2 < q.2

theorem precedes_trichotomy (p q : Nat × Nat) : Precedes p q ∨ p = q ∨ Precedes q p := by
  simp only [Precedes, Prod.ext_iff]
  omega

/-- Listed for the statement at this position. -/
def ListedAt {α : Type} (lists : List (List (List α))) (position : Nat × Nat) (a : α) : Prop :=
  ∃ bySection, lists[position.1]? = some bySection ∧
    ∃ byStatement, bySection[position.2]? = some byStatement ∧ a ∈ byStatement

theorem related_of_getElem? {α : Type} {R : α → α → Prop} {l : List α} (h : l.Pairwise R)
    {i j : Nat} (hij : i < j) {a b : α} (ha : l[i]? = some a) (hb : l[j]? = some b) : R a b := by
  obtain ⟨hi, rfl⟩ := List.getElem?_eq_some_iff.1 ha
  obtain ⟨hj, rfl⟩ := List.getElem?_eq_some_iff.1 hb
  exact List.pairwise_iff_getElem.1 h i j hi hj hij

/-- What is related in the order of listing is related in the order of declaration. -/
theorem ListedAt.related {α : Type} {R : α → α → Prop} {lists : List (List (List α))}
    (h : lists.flatten.flatten.Pairwise R) {p q : Nat × Nat} (hpq : Precedes p q) {a b : α}
    (ha : ListedAt lists p a) (hb : ListedAt lists q b) : R a b := by
  obtain ⟨as, has, x, hx, hax⟩ := ha
  obtain ⟨bs, hbs, y, hy, hby⟩ := hb
  obtain ⟨hinner, houter⟩ := List.pairwise_flatten.1 (List.pairwise_flatten.1 h).2
  rcases hpq with hlt | ⟨heq, hlt⟩
  · exact related_of_getElem? houter hlt has hbs x (List.mem_of_getElem? hx) y
      (List.mem_of_getElem? hy) a hax b hby
  · rw [heq, hbs, Option.some.injEq] at has
    rw [← has] at hx
    exact related_of_getElem? (hinner bs (List.mem_of_getElem? hbs)) hlt hx hy a hax b hby

/-- A list whose image is made of pieces is made of pieces itself. -/
theorem exists_pieces {α β γ : Type} {f : α → List γ} {g : β → γ} :
    ∀ {as : List α} {l : List β}, l.map g = as.flatMap f →
      ∃ pieces, pieces.flatten = l ∧ List.Forall₂ (fun a piece => piece.map g = f a) as pieces
  | [], l, h => ⟨[], (List.map_eq_nil_iff.1 h).symm, .nil⟩
  | a :: as, l, h => by
    rw [List.flatMap_cons] at h
    obtain ⟨piece, rest, rfl, hpiece, hrest⟩ := List.map_eq_append_iff.1 h
    obtain ⟨pieces, rfl, hpieces⟩ := exists_pieces hrest
    exact ⟨piece :: pieces, rfl, .cons hpiece hpieces⟩

/-- What exists for each pair of related elements can be listed. -/
theorem exists_list_of_forall₂ {α β γ : Type} {P : α → γ → Prop} {Q : β → γ → Prop} {as : List α}
    {bs : List β} (h : List.Forall₂ (fun a b => ∃ c, P a c ∧ Q b c) as bs) :
    ∃ cs, List.Forall₂ P as cs ∧ List.Forall₂ Q bs cs := by
  induction h with
  | nil => exact ⟨[], .nil, .nil⟩
  | cons hab _ ih =>
    obtain ⟨c, hp, hq⟩ := hab
    obtain ⟨cs, hps, hqs⟩ := ih
    exact ⟨c :: cs, .cons hp hps, .cons hq hqs⟩

/-! ### What it is to bracket -/

/-- This statement of a loaded section defines the symbol. -/
def Layout.DefinesAt (d : Layout) (position : Nat × Nat) (name : String) : Prop :=
  ∃ s, d.loaded[position.1]? = some s ∧ s.statements[position.2]? = some (.symbol name)

/-- The groups are what a link map places in segments: for each loaded section and each of its
    statements, the inputs that were routed to the statement, in its order. -/
structure LinkMap.Grouped (m : LinkMap) (d : Layout) (r : Routing)
    (groups : List (List (List Placed))) : Prop where
  sections : List.Forall₂ (fun t bySection => bySection.flatten = t.placed)
    (m.segments.flatMap (·.sections)) groups
  statements : List.Forall₂ (fun s bySection =>
    List.Forall₂ (fun (statement, i) byStatement => byStatement.map (·.label) =
        ((Statement.steps r ⟨s.name, i⟩ statement).filterMap (·.input?)).map (·.label))
      s.statements.zipIdx bySection) d.loaded groups

/-- The symbol that is defined at a position has this value; the entry is left out, since its value
    is not that of a position. -/
def LinkMap.MarksAt (m : LinkMap) (d : Layout) (position : Nat × Nat) (value : UInt64) : Prop :=
  ∃ name, d.DefinesAt position name ∧ name ≠ d.entry ∧ m.symbols.get? name = some value

/-- The symbols of a link map bracket what it places: they are the symbols of the loaded sections
    and the entry, and each lies in its section, above all that was declared before it and below all
    that was declared after it. So symbols never fall in the order of declaration, and between two
    symbols of one section lies exactly what was declared between them. -/
structure LinkMap.Brackets (m : LinkMap) (d : Layout) (groups : List (List (List Placed))) :
    Prop where
  defined : ∀ name, (m.symbols.get? name).isSome = true ↔
    name ∈ d.loaded.flatMap (·.symbols) ∨ name = d.entry
  within : ∀ position name, d.DefinesAt position name → name ≠ d.entry → ∃ value t,
    m.symbols.get? name = some value ∧
      (m.segments.flatMap (·.sections))[position.1]? = some t ∧
      t.address.toNat ≤ value.toNat ∧ value.toNat ≤ t.address.toNat + t.size.toNat
  below : ∀ p q value, m.MarksAt d q value → Precedes p q →
    ∀ placed, ListedAt groups p placed → placed.stop ≤ value.toNat
  above : ∀ p q value, m.MarksAt d p value → Precedes p q →
    ∀ placed, ListedAt groups q placed → value.toNat ≤ placed.address.toNat
  monotone : ∀ p q first last, m.MarksAt d p first → m.MarksAt d q last → Precedes p q →
    first ≤ last
  between : ∀ k i j first last, m.MarksAt d (k, i) first → m.MarksAt d (k, j) last → i < j →
    ∀ p placed, ListedAt groups p placed →
      if p.1 = k ∧ i < p.2 ∧ p.2 < j
      then first.toNat ≤ placed.address.toNat ∧ placed.stop ≤ last.toNat
      else placed.stop ≤ first.toNat ∨ last.toNat ≤ placed.address.toNat

/-! ### Extents by statement -/

/-- The lists hold the extents of the loaded sections, divided by the statements that gave them. -/
structure Layout.Divides (d : Layout) (r : Routing) (m : LinkMap)
    (lists : List (List (List Extent))) : Prop where
  statements : List.Forall₂ (fun s bySection =>
    List.Forall₂ (fun (statement, i) byStatement =>
        byStatement.map (·.step) = Statement.steps r ⟨s.name, i⟩ statement)
      s.statements.zipIdx bySection) d.loaded lists
  sections : List.Forall₂ (fun t bySection => bySection.flatten = t.extents)
    (m.segments.flatMap (·.sections)) lists

namespace Layout.Divides

variable {d : Layout} {r : Routing} {m : LinkMap} {lists : List (List (List Extent))}
  {p : Nat × Nat} {name : String} {e : Extent}

/-- An extent belongs to the section of its position. -/
theorem exists_section (h : d.Divides r m lists) (he : ListedAt lists p e) :
    ∃ t, (m.segments.flatMap (·.sections))[p.1]? = some t ∧ e ∈ t.extents := by
  obtain ⟨bySection, hbySection, byStatement, hbyStatement, hmem⟩ := he
  obtain ⟨t, ht, hflatten⟩ := exists_getElem?_of_forall₂ h.sections hbySection
  refine ⟨t, ht, ?_⟩
  rw [← hflatten]
  exact List.mem_flatten.2 ⟨byStatement, List.mem_of_getElem? hbyStatement, hmem⟩

/-- For a symbol there is one extent. -/
theorem exists_listedAt_iff (h : d.Divides r m lists) (hdefines : d.DefinesAt p name) :
    ∃ e, e.step = .symbol name ∧ ∀ f, ListedAt lists p f ↔ f = e := by
  obtain ⟨s, hs, hstatement⟩ := hdefines
  obtain ⟨bySection, hbySection, hpieces⟩ := exists_getElem?_of_forall₂ h.statements.flip hs
  have hzip : s.statements.zipIdx[p.2]? = some (.symbol name, p.2) := by
    simp [List.getElem?_zipIdx, hstatement]
  obtain ⟨byStatement, hbyStatement, hsteps⟩ := exists_getElem?_of_forall₂ hpieces.flip hzip
  obtain ⟨e, rfl, hstep⟩ : ∃ e, byStatement = [e] ∧ e.step = .symbol name :=
    List.map_eq_singleton_iff.1 hsteps
  refine ⟨e, hstep, fun f => ?_⟩
  simp [ListedAt, hbySection, hbyStatement]

end Layout.Divides

/-- What listed extents place, listed as they are. -/
def placedLists (lists : List (List (List Extent))) : List (List (List Placed)) :=
  lists.map (·.map (·.filterMap (·.placed?)))

/-- What is placed for a position is placed by an extent there. -/
theorem exists_of_listedAt_placedLists {lists : List (List (List Extent))} {p : Nat × Nat}
    {placed : Placed} (h : ListedAt (placedLists lists) p placed) :
    ∃ e, ListedAt lists p e ∧ e.placed? = some placed := by
  obtain ⟨_, hbySection, _, hbyStatement, hmem⟩ := h
  rw [placedLists, List.getElem?_map, Option.map_eq_some_iff] at hbySection
  obtain ⟨bySection, hbySection, rfl⟩ := hbySection
  rw [List.getElem?_map, Option.map_eq_some_iff] at hbyStatement
  obtain ⟨byStatement, hbyStatement, rfl⟩ := hbyStatement
  obtain ⟨e, he, hplaced⟩ := List.mem_filterMap.1 hmem
  exact ⟨e, ⟨bySection, hbySection, byStatement, hbyStatement, he⟩, hplaced⟩

/-- A symbol covers nothing. -/
theorem Section.Mapped.stop_eq_start_of_symbol {r : Routing} {s : Section} {c : UInt64}
    {m : MappedSection} (h : s.Mapped r c m) {e : Extent} (he : e ∈ m.extents) {name : String}
    (hsymbol : e.step = .symbol name) : e.stop = e.start := by
  obtain ⟨step, -, c', next, hmove⟩ := h.swept.exists_move he
  obtain ⟨heq, rfl, hmoved⟩ := Step.moves_of_move? hmove
  obtain rfl : step = .symbol name := heq.symm.trans hsymbol
  exact hmoved.2.trans hmoved.1.symm

namespace Layout.Linked

variable {d : Layout} {inputs : List Input} {collect : Bool} {m : LinkMap}
  {lists : List (List (List Extent))} {p q : Nat × Nat} {name : String}

theorem exists_divides (h : d.Linked inputs collect m) :
    ∃ lists, d.Divides (d.routing collect inputs) m lists := by
  have hpieces : List.Forall₂ (fun s t => ∃ bySection,
      List.Forall₂ (fun (x : Statement × Nat) byStatement =>
        byStatement.map (·.step) = x.1.steps (d.routing collect inputs) ⟨s.name, x.2⟩)
          s.statements.zipIdx bySection ∧
        bySection.flatten = t.extents) d.loaded (m.segments.flatMap (·.sections)) := by
    refine h.loaded.imp fun s t ⟨_, hmapped⟩ => ?_
    obtain ⟨pieces, hflatten, hpieces⟩ := exists_pieces hmapped.map_step
    exact ⟨pieces, hpieces, hflatten⟩
  obtain ⟨lists, hstatements, hsections⟩ := exists_list_of_forall₂ hpieces
  exact ⟨lists, hstatements, hsections⟩

/-- A section that lies in a segment was placed with the cursor somewhere, and it is regular. -/
theorem exists_mapped (h : d.Linked inputs collect m) {t : MappedSection}
    (ht : t ∈ m.segments.flatMap (·.sections)) : ∃ (s : Section) (c : UInt64),
      s.Mapped (d.routing collect inputs) c t ∧ s.IsRegular (d.routing collect inputs) := by
  obtain ⟨s, hs, c, hmapped⟩ := exists_of_forall₂ h.loaded ht
  exact ⟨s, c, hmapped, h.isRegular.sections s (List.mem_append_left _ hs)⟩

/-- All extents of the segments lie one after the other. -/
theorem extents_ordered (h : d.Linked inputs collect m)
    (hlists : d.Divides (d.routing collect inputs) m lists) :
    lists.flatten.flatten.Pairwise fun e f => e.stop.toNat ≤ f.start.toNat := by
  have hall : ∀ {ts : List MappedSection} {lists : List (List (List Extent))},
      List.Forall₂ (fun t bySection => bySection.flatten = t.extents) ts lists →
        lists.flatten.flatten = ts.flatMap (·.extents) := by
    intro ts lists h
    induction h with
    | nil => rfl
    | cons hflatten _ ih => simp [hflatten, ih]
  obtain ⟨stop, horder⟩ := h.inOrder
  rw [hall hlists.sections, List.flatMap_assoc]
  refine (horder.flatMap fun g hg => ?_).2
  obtain ⟨s, hs, hfits⟩ := exists_of_forall₂ h.fits_segments hg
  refine hfits.inOrder.flatMap fun t ht => ?_
  obtain ⟨u, c, hmapped, hregular⟩ := h.exists_mapped (List.mem_flatMap.2 ⟨g, hg, ht⟩)
  exact hmapped.extents_ordered hregular

/-- The value of a symbol is where its extent starts and stops. -/
theorem exists_extent (h : d.Linked inputs collect m)
    (hlists : d.Divides (d.routing collect inputs) m lists) (hdefines : d.DefinesAt p name)
    (hne : name ≠ d.entry) : ∃ e, (∀ f, ListedAt lists p f ↔ f = e) ∧ e.step = .symbol name ∧
      e.stop = e.start ∧ m.symbols.get? name = some e.start := by
  obtain ⟨e, hstep, hiff⟩ := hlists.exists_listedAt_iff hdefines
  obtain ⟨t, ht, he⟩ := hlists.exists_section ((hiff e).2 rfl)
  have ht := List.mem_of_getElem? ht
  obtain ⟨s, c, hmapped, -⟩ := h.exists_mapped ht
  have hmem : (name, e.start) ∈ t.symbols :=
    List.mem_filterMap.2 ⟨e, he, by simp [Extent.symbol?, hstep]⟩
  exact ⟨e, hiff, hstep, hmapped.stop_eq_start_of_symbol he hstep,
    h.get?_of_mem_symbols ht hmem hne⟩

/-- At the position of a symbol that has a value, the only extent starts and stops there. -/
theorem listedAt_of_marksAt (h : d.Linked inputs collect m)
    (hlists : d.Divides (d.routing collect inputs) m lists) {value : UInt64}
    (hmarks : m.MarksAt d p value) : ∃ e, ListedAt lists p e ∧ e.start = value ∧ e.stop = value ∧
      ∀ f, ListedAt lists p f → f.placed? = none := by
  obtain ⟨name, hdefines, hne, hvalue⟩ := hmarks
  obtain ⟨e, hiff, hstep, hstop, hget⟩ := h.exists_extent hlists hdefines hne
  obtain rfl : e.start = value := Option.some.inj (hget.symm.trans hvalue)
  refine ⟨e, (hiff e).2 rfl, rfl, hstop, fun f hf => ?_⟩
  rw [(hiff f).1 hf]
  simp [Extent.placed?, hstep]

/-- What is placed for a position covers an extent there. -/
theorem exists_extent_of_placed (h : d.Linked inputs collect m)
    (hlists : d.Divides (d.routing collect inputs) m lists) {placed : Placed}
    (hplaced : ListedAt (placedLists lists) p placed) :
    ∃ e, ListedAt lists p e ∧ e.placed? = some placed ∧
      placed.address = e.start ∧ placed.stop = e.stop.toNat := by
  obtain ⟨e, hlisted, hplaced⟩ := exists_of_listedAt_placedLists hplaced
  obtain ⟨t, ht, he⟩ := hlists.exists_section hlisted
  obtain ⟨s, c, hmapped, hregular⟩ := h.exists_mapped (List.mem_of_getElem? ht)
  exact ⟨e, hlisted, hplaced, hmapped.bounds_of_placed? hregular he hplaced⟩

/-! ### Symbols and what is placed -/

/-- What the extents place is grouped as they are. -/
theorem grouped (hlists : d.Divides (d.routing collect inputs) m lists) :
    m.Grouped d (d.routing collect inputs) (placedLists lists) where
  sections := by
    rw [placedLists, List.forall₂_map_right_iff]
    refine hlists.sections.imp fun t bySection hflatten => ?_
    rw [MappedSection.placed, ← hflatten, List.filterMap_flatten]
  statements := by
    rw [placedLists, List.forall₂_map_right_iff]
    refine hlists.statements.imp fun s bySection hpieces => ?_
    rw [List.forall₂_map_right_iff]
    refine hpieces.imp fun x byStatement hsteps => ?_
    rw [map_label_filterMap_placed?, hsteps]

variable {value : UInt64} {placed : Placed}

theorem stop_le_of_precedes (h : d.Linked inputs collect m)
    (hlists : d.Divides (d.routing collect inputs) m lists) (hmarks : m.MarksAt d q value)
    (hpq : Precedes p q) (hplaced : ListedAt (placedLists lists) p placed) :
    placed.stop ≤ value.toNat := by
  obtain ⟨e, he, -, -, hstop⟩ := h.exists_extent_of_placed hlists hplaced
  obtain ⟨f, hf, rfl, -⟩ := h.listedAt_of_marksAt hlists hmarks
  rw [hstop]
  exact ListedAt.related (h.extents_ordered hlists) hpq he hf

theorem le_address_of_precedes (h : d.Linked inputs collect m)
    (hlists : d.Divides (d.routing collect inputs) m lists) (hmarks : m.MarksAt d p value)
    (hpq : Precedes p q) (hplaced : ListedAt (placedLists lists) q placed) :
    value.toNat ≤ placed.address.toNat := by
  obtain ⟨e, he, -, hstart, -⟩ := h.exists_extent_of_placed hlists hplaced
  obtain ⟨f, hf, -, rfl, -⟩ := h.listedAt_of_marksAt hlists hmarks
  rw [hstart]
  exact ListedAt.related (h.extents_ordered hlists) hpq hf he

/-- At the position of a symbol nothing is placed. -/
theorem ne_of_placed (h : d.Linked inputs collect m)
    (hlists : d.Divides (d.routing collect inputs) m lists) (hmarks : m.MarksAt d p value)
    (hplaced : ListedAt (placedLists lists) q placed) : q ≠ p := by
  rintro rfl
  obtain ⟨e, he, hplaced⟩ := exists_of_listedAt_placedLists hplaced
  obtain ⟨-, -, -, -, hnone⟩ := h.listedAt_of_marksAt hlists hmarks
  rw [hnone e he] at hplaced
  cases hplaced

/-- A symbol lies in its section. -/
theorem exists_section_of_definesAt (h : d.Linked inputs collect m)
    (hlists : d.Divides (d.routing collect inputs) m lists) (hdefines : d.DefinesAt p name)
    (hne : name ≠ d.entry) : ∃ value t, m.symbols.get? name = some value ∧
      (m.segments.flatMap (·.sections))[p.1]? = some t ∧
      t.address.toNat ≤ value.toNat ∧ value.toNat ≤ t.address.toNat + t.size.toNat := by
  obtain ⟨e, hiff, -, hstop, hget⟩ := h.exists_extent hlists hdefines hne
  obtain ⟨t, ht, he⟩ := hlists.exists_section ((hiff e).2 rfl)
  obtain ⟨s, c, hmapped, hregular⟩ := h.exists_mapped (List.mem_of_getElem? ht)
  obtain ⟨hlow, hhigh⟩ := (hmapped.extents_ordered hregular).1 e he
  refine ⟨e.start, t, hget, ht, hlow, ?_⟩
  rw [(hmapped.fits hregular).extent, ← hstop]
  exact hhigh

theorem brackets (h : d.Linked inputs collect m)
    (hlists : d.Divides (d.routing collect inputs) m lists) :
    m.Brackets d (placedLists lists) where
  defined _ := h.isSome_get?_iff
  within _ _ hdefines hne := h.exists_section_of_definesAt hlists hdefines hne
  below _ _ _ hmarks hpq _ hplaced := h.stop_le_of_precedes hlists hmarks hpq hplaced
  above _ _ _ hmarks hpq _ hplaced := h.le_address_of_precedes hlists hmarks hpq hplaced
  monotone := by
    intro p q first last hfirst hlast hpq
    obtain ⟨e, he, -, rfl, -⟩ := h.listedAt_of_marksAt hlists hfirst
    obtain ⟨f, hf, rfl, -⟩ := h.listedAt_of_marksAt hlists hlast
    exact UInt64.le_iff_toNat_le.2 (ListedAt.related (h.extents_ordered hlists) hpq he hf)
  between := by
    intro k i j first last hfirst hlast hij p placed hplaced
    have hi := h.ne_of_placed hlists hfirst hplaced
    have hj := h.ne_of_placed hlists hlast hplaced
    split
    · next hbetween =>
      obtain ⟨hk, hip, hpj⟩ := hbetween
      exact ⟨h.le_address_of_precedes hlists hfirst (.inr ⟨hk.symm, hip⟩) hplaced,
        h.stop_le_of_precedes hlists hlast (.inr ⟨hk, hpj⟩) hplaced⟩
    · next houtside =>
      rcases precedes_trichotomy p (k, i) with hp | hp | hp
      · exact .inl (h.stop_le_of_precedes hlists hfirst hp hplaced)
      · exact absurd hp hi
      · rcases precedes_trichotomy p (k, j) with hq | hq | hq
        · simp only [Precedes] at hp hq
          omega
        · exact absurd hq hj
        · exact .inr (h.le_address_of_precedes hlists hlast hq hplaced)

end Layout.Linked

/-- The symbols of every link map bracket what it places in segments, divided by the statements that
    placed it. -/
theorem Layout.brackets_of_link {d : Layout} {inputs : List Input} {collect : Bool} {m : LinkMap}
    (h : d.link inputs collect = .ok m) :
    ∃ groups, m.Grouped d (d.routing collect inputs) groups ∧ m.Brackets d groups := by
  have hlinked := linked_of_link h
  obtain ⟨lists, hlists⟩ := hlinked.exists_divides
  exact ⟨_, Linked.grouped hlists, hlinked.brackets hlists⟩

/-- Two hooks lie between the bounds of their list, and the zeroed data behind them does not. -/
theorem Layout.brackets_of_link_hooks :
    let inputs : List Input := [⟨".crt0", 0x40, 4, true⟩, ⟨".init_array", 4, 4, true⟩,
      ⟨".init_array.100", 8, 4, true⟩, ⟨".bss.buffer", 0x20, 8, true⟩]
    ∃ m, Standard.layout.link inputs true = .ok m ∧
      m.symbols.get? "__init_array_start" = some 0x101000 ∧
      m.symbols.get? "__init_array_end" = some 0x10100c ∧
      ∃ groups, m.Grouped Standard.layout (Standard.layout.routing true inputs) groups ∧
        m.Brackets Standard.layout groups := by
  intro inputs
  obtain ⟨m, hm⟩ := exists_of_isOk (e := Standard.layout.link inputs true) (by decide +kernel)
  have hvalues : (Standard.layout.link inputs true).toOption.map (fun m =>
      (m.symbols.get? "__init_array_start", m.symbols.get? "__init_array_end")) =
        some (some 0x101000, some 0x10100c) := by
    decide +kernel
  rw [hm] at hvalues
  simp only [Except.toOption, Option.map_some, Option.some.injEq, Prod.mk.injEq] at hvalues
  exact ⟨m, hm, hvalues.1, hvalues.2, brackets_of_link hm⟩

end BootImage
