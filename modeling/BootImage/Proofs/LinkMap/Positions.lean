import BootImage.Proofs.LinkMap.Geometry
import Mathlib.Algebra.Ring.Nat

/-! Positions inside a section.

    A section can be cut at any of its statements: what stands before takes the cursor from the
    start of the section to the statement, and what stands after takes it on to the end. A symbol
    has the position of its cut. Statements that take no space leave the cursor where it is, so a
    symbol that only such statements come before lies at the start, and one that only such come
    after lies at the end. Inputs of whole units that are aligned no higher lie side by side.

        |-- before --|-- statement --|-- after --|
        address    first           last       stop -/

namespace BootImage

open Word Cursor

/-! ### Cutting a section -/

namespace Section.Mapped

variable {r : Routing} {s : Section} {c : UInt64} {m : MappedSection} {k : Nat}

/-- The sweep of a section is the sweep up to a statement, that of the statement, and the rest. -/
theorem cut (h : s.Mapped r c m) {statement : Statement}
    (hk : s.statements[k]? = some statement) :
    ∃ first last as bs cs, m.extents = as ++ (bs ++ cs) ∧
      Swept Step.move? (Statement.stepsFrom r s.name 0 (s.statements.take k)) m.address as first ∧
      Swept Step.move? (statement.steps r ⟨s.name, k⟩) first bs last ∧
      Swept Step.move? (Statement.stepsFrom r s.name (k + 1) (s.statements.drop (k + 1))) last cs
        m.stop := by
  have hswept := h.swept
  rw [s.steps_of_getElem? r hk] at hswept
  obtain ⟨first, as, rest, heq, hbefore, hrest⟩ := hswept.of_append
  obtain ⟨last, bs, cs, rfl, hstatement, hafter⟩ := hrest.of_append
  exact ⟨first, last, as, bs, cs, heq, hbefore, hstatement, hafter⟩

/-- A symbol has the position at which its section is cut. -/
theorem cut_symbol (h : s.Mapped r c m) {name : String}
    (hk : s.statements[k]? = some (.symbol name)) :
    ∃ value as cs, (name, value) ∈ m.symbols ∧
      Swept Step.move? (Statement.stepsFrom r s.name 0 (s.statements.take k)) m.address as value ∧
      Swept Step.move? (Statement.stepsFrom r s.name (k + 1) (s.statements.drop (k + 1))) value cs
        m.stop := by
  obtain ⟨first, last, as, bs, cs, heq, hbefore, hsymbol, hafter⟩ := h.cut hk
  obtain ⟨e, rfl, hmove⟩ := hsymbol.exists_of_singleton
  obtain ⟨hstep, -, hstart, rfl⟩ := Step.moves_of_move? hmove
  have hmem : e ∈ m.extents := heq ▸ List.mem_append_right _ List.mem_cons_self
  have hvalue : e.symbol? = some (name, last) := by simp [Extent.symbol?, hstep, hstart]
  exact ⟨last, as, cs, List.mem_filterMap.2 ⟨e, hmem, hvalue⟩, hbefore, hafter⟩

end Section.Mapped

/-! ### Statements that take no space -/

/-- The statement leaves the cursor where it is, wherever that is. -/
def Statement.isIdle : Statement → Bool
  | .symbol _ => true
  | .reserve n => n == 0
  | _ => false

theorem Statement.eq_of_isIdle {statement : Statement} (hidle : statement.isIdle = true)
    {step : Step} (hgives : statement.Gives step) {c next : UInt64} {e : Extent}
    (h : step.move? c = some (e, next)) : next = c := by
  obtain ⟨-, -, hmove⟩ := Step.moves_of_move? h
  cases statement with
  | symbol name =>
    cases hgives
    exact hmove.2
  | reserve n =>
    cases hgives
    have hsum := (toNat_of_advance? hmove.2).1
    rw [show n = 0 by simpa [isIdle] using hidle] at hsum
    exact UInt64.toNat_inj.1 hsum
  | align a => cases hidle
  | input rule => cases hidle

theorem Statement.eq_of_idle {r : Routing} {name : String} {position : Nat}
    {statements : List Statement} {c stop : UInt64} {es : List Extent}
    (hidle : ∀ statement ∈ statements, statement.isIdle = true)
    (h : Swept Step.move? (stepsFrom r name position statements) c es stop) : stop = c := by
  refine h.preserves (P := (· = c)) (fun step hstep c' e next hc hmove => ?_) rfl
  obtain ⟨statement, hmem, hgives⟩ := exists_of_mem_stepsFrom r hstep
  exact (eq_of_isIdle (hidle statement hmem) hgives hmove).trans hc

namespace Section.Mapped

variable {r : Routing} {s : Section} {c : UInt64} {m : MappedSection} {name : String} {k : Nat}

/-- A symbol that only idle statements come before lies at the start of the section. -/
theorem symbol_at_address (h : s.Mapped r c m)
    (hk : s.statements[k]? = some (.symbol name))
    (hidle : ∀ statement ∈ s.statements.take k, statement.isIdle = true) :
    (name, m.address) ∈ m.symbols := by
  obtain ⟨value, as, cs, hmem, hbefore, -⟩ := h.cut_symbol hk
  rwa [Statement.eq_of_idle hidle hbefore] at hmem

/-- A symbol that only idle statements come after lies at the end of the section. -/
theorem symbol_at_stop (h : s.Mapped r c m)
    (hk : s.statements[k]? = some (.symbol name))
    (hidle : ∀ statement ∈ s.statements.drop (k + 1), statement.isIdle = true) :
    (name, m.stop) ∈ m.symbols := by
  obtain ⟨value, as, cs, hmem, -, hafter⟩ := h.cut_symbol hk
  rwa [Statement.eq_of_idle hidle hafter]

/-- A section that aligns at its end, but for idle statements, ends aligned. -/
theorem dvd_stop_of_align (h : s.Mapped r c m) {a : UInt64} (ha : isPowerOfTwo a = true)
    (hk : s.statements[k]? = some (.align a))
    (hidle : ∀ statement ∈ s.statements.drop (k + 1), statement.isIdle = true) :
    a.toNat ∣ m.stop.toNat := by
  obtain ⟨first, last, as, bs, cs, -, -, halign, hafter⟩ := h.cut hk
  rw [Statement.eq_of_idle hidle hafter]
  obtain ⟨e, -, hmove⟩ := halign.exists_of_singleton
  obtain ⟨-, -, -, hnext⟩ := Step.moves_of_move? hmove
  exact dvd_of_align? ha hnext

end Section.Mapped

/-! ### Steps without gaps -/

/-- Taken at this location, the step leaves no gap. -/
def Step.Abuts (c : UInt64) : Step → Prop
  | .symbol _ => True
  | .align a => a.toNat ∣ c.toNat
  | .reserve n => n = 0
  | .place i => i.align.toNat ∣ c.toNat

/-- A step that leaves no gap starts at the cursor, and goes on by the size of what it places. -/
theorem Step.start_of_abuts {step : Step} (hr : step.IsRegular) {c next : UInt64} {e : Extent}
    (habuts : step.Abuts c) (h : step.move? c = some (e, next)) :
    e.start = c ∧ next.toNat = c.toNat + (step.input?.elim 0 (·.size)).toNat := by
  obtain ⟨-, -, hmoved⟩ := moves_of_move? h
  cases step with
  | symbol name => exact ⟨hmoved.1, by simp [hmoved.2, Step.input?]⟩
  | align a => exact ⟨hmoved.1, by simp [eq_of_align? hr hmoved.2 habuts, Step.input?]⟩
  | reserve n =>
    have hzero : n = 0 := habuts
    exact ⟨hmoved.1, by rw [(toNat_of_advance? hmoved.2).1, hzero]; rfl⟩
  | place i =>
    have hstart := eq_of_align? hr hmoved.1 habuts
    exact ⟨hstart, by rw [(toNat_of_advance? hmoved.2).1, hstart]; rfl⟩

/-! ### The first input of a section -/

/-- From a location that `align` divides the statement leaves no gap, but for its inputs. -/
def Statement.isSeamless (align : UInt64) : Statement → Bool
  | .align a => a ≤ align
  | .reserve n => n == 0
  | _ => true

/-- Where every step starts at the cursor, and only a placed input moves it, the first input that is
    placed starts there. -/
theorem Step.head?_placed_of_swept {c : UInt64} : ∀ {steps : List Step} {es : List Extent}
    {stop : UInt64}, (∀ step ∈ steps, ∀ e next, step.move? c = some (e, next) →
      e.start = c ∧ (step.input? = none → next = c)) → Swept Step.move? steps c es stop →
      ∀ p ∈ (es.filterMap (·.placed?)).head?, p.address = c
  | [], _, _, _, .nil _ => by simp
  | step :: steps, _, _, hstart, .cons (b := e) head tail => by
    obtain ⟨hstep, -, -⟩ := Step.moves_of_move? head
    obtain ⟨hc, hnext⟩ := hstart step List.mem_cons_self _ _ head
    cases step with
    | place i =>
      intro p hp
      have hplaced : e.placed? = some ⟨i.name, e.start, i.size⟩ := by
        simp only [Extent.placed?, hstep]
      rw [List.filterMap_cons_some hplaced, List.head?_cons, Option.mem_some_iff] at hp
      rw [← hp]
      exact hc
    | _ =>
      -- nothing is placed yet, and the cursor is still at `c`
      have hplaced : e.placed? = none := by simp only [Extent.placed?, hstep]
      rw [List.filterMap_cons_none hplaced]
      rw [hnext rfl] at tail
      exact head?_placed_of_swept (fun t ht => hstart t (List.mem_cons_of_mem _ ht)) tail

namespace Section.Mapped

variable {r : Routing} {s : Section} {c : UInt64} {m : MappedSection}

/-- In a section without gaps of its own, no step leaves a gap at the start of the section. -/
theorem abuts_address (h : s.Mapped r c m) (hr : s.IsRegular r)
    (hseamless : ∀ statement ∈ s.statements, statement.isSeamless s.align = true) {step : Step}
    (hstep : step ∈ s.steps r) : step.Abuts m.address := by
  have hfits := h.fits hr
  have hregular := hr.steps step hstep
  obtain ⟨statement, hstatement, hgives⟩ := Statement.exists_of_mem_stepsFrom r hstep
  have hgapless := hseamless statement hstatement
  cases statement with
  | symbol name =>
    cases hgives
    trivial
  | align a =>
    cases hgives
    have hle : a ≤ s.align := by simpa [Statement.isSeamless] using hgapless
    exact Nat.dvd_trans (dvd_of_le hregular hr.align hle) hfits.aligned
  | reserve n =>
    cases hgives
    exact eq_of_beq hgapless
  | input rule =>
    obtain ⟨i, rfl⟩ := hgives
    exact hfits.aligned_inputs i (h.inputs_eq ▸ List.mem_filterMap.2 ⟨_, hstep, rfl⟩)

/-- There it starts at once, and goes on by the size of what it places. -/
theorem start_of_move? (h : s.Mapped r c m) (hr : s.IsRegular r)
    (hseamless : ∀ statement ∈ s.statements, statement.isSeamless s.align = true) {step : Step}
    (hstep : step ∈ s.steps r) {e : Extent} {next : UInt64}
    (hmove : step.move? m.address = some (e, next)) :
    e.start = m.address ∧
      next.toNat = m.address.toNat + (step.input?.elim 0 (·.size)).toNat :=
  Step.start_of_abuts (hr.steps step hstep) (h.abuts_address hr hseamless hstep) hmove

/-- A section without gaps of its own starts with its first input. -/
theorem address_of_head?_placed (h : s.Mapped r c m) (hr : s.IsRegular r)
    (hseamless : ∀ statement ∈ s.statements, statement.isSeamless s.align = true) :
    ∀ p ∈ m.placed.head?, p.address = m.address := by
  refine Step.head?_placed_of_swept (fun step hstep e next hmove => ?_) h.swept
  obtain ⟨hstart, hnext⟩ := h.start_of_move? hr hseamless hstep hmove
  refine ⟨hstart, fun hinput => UInt64.toNat_inj.1 ?_⟩
  rw [hnext, hinput]
  rfl

/-- A section without gaps of its own that places nothing with a size is empty. -/
theorem stop_eq_of_sizes (h : s.Mapped r c m) (hr : s.IsRegular r)
    (hseamless : ∀ statement ∈ s.statements, statement.isSeamless s.align = true)
    (hzero : ∀ i ∈ m.inputs, i.size = 0) : m.stop = m.address := by
  refine h.swept.preserves (P := (· = m.address)) (fun step hstep c' e next hc hmove => ?_) rfl
  subst hc
  obtain ⟨-, hnext⟩ := h.start_of_move? hr hseamless hstep hmove
  refine UInt64.toNat_inj.1 (hnext.trans ?_)
  cases hinput : step.input? with
  | none => rfl
  | some i =>
    have hi : i ∈ m.inputs := h.inputs_eq ▸ List.mem_filterMap.2 ⟨step, hstep, hinput⟩
    rw [Option.elim_some, hzero i hi]
    rfl

/-- A section takes memory if one of its inputs does. -/
theorem address_lt_stop (h : s.Mapped r c m) (hr : s.IsRegular r) {i : Input} (hi : i ∈ m.inputs)
    (hpos : 0 < i.size) : m.address < m.stop := by
  have hfits := h.fits hr
  obtain ⟨p, hp, -, hsize, -⟩ := exists_of_forall₂ hfits.placed.flip hi
  obtain ⟨hlow, hhigh⟩ := hfits.within p hp
  rw [← hsize, UInt64.lt_iff_toNat_lt, UInt64.toNat_zero] at hpos
  rw [UInt64.lt_iff_toNat_lt]
  unfold Placed.stop at hhigh
  omega

/-- A section without gaps of its own takes memory only if one of its inputs does. -/
theorem address_lt_stop_iff (h : s.Mapped r c m) (hr : s.IsRegular r)
    (hseamless : ∀ statement ∈ s.statements, statement.isSeamless s.align = true) :
    m.address < m.stop ↔ ∃ i ∈ m.inputs, 0 < i.size := by
  refine ⟨fun hlt => ?_, fun ⟨i, hi, hpos⟩ => h.address_lt_stop hr hi hpos⟩
  by_contra hnone
  have hzero : ∀ i ∈ m.inputs, i.size = 0 := by
    intro i hi
    by_contra hne
    exact hnone ⟨i, hi, UInt64.pos_iff_ne_zero.2 hne⟩
  exact UInt64.lt_irrefl _ (h.stop_eq_of_sizes hr hseamless hzero ▸ hlt)

/-- A section that is placed at a power of two starts there, unless an input asks for more. -/
theorem address_eq_iff (h : s.Mapped r c m) (hr : s.IsRegular r) (hc : isPowerOfTwo c = true)
    (halign : s.align ≤ c) : m.address = c ↔ ∀ i ∈ m.inputs, i.align ≤ c := by
  constructor
  · intro haddress i hi
    have hdvd := (h.fits hr).aligned_inputs i hi
    rw [haddress] at hdvd
    exact UInt64.le_iff_toNat_le.2 (Nat.le_of_dvd (pos_of_isPowerOfTwo hc) hdvd)
  · intro hall
    have hpow := (Section.dvd_startAlign hr).1
    have hle : s.startAlign (s.steps r) ≤ c := by
      rcases List.mem_cons.1 (foldl_max_mem _ _) with hown | hinput
      · exact UInt64.le_trans (UInt64.le_of_eq hown) halign
      · obtain ⟨i, hi, heq⟩ := List.mem_map.1 hinput
        exact UInt64.le_trans (UInt64.le_of_eq heq.symm) (hall i (h.inputs_eq ▸ hi))
    exact eq_of_align? hpow h.aligned (dvd_of_le hpow hc hle)

/-- Where all sizes are multiples of a power of two, so is the end. -/
theorem dvd_stop_of_sizes (h : s.Mapped r c m) (hr : s.IsRegular r) {a : UInt64}
    (ha : isPowerOfTwo a = true) (halign : a.toNat ∣ s.align.toNat)
    (hreserve : ∀ n, .reserve n ∈ s.statements → a.toNat ∣ n.toNat)
    (hsizes : ∀ i ∈ m.inputs, a.toNat ∣ i.size.toNat) : a.toNat ∣ m.stop.toNat := by
  refine h.swept.preserves (P := (a.toNat ∣ ·.toNat)) (fun step hstep c' e next hc hmove => ?_)
    (Nat.dvd_trans halign (h.fits hr).aligned)
  have hregular := hr.steps step hstep
  obtain ⟨-, -, hmoved⟩ := Step.moves_of_move? hmove
  obtain ⟨statement, hstatement, hgives⟩ := Statement.exists_of_mem_stepsFrom r hstep
  cases statement with
  | symbol name =>
    cases hgives
    exact hmoved.2 ▸ hc
  | align b =>
    cases hgives
    exact dvd_of_align?_of_dvd ha hregular hmoved.2 hc
  | reserve n =>
    cases hgives
    rw [(toNat_of_advance? hmoved.2).1]
    exact Nat.dvd_add hc (hreserve n hstatement)
  | input rule =>
    obtain ⟨i, rfl⟩ := hgives
    have hi : i ∈ m.inputs := h.inputs_eq ▸ List.mem_filterMap.2 ⟨_, hstep, rfl⟩
    rw [(toNat_of_advance? hmoved.2).1]
    exact Nat.dvd_add (dvd_of_align?_of_dvd ha hregular hmoved.1 hc) (hsizes i hi)

end Section.Mapped

/-! ### Inputs without gaps -/

/-- Nothing lies between the placed inputs: the first starts at `first`, every other where the one
    before stops, and the last stops at `last`. -/
def Contiguous : Nat → List Placed → Nat → Prop
  | first, [], last => first = last
  | first, p :: rest, last => p.address.toNat = first ∧ Contiguous p.stop rest last

namespace Contiguous

/-- Each input starts behind the sizes of those before it. -/
theorem address_eq : ∀ {placed : List Placed} {first last : Nat}, Contiguous first placed last →
    ∀ {k : Nat} {p : Placed}, placed[k]? = some p →
      p.address.toNat = first + ((placed.take k).map (·.size.toNat)).sum
  | q :: rest, first, last, ⟨hstart, hrest⟩, 0, p, hk => by
    obtain rfl : q = p := by simpa using hk
    simpa using hstart
  | q :: rest, first, last, ⟨hstart, hrest⟩, k + 1, p, hk => by
    rw [hrest.address_eq (by simpa using hk), Placed.stop, hstart, List.take_succ_cons,
      List.map_cons, List.sum_cons, Nat.add_assoc]

/-- All of them together take the sum of their sizes. -/
theorem last_eq : ∀ {placed : List Placed} {first last : Nat}, Contiguous first placed last →
    last = first + (placed.map (·.size.toNat)).sum
  | [], first, last, h => by simpa using h.symm
  | q :: rest, first, last, ⟨hstart, hrest⟩ => by
    rw [hrest.last_eq, Placed.stop, hstart, List.map_cons, List.sum_cons, Nat.add_assoc]

end Contiguous

/-- The step places whole units that are aligned no higher, and leaves no gap between them. -/
def Step.IsPacked (unit : UInt64) : Step → Prop
  | .symbol _ => True
  | .align a => a.toNat ∣ unit.toNat
  | .reserve n => n = 0
  | .place i => i.align.toNat ∣ unit.toNat ∧ unit.toNat ∣ i.size.toNat

/-- From a multiple of the unit such a step leaves no gap, and goes on to another multiple. -/
theorem Step.next_of_isPacked {step : Step} {unit c next : UInt64} {e : Extent}
    (hr : step.IsRegular) (hpacked : step.IsPacked unit) (hc : unit.toNat ∣ c.toNat)
    (h : step.move? c = some (e, next)) :
    e.start = c ∧ next.toNat = c.toNat + (step.input?.elim 0 (·.size)).toNat ∧
      unit.toNat ∣ next.toNat := by
  have habuts : step.Abuts c := by
    cases step with
    | symbol name => trivial
    | align a => exact Nat.dvd_trans hpacked hc
    | reserve n => exact hpacked
    | place i => exact Nat.dvd_trans hpacked.1 hc
  obtain ⟨hstart, hnext⟩ := start_of_abuts hr habuts h
  refine ⟨hstart, hnext, hnext ▸ Nat.dvd_add hc ?_⟩
  cases step with
  | place i => exact hpacked.2
  | _ => exact Nat.dvd_zero _

/-- A run of such steps places its inputs without gaps, from where it starts to where it stops. -/
theorem Step.contiguous_of_swept {unit c stop : UInt64} {steps : List Step} {es : List Extent}
    (hr : ∀ step ∈ steps, step.IsRegular) (hpacked : ∀ step ∈ steps, step.IsPacked unit)
    (hc : unit.toNat ∣ c.toNat) (h : Swept Step.move? steps c es stop) :
    Contiguous c.toNat (es.filterMap (·.placed?)) stop.toNat := by
  induction h with
  | nil c => rfl
  | @cons step steps e es c next stop head tail ih =>
    rw [List.forall_mem_cons] at hr hpacked
    obtain ⟨hstart, hnext, hdvd⟩ := next_of_isPacked hr.1 hpacked.1 hc head
    have hcontiguous := ih hr.2 hpacked.2 hdvd
    obtain ⟨rfl, -, -⟩ := moves_of_move? head
    cases hstep : e.step with
    | place i =>
      have hplaced : e.placed? = some ⟨i.name, e.start, i.size⟩ := by simp [Extent.placed?, hstep]
      rw [List.filterMap_cons_some hplaced]
      refine ⟨congrArg _ hstart, ?_⟩
      rwa [hnext, hstep, ← hstart] at hcontiguous
    | _ =>
      have hplaced : e.placed? = none := by simp [Extent.placed?, hstep]
      rw [List.filterMap_cons_none hplaced]
      rwa [hnext, hstep] at hcontiguous

end BootImage
