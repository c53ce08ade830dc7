import BootImage.Proofs.LinkMap.Geometry

/-! Link maps over natural numbers.

    Linking computes with words, and stops where a location passes the limit. The same walk over
    natural numbers always gives a map, with exact locations however large they are. Both agree: the
    checked walk gives the exact map where every location of that lies within the limit, and gives
    up where one does not. The main statement is `Layout.agrees_map?`.

        exact      c ── align ──> 0xfffff800 ── place ──> 0x100000800 ── symbol ──> 0x100000800
        checked    c ── align ──> 0xfffff800 ── place ──> none                limit 0x100000000

    A location that is kept so far lies far below the end of the word, so no alignment wraps on the
    way to the limit. -/

namespace BootImage

open Word Cursor

/-! ### The exact walk -/

/-- A step with the exact locations that it covers. -/
structure ExactExtent where
  step : Step
  start : Nat
  stop : Nat

/-- Where a section goes, exactly. -/
structure ExactSection where
  name : String
  contents : Contents
  address : Nat
  stop : Nat
  extents : List ExactExtent

/-- Where a segment goes, exactly. -/
structure ExactSegment where
  name : String
  permissions : Permissions
  address : Nat
  stop : Nat
  sections : List ExactSection

/-- Where everything goes, exactly, from the load address on. -/
structure ExactMap where
  loadAddress : Nat
  segments : List ExactSegment
  unloaded : List ExactSection

/-- Takes the elements in order, each from where the one before ended. -/
def walk {α γ : Type} (move : α → Nat → γ × Nat) : List α → Nat → List γ × Nat
  | [], n => ([], n)
  | a :: rest, n =>
    let moved := move a n
    let walked := walk move rest moved.2
    (moved.1 :: walked.1, walked.2)

/-- Takes one step. -/
def Step.walk (step : Step) (n : Nat) : ExactExtent × Nat :=
  match step with
  | .symbol _ => (⟨step, n, n⟩, n)
  | .align a =>
    let stop := roundUp n a.toNat
    (⟨step, n, stop⟩, stop)
  | .reserve size =>
    let stop := n + size.toNat
    (⟨step, n, stop⟩, stop)
  | .place i =>
    let start := roundUp n i.align.toNat
    let stop := start + i.size.toNat
    (⟨step, start, stop⟩, stop)

/-- Places a section. -/
def Section.walk (r : Routing) (s : Section) (n : Nat) : ExactSection × Nat :=
  let steps := s.steps r
  let address := roundUp n (s.startAlign steps).toNat
  let walked := BootImage.walk Step.walk steps address
  (⟨s.name, s.contents, address, walked.2, walked.1⟩, walked.2)

/-- Places a segment on the next page. -/
def Segment.walk (r : Routing) (pageSize : UInt64) (s : Segment) (n : Nat) : ExactSegment × Nat :=
  let address := roundUp n pageSize.toNat
  let walked := BootImage.walk (Section.walk r) s.sections address
  (⟨s.name, s.permissions, address, walked.2, walked.1⟩, walked.2)

/-- Places the routed inputs, from the load address on, and every unloaded section from zero. -/
def Layout.exactMap (d : Layout) (r : Routing) : ExactMap where
  loadAddress := d.loadAddress.toNat
  segments := (BootImage.walk (Segment.walk r d.pageSize) d.segments d.loadAddress.toNat).1
  unloaded := d.unloaded.map fun s => (s.walk r 0).1

/-! ### The locations of an exact map -/

def ExactExtent.locations (e : ExactExtent) : List Nat := [e.start, e.stop]

def ExactSection.locations (s : ExactSection) : List Nat :=
  s.address :: s.stop :: s.extents.flatMap (·.locations)

def ExactSegment.locations (s : ExactSegment) : List Nat :=
  s.address :: s.stop :: s.sections.flatMap (·.locations)

/-- All locations that are reached, loaded and unloaded. -/
def ExactMap.locations (m : ExactMap) : List Nat :=
  m.loadAddress :: (m.segments.flatMap (·.locations) ++ m.unloaded.flatMap (·.locations))

/-! ### What the checked walk gives, in natural numbers -/

def Extent.exact (e : Extent) : ExactExtent := ⟨e.step, e.start.toNat, e.stop.toNat⟩

def MappedSection.exact (s : MappedSection) : ExactSection :=
  ⟨s.name, s.contents, s.address.toNat, s.stop.toNat, s.extents.map (·.exact)⟩

def MappedSegment.exact (s : MappedSegment) : ExactSegment :=
  ⟨s.name, s.permissions, s.address.toNat, s.stop.toNat, s.sections.map (·.exact)⟩

/-! ### Agreement -/

/-- A checked answer against the exact one: it is the same where all locations lie within the limit,
    and none where one does not. -/
def Agrees {β γ : Type} (exact : β → γ) (locations : γ → List Nat) : Option β → γ → Prop
  | some b, g => exact b = g ∧ ∀ l ∈ locations g, l ≤ addressLimit.toNat
  | none, g => ∃ l ∈ locations g, addressLimit.toNat < l

section

variable {α β γ : Type} {exact : β → γ} {locations : γ → List Nat}

/-- Answers agree if the parts that come first do, and what follows on them does. -/
theorem Agrees.bind {β' γ' : Type} {exact' : β' → γ'} {locations' : γ' → List Nat} {o : Option β}
    {g : γ} {f : β → Option β'} {g' : γ'} (h : Agrees exact locations o g)
    (hpart : ∀ l ∈ locations g, l ∈ locations' g')
    (hf : ∀ b, exact b = g → (∀ l ∈ locations g, l ≤ addressLimit.toNat) →
      Agrees exact' locations' (f b) g') :
    Agrees exact' locations' (o.bind f) g' := by
  cases o with
  | none =>
    obtain ⟨l, hl, hlt⟩ := h
    exact ⟨l, hpart l hl, hlt⟩
  | some b => exact hf b h.1 h.2

/-- A single location agrees if it is exact within the limit, and fails only past it. -/
theorem agrees_location {o : Option UInt64} {n : Nat}
    (hexact : ∀ r, o = some r → r.toNat = n ∧ r ≤ addressLimit)
    (hcases : (∃ r, o = some r) ∨ (o = none ∧ addressLimit.toNat < n)) :
    Agrees UInt64.toNat ([·]) o n := by
  rcases hcases with ⟨r, rfl⟩ | ⟨rfl, hlt⟩
  · obtain ⟨rfl, hlimit⟩ := hexact r rfl
    refine ⟨rfl, fun l hl => ?_⟩
    rw [List.mem_singleton.1 hl]
    exact UInt64.le_iff_toNat_le.1 hlimit
  · exact ⟨n, List.mem_singleton_self n, hlt⟩

/-- An alignment agrees with rounding up. -/
theorem agrees_align? {c a : UInt64} (ha : isPowerOfTwo a = true)
    (hc : c.toNat ≤ addressLimit.toNat) :
    Agrees UInt64.toNat ([·]) (align? c a) (roundUp c.toNat a.toNat) :=
  agrees_location (fun _ => toNat_of_align? ha) (align?_cases ha (UInt64.le_iff_toNat_le.2 hc))

/-- A size agrees with the sum. -/
theorem agrees_advance? (c n : UInt64) :
    Agrees UInt64.toNat ([·]) (advance? c n) (c.toNat + n.toNat) :=
  agrees_location (fun _ => toNat_of_advance?) (advance?_cases c n)

/-- A checked move agrees with an exact one, also about where it ends. -/
def MoveAgrees (exact : β → γ) (locations : γ → List Nat) (moved : Option (β × UInt64))
    (walked : γ × Nat) : Prop :=
  Agrees (Prod.map exact UInt64.toNat) (fun w => w.2 :: locations w.1) moved walked

/-- A walk ends where it starts, or at a location of what it gives. -/
theorem walk_snd {walkOne : α → Nat → γ × Nat}
    (hend : ∀ a n, (walkOne a n).2 ∈ locations (walkOne a n).1) (as : List α) (n : Nat) :
    (walk walkOne as n).2 = n ∨
      (walk walkOne as n).2 ∈ (walk walkOne as n).1.flatMap locations := by
  induction as generalizing n with
  | nil => exact .inl rfl
  | cons a rest ih =>
    refine .inr ?_
    rcases ih (walkOne a n).2 with hstop | hstop
    · refine List.mem_append_left _ ?_
      rw [walk, hstop]
      exact hend a n
    · exact List.mem_append_right _ hstop

/-- Where all moves agree, and end at a location of what they give, a sweep agrees. -/
theorem agrees_sweep? {move : α → UInt64 → Option (β × UInt64)} {walkOne : α → Nat → γ × Nat}
    {as : List α} {c : UInt64}
    (hmove : ∀ a ∈ as, ∀ c : UInt64, c.toNat ≤ addressLimit.toNat →
      MoveAgrees exact locations (move a c) (walkOne a c.toNat))
    (hend : ∀ a n, (walkOne a n).2 ∈ locations (walkOne a n).1)
    (hc : c.toNat ≤ addressLimit.toNat) :
    MoveAgrees (List.map exact) (List.flatMap locations) (sweep? move as c)
      (walk walkOne as c.toNat) := by
  induction as generalizing c with
  | nil =>
    refine ⟨rfl, fun l hl => ?_⟩
    rw [List.mem_singleton.1 hl]
    exact hc
  | cons a rest ih =>
    -- a location past the limit is one of the first move, or else one of the rest
    refine (hmove a List.mem_cons_self c hc).bind ?_ ?_
    · intro l hl
      refine List.mem_cons_of_mem _ (List.mem_append_left _ ?_)
      rcases List.mem_cons.1 hl with rfl | hl
      · exact hend a c.toNat
      · exact hl
    · rintro ⟨b, next⟩ hfirst hwithin
      have hnext : next.toNat = (walkOne a c.toNat).2 := congrArg Prod.snd hfirst
      have hrest := ih (c := next) (fun a ha => hmove a (List.mem_cons_of_mem _ ha))
        (hnext ▸ hwithin _ List.mem_cons_self)
      rw [hnext] at hrest
      refine hrest.bind ?_ ?_
      · intro l hl
        rcases List.mem_cons.1 hl with rfl | hl
        · exact List.mem_cons_self
        · exact List.mem_cons_of_mem _ (List.mem_append_right _ hl)
      · rintro ⟨bs, stop⟩ htail hwithin'
        have hlist := congrArg₂ List.cons (congrArg Prod.fst hfirst) (congrArg Prod.fst htail)
        have hstop : stop.toNat = (walk walkOne rest (walkOne a c.toNat).2).2 :=
          congrArg Prod.snd htail
        refine ⟨Prod.ext hlist hstop, fun l hl => ?_⟩
        rcases List.mem_cons.1 hl with rfl | hl
        · exact hwithin' _ List.mem_cons_self
        · rcases List.mem_append.1 hl with hl | hl
          · exact hwithin _ (List.mem_cons_of_mem _ hl)
          · exact hwithin' _ (List.mem_cons_of_mem _ hl)

/-- Where a sweep agrees from every location on, so does what is packed around it when it starts at
    an alignment. -/
theorem agrees_packed {δ ε : Type} {exact' : δ → ε} {locations' : ε → List Nat}
    {sweep : UInt64 → Option (List β × UInt64)} {walked : Nat → List γ × Nat} {c a : UInt64}
    (pack : UInt64 → List β × UInt64 → δ) (pack' : Nat → List γ × Nat → ε)
    (hexact : ∀ address swept, exact' (pack address swept) =
      pack' address.toNat (Prod.map (List.map exact) UInt64.toNat swept))
    (hlocations : ∀ address w,
      locations' (pack' address w) = address :: w.2 :: w.1.flatMap locations)
    (ha : isPowerOfTwo a = true) (hc : c.toNat ≤ addressLimit.toNat)
    (hsweep : ∀ address : UInt64, address.toNat ≤ addressLimit.toNat →
      MoveAgrees (List.map exact) (List.flatMap locations) (sweep address)
        (walked address.toNat)) :
    MoveAgrees exact' locations'
      ((align? c a).bind fun address => (sweep address).bind fun swept =>
        some (pack address swept, swept.2))
      (pack' (roundUp c.toNat a.toNat) (walked (roundUp c.toNat a.toNat)),
        (walked (roundUp c.toNat a.toNat)).2) := by
  refine (agrees_align? ha hc).bind (fun l hl => ?_) fun address haddress hwithin => ?_
  · rw [List.mem_singleton.1 hl, hlocations]
    exact List.mem_cons_of_mem _ List.mem_cons_self
  · rw [← haddress] at hwithin ⊢
    refine (hsweep address (hwithin _ (List.mem_singleton_self _))).bind (fun l hl => ?_)
      fun swept hswept hwithin' => ?_
    · rw [hlocations]
      exact List.mem_cons_of_mem _ (List.mem_cons_of_mem _ hl)
    · have hpacked := (hexact address swept).trans (congrArg (pack' address.toNat) hswept)
      have hstop : swept.2.toNat = (walked address.toNat).2 := congrArg Prod.snd hswept
      refine ⟨Prod.ext hpacked hstop, fun l hl => ?_⟩
      simp only [hlocations] at hl
      rcases List.mem_cons.1 hl with rfl | hl
      · exact hwithin' _ List.mem_cons_self
      · rcases List.mem_cons.1 hl with rfl | hl
        · exact hwithin _ (List.mem_singleton_self _)
        · exact hwithin' l hl

/-- Where the answers for all elements agree, so do all of them together. -/
theorem agrees_mapM {f : α → Option β} {g : α → γ} {as : List α}
    (h : ∀ a ∈ as, Agrees exact locations (f a) (g a)) :
    Agrees (List.map exact) (List.flatMap locations) (as.mapM f) (as.map g) := by
  induction as with
  | nil => exact ⟨rfl, by simp⟩
  | cons a rest ih =>
    rw [List.mapM_cons]
    refine (h a List.mem_cons_self).bind (fun l hl => List.mem_append_left _ hl) ?_
    intro b hb hwithin
    refine (ih fun a ha => h a (List.mem_cons_of_mem _ ha)).bind
      (fun l hl => List.mem_append_right _ hl) ?_
    intro bs hbs hwithin'
    refine ⟨congrArg₂ List.cons hb hbs, fun l hl => ?_⟩
    rcases List.mem_append.1 hl with hl | hl
    · exact hwithin l hl
    · exact hwithin' l hl

end

/-! ### Steps, sections and segments -/

/-- A regular step agrees with the exact one. -/
theorem Step.agrees_move? {step : Step} (hr : step.IsRegular) {c : UInt64}
    (hc : c.toNat ≤ addressLimit.toNat) :
    MoveAgrees Extent.exact ExactExtent.locations (step.move? c) (step.walk c.toNat) := by
  cases step with
  | symbol name => exact ⟨rfl, by simpa [walk, ExactExtent.locations] using hc⟩
  | align a =>
    refine (agrees_align? hr hc).bind (by simp [walk, ExactExtent.locations]) ?_
    intro next hnext hwithin
    refine ⟨by simp [walk, Extent.exact, hnext], ?_⟩
    simpa [walk, ExactExtent.locations, hc] using hwithin
  | reserve n =>
    refine (agrees_advance? c n).bind (by simp [walk, ExactExtent.locations]) ?_
    intro next hnext hwithin
    refine ⟨by simp [walk, Extent.exact, hnext], ?_⟩
    simpa [walk, ExactExtent.locations, hc] using hwithin
  | place i =>
    refine (agrees_align? hr hc).bind (by simp [walk, ExactExtent.locations]) ?_
    intro start hstart hwithin
    refine (agrees_advance? start i.size).bind
      (by simp [walk, ExactExtent.locations, hstart]) ?_
    intro next hnext hwithin'
    refine ⟨by simp [walk, Extent.exact, hnext, hstart], ?_⟩
    simp only [List.mem_singleton, forall_eq, hstart] at hwithin hwithin'
    simp [walk, ExactExtent.locations, hwithin, hwithin']

/-- A step ends at one of its locations. -/
theorem Step.stop_mem_locations (step : Step) (n : Nat) :
    (step.walk n).2 ∈ (step.walk n).1.locations := by
  cases step <;> simp [walk, ExactExtent.locations]

/-- A regular section agrees with the exact one. -/
theorem Section.agrees_move? {r : Routing} {s : Section} (hr : s.IsRegular r) {c : UInt64}
    (hc : c.toNat ≤ addressLimit.toNat) :
    MoveAgrees MappedSection.exact ExactSection.locations (s.move? r c) (s.walk r c.toNat) := by
  refine agrees_packed
    (fun address swept => MappedSection.mk s.name s.contents address swept.2 swept.1)
    (fun address w => ExactSection.mk s.name s.contents address w.2 w.1)
    (fun _ _ => rfl) (fun _ _ => rfl) (dvd_startAlign hr).1 hc fun address haddress => ?_
  exact agrees_sweep? (fun step hstep _ hc => Step.agrees_move? (hr.steps step hstep) hc)
    Step.stop_mem_locations haddress

/-- A segment of regular sections agrees with the exact one. -/
theorem Segment.agrees_move? {r : Routing} {pageSize : UInt64} {s : Segment}
    (hpage : isPowerOfTwo pageSize = true) (hr : ∀ t ∈ s.sections, t.IsRegular r) {c : UInt64}
    (hc : c.toNat ≤ addressLimit.toNat) :
    MoveAgrees MappedSegment.exact ExactSegment.locations (s.move? r pageSize c)
      (s.walk r pageSize c.toNat) := by
  refine agrees_packed
    (fun address swept => MappedSegment.mk s.name s.permissions address swept.2 swept.1)
    (fun address w => ExactSegment.mk s.name s.permissions address w.2 w.1)
    (fun _ _ => rfl) (fun _ _ => rfl) hpage hc fun address haddress => ?_
  exact agrees_sweep? (fun t ht _ hc => Section.agrees_move? (hr t ht) hc)
    (fun t n => List.mem_cons_of_mem _ List.mem_cons_self) haddress

/-- An unloaded regular section agrees with the exact one. -/
theorem Section.agrees_mapUnloaded? {r : Routing} {s : Section} (hr : s.IsRegular r) :
    Agrees MappedSection.exact ExactSection.locations (s.mapUnloaded? r) (s.walk r 0).1 := by
  have hmove : MoveAgrees MappedSection.exact ExactSection.locations (s.move? r 0) (s.walk r 0) :=
    Section.agrees_move? hr (Nat.zero_le _)
  rw [mapUnloaded?, Option.map_eq_bind]
  refine hmove.bind (fun l hl => ?_) fun moved hmoved hwithin => ?_
  · rcases List.mem_cons.1 hl with rfl | hl
    · exact List.mem_cons_of_mem _ List.mem_cons_self
    · exact hl
  · exact ⟨congrArg Prod.fst hmoved, fun l hl => hwithin l (List.mem_cons_of_mem _ hl)⟩

/-! ### Link maps -/

/-- What the checked walk maps, over natural numbers. -/
def Layout.exactOf (d : Layout) (mapped : List MappedSegment × List MappedSection) : ExactMap where
  loadAddress := d.loadAddress.toNat
  segments := mapped.1.map (·.exact)
  unloaded := mapped.2.map (·.exact)

/-- Where every section is regular, the checked walk agrees with the exact one. -/
theorem Layout.agrees_map? {d : Layout} {r : Routing} (hr : d.IsRegular r) :
    Agrees d.exactOf ExactMap.locations (d.map? r) (d.exactMap r) := by
  have hend : ∀ s n, (Segment.walk r d.pageSize s n).2 ∈
      (Segment.walk r d.pageSize s n).1.locations :=
    fun s n => List.mem_cons_of_mem _ List.mem_cons_self
  have hstart := UInt64.le_iff_toNat_le.1 hr.loadAddress
  have hsegments := agrees_sweep?
    (fun s hs _ hc => Segment.agrees_move? hr.pageSize (hr.loaded hs) hc) hend hstart
  have hunloaded := agrees_mapM fun s (hs : s ∈ d.unloaded) =>
    Section.agrees_mapUnloaded? (hr.unloaded s hs)
  refine hsegments.bind ?_ ?_
  · intro l hl
    rcases List.mem_cons.1 hl with rfl | hl
    · rcases walk_snd hend d.segments d.loadAddress.toNat with hstop | hstop
      · rw [hstop]
        exact List.mem_cons_self
      · exact List.mem_cons_of_mem _ (List.mem_append_left _ hstop)
    · exact List.mem_cons_of_mem _ (List.mem_append_left _ hl)
  · rintro ⟨segments, stop⟩ hexact hwithin
    have hmapped : segments.map (·.exact) = (d.exactMap r).segments := congrArg Prod.fst hexact
    refine hunloaded.bind ?_ ?_
    · exact fun l hl => List.mem_cons_of_mem _ (List.mem_append_right _ hl)
    · intro unloaded hexact' hwithin'
      refine ⟨congrArg₂ (ExactMap.mk _) hmapped hexact', fun l hl => ?_⟩
      rcases List.mem_cons.1 hl with rfl | hl
      · exact hstart
      · rcases List.mem_append.1 hl with hl | hl
        · exact hwithin l (List.mem_cons_of_mem _ hl)
        · exact hwithin' l hl

end BootImage
