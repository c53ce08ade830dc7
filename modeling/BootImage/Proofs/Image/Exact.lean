import BootImage.Proofs.Elf.Difference
import BootImage.Proofs.Elf.Narrow
import BootImage.Proofs.Image.Safety
import BootImage.Proofs.LinkMap.Limit

/-! Reports over natural numbers.

    Verification takes a few sums and differences of words: where segments stop, how long hook lists
    are, and the masks of alignments. Here its rules are written with these operations left open, so
    that one report can be taken in words that wrap, in words that have to hold the result, and in
    natural numbers. Whatever the operations, a report that takes them as the words are is the one
    of verification. The main statement is `Layout.report?_eq_violations`.

        wrapped?    0xffffffffffffffff + 2 = 1       1 - 2 = 0xffffffffffffffff
        checked?    none                             none
        natural?    0x10000000000000001              none

    The images that are verified are read from narrow files or linked below the limit. Their
    segments stop far below the end of the word, and a list has a length only if its bounds are in
    order, so all three agree on them. -/

namespace BootImage

open Word Cursor

/-! ### Operations -/

/-- A sum or a difference of words that verification takes. -/
inductive Operation where
  | sum (a b : UInt64)
  | difference (a b : UInt64)

namespace Operation

/-- The word that is left, whatever was carried out of it or borrowed. -/
def word : Operation → UInt64
  | sum a b => a + b
  | difference a b => a - b

def wrapped? (o : Operation) : Option Nat := some o.word.toNat

/-- The natural number; below zero there is none. -/
def natural? : Operation → Option Nat
  | sum a b => some (a.toNat + b.toNat)
  | difference a b => if b ≤ a then some (a.toNat - b.toNat) else none

/-- The natural number, if it is a word. -/
def checked? (o : Operation) : Option Nat := o.natural?.filter (· < UInt64.size)

/-- Nothing is carried or borrowed. -/
def IsExact (o : Operation) : Prop := o.natural? = o.wrapped?

theorem isExact_sum {a b : UInt64} (h : a.toNat + b.toNat < UInt64.size) : (sum a b).IsExact := by
  rw [IsExact, natural?, wrapped?, word, UInt64.toNat_add]
  exact congrArg some (Nat.mod_eq_of_lt h).symm

theorem isExact_difference {a b : UInt64} (h : b ≤ a) : (difference a b).IsExact := by
  rw [IsExact, natural?, if_pos h, wrapped?, word, UInt64.toNat_sub_of_le _ _ h]

/-- What is exact passes the check. -/
theorem IsExact.checked? {o : Operation} (h : o.IsExact) : o.checked? = o.wrapped? := by
  rw [Operation.checked?, h]
  exact Option.filter_some_pos (decide_eq_true o.word.toNat_lt)

end Operation

/-! ### The rules with their operations left open -/

section Rules

variable (value : Operation → Option Nat)

def isAligned? (v a : UInt64) : Option Bool :=
  (value (.difference a 1)).map fun mask => v.toNat &&& mask == 0

/-- The segment is data, and the locations from `first` to `last` lie in it; where it stops is only
    asked of data that starts in time. -/
def LoadSegment.holds? (s : LoadSegment) (first last : UInt64) : Option Bool :=
  if s.isData && s.address ≤ first then
    (value (.sum s.address s.memSize)).map fun stop => last.toNat ≤ stop
  else some false

namespace Image

/-- What is wrong with a range, as `rangeRule` has it. -/
def rangeRule? (f : Image) (b : Bounds)
    (inOrder : UInt64 → UInt64 → Option (List Violation)) : Option (List Violation) :=
  match f.range? b with
  | none => some []
  | some (first, last) =>
    if last < first then some [.rangeInverted b.first b.last] else inOrder first last

/-- A range that is not empty lies in one segment of data. -/
def writableRule? (f : Image) (b : Bounds) (first last : UInt64) : Option (List Violation) :=
  if first = last then some []
  else do
    let inside ← f.segments.anyM (LoadSegment.holds? value · first last)
    some (reportIf (!inside) (.rangeNotWritable b.first b.last))

def bssRule? (f : Image) : Option (List Violation) :=
  f.rangeRule? .bss fun first last => do
    let firstAligned ← isAligned? value first 4
    let lastAligned ← isAligned? value last 4
    let writable ← f.writableRule? value .bss first last
    some (reportIf (!firstAligned || !lastAligned)
        (.rangeMisaligned Bounds.bss.first Bounds.bss.last 4) ++
      writable ++
      (f.rangeRule .tls fun tlsFirst tlsLast =>
        reportIf (tlsFirst < first || last < tlsLast) .tlsOutsideBss) ++
      reportIf ((f.symbols.get? "__end__").any (· < last)) .endBeforeBss)

def hookListRule? (f : Image) (b : Bounds) : Option (List Violation) :=
  f.rangeRule? b fun first last => do
    let length ← value (.difference last first)
    let aligned ← isAligned? value first Standard.pointerSize
    let writable ← f.writableRule? value b first last
    some (reportIf (length % Standard.pointerSize.toNat != 0 || !aligned)
      (.notPointerMultiple b.first b.last Standard.pointerSize) ++ writable)

/-- What is wrong with single segments, as `permissionRules` has it. -/
def permissionRules? (pageSize : UInt64) :
    List Permissions → List (Nat × LoadSegment) → Option (List Violation)
  | _, [] => some []
  | declared, (i, s) :: rest => do
    let found := declared.dropWhile (· != s.permissions)
    let aligned ← isAligned? value s.address pageSize
    let others ← permissionRules? pageSize (if found.isEmpty then declared else found.tail) rest
    some (reportIf s.permissions.writeAndExecute (.writableAndExecutable i) ++
      reportIf found.isEmpty (.unexpectedPermissions i s.permissions.bits) ++
      reportIf (!aligned) (.misalignedSegment i s.address) ++
      reportIf (s.memSize < s.fileSize) (.fileSizeExceedsMemSize i) ++ others)

/-- No segment starts before the one ahead of it ends. -/
def overlapRule? : List (Nat × LoadSegment) → Option (List Violation)
  | (i, a) :: (j, b) :: rest => do
    let stop ← value (.sum a.address a.memSize)
    let others ← overlapRule? ((j, b) :: rest)
    some (reportIf (b.address.toNat < stop) (.segmentOverlap i j) ++ others)
  | _ => some []

def segmentRule? (d : Layout) (f : Image) : Option (List Violation) :=
  match f.loaded with
  | [] => some [.noSegments]
  | (i, first) :: rest => do
    let single ← permissionRules? value d.pageSize (d.segments.map (·.permissions))
      ((i, first) :: rest)
    let overlaps ← overlapRule? value ((i, first) :: rest)
    some (reportIf (first.address != d.loadAddress)
      (.wrongLoadAddress d.loadAddress first.address) ++ single ++ overlaps)

end Image

/-- All that is wrong with an image, if all operations that are asked for have a value. -/
def Layout.report? (d : Layout) (f : Image) : Option (List Violation) := do
  let segments ← f.segmentRule? value d
  let bss ← f.bssRule? value
  let data ← f.rangeRule? .data (f.writableRule? value .data)
  let preinit ← f.hookListRule? value .preinit
  let init ← f.hookListRule? value .init
  some (f.entryRule d ++ segments ++ f.symbolRule d ++ bss ++ data ++ preinit ++ init)

end Rules

/-! ### Operations taken as the words are -/

/-- The operations that a report can ask for: where a segment stops, the length of a range in order,
    and the masks of the page size, of whole words and of pointers. -/
inductive Image.Takes (f : Image) (pageSize : UInt64) : Operation → Prop
  | stop {s : LoadSegment} (hs : s ∈ f.segments) : f.Takes pageSize (.sum s.address s.memSize)
  | length {first last : UInt64} (hle : first ≤ last) : f.Takes pageSize (.difference last first)
  | mask {a : UInt64} (ha : a ∈ [pageSize, 4, Standard.pointerSize]) :
    f.Takes pageSize (.difference a 1)

section Words

variable {value : Operation → Option Nat} {f : Image} {d : Layout}

theorem LoadSegment.holds?_eq {s : LoadSegment}
    (h : value (.sum s.address s.memSize) = some s.stop.toNat) (first last : UInt64) :
    s.holds? value first last = some (s.isData && s.covers first last) := by
  rw [holds?, h, covers, ← Bool.and_assoc, Option.map_some]
  cases s.isData && decide (s.address ≤ first) with
  | false => rfl
  | true => simp [UInt64.le_iff_toNat_le]

/-- A search in which every answer is given is the search for it. -/
theorem anyM_eq_some {α : Type} {p : α → Option Bool} {q : α → Bool} {l : List α}
    (h : ∀ a ∈ l, p a = some (q a)) : l.anyM p = some (l.any q) := by
  induction l with
  | nil => rfl
  | cons a l ih =>
    obtain ⟨ha, hl⟩ := List.forall_mem_cons.1 h
    rw [List.anyM, ha, List.any_cons]
    cases q a with
    | true => rfl
    | false => exact ih hl

namespace Image

theorem rangeRule?_eq {b : Bounds} {inOrder? : UInt64 → UInt64 → Option (List Violation)}
    {inOrder : UInt64 → UInt64 → List Violation}
    (h : ∀ first last, first ≤ last → inOrder? first last = some (inOrder first last)) :
    f.rangeRule? b inOrder? = some (f.rangeRule b inOrder) := by
  rw [rangeRule?, rangeRule]
  cases f.range? b with
  | none => rfl
  | some bounds =>
    obtain ⟨first, last⟩ := bounds
    rcases UInt64.lt_or_le last first with hlt | hle
    · simp only [hlt, if_true]
    · simp only [UInt64.not_lt.2 hle, if_false, h first last hle]

variable (h : ∀ o, f.Takes d.pageSize o → value o = o.wrapped?)
include h

theorem isAligned?_eq {a : UInt64} (ha : a ∈ [d.pageSize, 4, Standard.pointerSize]) (v : UInt64) :
    isAligned? value v a = some (isAligned v a) := by
  have hmask : value (.difference a 1) = some (a - 1).toNat := h _ (.mask ha)
  have hclear : (v.toNat &&& (a - 1).toNat == 0) = (v &&& (a - 1) == 0) := by
    rw [Bool.eq_iff_iff, beq_iff_eq, beq_iff_eq, ← UInt64.toNat_inj, UInt64.toNat_and]
    rfl
  rw [isAligned?, hmask, Option.map_some, hclear, isAligned]

theorem writableRule?_eq (b : Bounds) (first last : UInt64) :
    f.writableRule? value b first last = some (f.writableRule b first last) := by
  have hinside : f.segments.anyM (LoadSegment.holds? value · first last) =
      some (f.segments.any fun s => s.isData && s.covers first last) :=
    anyM_eq_some fun s hs => LoadSegment.holds?_eq (h _ (.stop hs)) first last
  rw [writableRule?, writableRule]
  split_ifs with heq
  · simp [heq, reportIf]
  · rw [hinside, bne_iff_ne.2 heq, Bool.true_and]
    rfl

theorem bssRule?_eq : f.bssRule? value = some f.bssRule := by
  have haligned := isAligned?_eq h (a := 4) (by simp)
  refine rangeRule?_eq fun first last _ => ?_
  simp only [haligned, writableRule?_eq h, Option.bind_eq_bind, Option.bind_some]

theorem hookListRule?_eq (b : Bounds) : f.hookListRule? value b = some (f.hookListRule b) := by
  have haligned := isAligned?_eq h (a := Standard.pointerSize) (by simp)
  refine rangeRule?_eq fun first last hle => ?_
  have hlength : value (.difference last first) = some (last - first).toNat := h _ (.length hle)
  have hwhole : ((last - first).toNat % Standard.pointerSize.toNat != 0) =
      ((last - first) % Standard.pointerSize != 0) := by
    rw [Bool.eq_iff_iff, bne_iff_ne, bne_iff_ne, ne_eq, ne_eq, ← UInt64.toNat_inj,
      UInt64.toNat_mod]
    rfl
  simp only [hlength, haligned, writableRule?_eq h, hwhole, Option.bind_eq_bind, Option.bind_some]

theorem permissionRules?_eq (declared : List Permissions) (segments : List (Nat × LoadSegment)) :
    permissionRules? value d.pageSize declared segments =
      some (permissionRules d.pageSize declared segments) := by
  have haligned := isAligned?_eq h (a := d.pageSize) (by simp)
  induction segments generalizing declared with
  | nil => rfl
  | cons s rest ih =>
    rw [permissionRules?, permissionRules]
    simp only [haligned, ih, Option.bind_eq_bind, Option.bind_some]

theorem overlapRule?_eq : ∀ {segments : List (Nat × LoadSegment)},
    (∀ s ∈ segments, s.2 ∈ f.segments) → overlapRule? value segments = some (overlapRule segments)
  | [], _ => rfl
  | [_], _ => rfl
  | (i, a) :: (j, b) :: rest, hmem => by
    obtain ⟨ha, hrest⟩ := List.forall_mem_cons.1 hmem
    have hstop : value (.sum a.address a.memSize) = some a.stop.toNat := h _ (.stop ha)
    have hrule : overlapRule ((i, a) :: (j, b) :: rest) =
        reportIf (b.address < a.stop) (.segmentOverlap i j) ++ overlapRule ((j, b) :: rest) := rfl
    rw [overlapRule?, hstop, overlapRule?_eq hrest, hrule]
    simp [UInt64.lt_iff_toNat_lt]

theorem segmentRule?_eq : f.segmentRule? value d = some (f.segmentRule d) := by
  have hmem : ∀ s ∈ f.loaded, s.2 ∈ f.segments := fun s hs =>
    f.loaded_sublist.subset (List.mem_map_of_mem hs)
  rw [segmentRule?, segmentRule]
  cases hloaded : f.loaded with
  | nil => rfl
  | cons first rest =>
    rw [hloaded] at hmem
    simp only [permissionRules?_eq h, overlapRule?_eq h hmem, Option.bind_eq_bind,
      Option.bind_some]

end Image

/-- A report for which every operation is taken as the words are is the one of verification. -/
theorem Layout.report?_eq (h : ∀ o, f.Takes d.pageSize o → value o = o.wrapped?) :
    d.report? value f = some (d.violations f) := by
  have hdata : f.rangeRule? .data (f.writableRule? value .data) =
      some (f.rangeRule .data (f.writableRule .data)) :=
    Image.rangeRule?_eq fun first last _ => Image.writableRule?_eq h .data first last
  simp only [report?, Image.segmentRule?_eq h, Image.bssRule?_eq h, hdata,
    Image.hookListRule?_eq h, Option.bind_eq_bind, Option.bind_some, violations]

end Words

/-! ### Images that are verified -/

/-- The image is read from a file, or it is what a link map says of the image it links. -/
inductive Image.IsGiven : Image → Prop
  | read {bytes : List UInt8} {file : Elf.File} (h : Elf.File.read bytes = .ok file) :
    IsGiven file.image
  | linked {d : Layout} {inputs : List Input} {collect : Bool} {m : LinkMap}
    (h : d.link inputs collect = .ok m) : IsGiven m.image

namespace Image

variable {f : Image} {pageSize : UInt64} {o : Operation}

theorem isBounded_of_read {bytes : List UInt8} {file : Elf.File}
    (h : Elf.File.read bytes = .ok file) : file.image.IsBounded := by
  intro s hs
  obtain ⟨p, hp, rfl⟩ := List.mem_map.1 hs
  have hnarrow := (Elf.File.isNarrow_of_read h).programs p (List.mem_filter.1 hp).1
  have haddress : (UInt64.ofNat p.address).toNat ≤ p.address := Nat.mod_le _ _
  have hsize : (UInt64.ofNat p.memSize).toNat ≤ p.memSize := Nat.mod_le _ _
  have hlow := hnarrow.address
  have hhigh := hnarrow.memSize
  simp only [LoadSegment.limit, UInt64.size, UInt32.size] at *
  omega

theorem isBounded_of_link {d : Layout} {inputs : List Input} {collect : Bool} {m : LinkMap}
    (h : d.link inputs collect = .ok m) : m.image.IsBounded := by
  intro s hs
  obtain ⟨g, hg, rfl⟩ := List.mem_map.1 hs
  obtain ⟨t, hfits⟩ := (Layout.linked_of_link h).exists_fits (List.mem_filter.1 hg).1
  have hextent : g.summary.limit = g.stop.toNat := hfits.extent
  have hlimit : g.stop.toNat ≤ addressLimit.toNat := UInt64.le_iff_toNat_le.1 hfits.limit
  rw [hextent]
  exact Nat.lt_of_le_of_lt hlimit (by decide)

theorem IsGiven.isBounded (h : f.IsGiven) : f.IsBounded := by
  cases h with
  | read h => exact isBounded_of_read h
  | linked h => exact isBounded_of_link h

/-- Where no segment reaches past the word and a page has a size, all operations are exact. -/
theorem Takes.isExact (h : f.Takes pageSize o) (hbounded : f.IsBounded)
    (hpage : 0 < pageSize.toNat) : o.IsExact := by
  cases h with
  | stop hs => exact Operation.isExact_sum (hbounded _ hs)
  | length hle => exact Operation.isExact_difference hle
  | mask ha =>
    refine Operation.isExact_difference ?_
    simp only [List.mem_cons, List.not_mem_nil, or_false] at ha
    rcases ha with rfl | rfl | rfl
    · exact UInt64.le_iff_toNat_le.2 hpage
    · decide
    · decide

end Image

/-! ### The report -/

namespace Layout

variable {d : Layout} {f : Image}

/-- On every image that is read from a file or linked, no sum and no difference that verification
    takes leaves the word, and its report is the one over natural numbers. The rules are those of
    verification: where sums and differences wrap, they give its report for every image. -/
theorem report?_eq_violations (hpage : isPowerOfTwo d.pageSize = true) (hgiven : f.IsGiven) :
    d.report? Operation.checked? f = some (d.violations f) ∧
      d.report? Operation.natural? f = some (d.violations f) ∧
      ∀ g, d.report? Operation.wrapped? g = some (d.violations g) := by
  have hexact : ∀ o, f.Takes d.pageSize o → o.IsExact := fun o ho =>
    ho.isExact hgiven.isBounded (pos_of_isPowerOfTwo hpage)
  exact ⟨report?_eq fun o ho => (hexact o ho).checked?, report?_eq hexact,
    fun g => report?_eq fun _ _ => rfl⟩

/-- An image that is linked up to the limit, and one that is read from a file. -/
theorem report?_eq_violations_full :
    isPowerOfTwo Standard.layout.pageSize = true ∧
      (∃ m, Standard.layout.link fullInputs false = .ok m ∧ m.image.IsGiven ∧
        Standard.layout.report? Operation.checked? m.image =
          some (Standard.layout.violations m.image)) ∧
      Elf.Draft.linked.file.image.IsGiven ∧
      Standard.layout.report? Operation.natural? Elf.Draft.linked.file.image =
        some (Standard.layout.violations Elf.Draft.linked.file.image) := by
  have hpage : isPowerOfTwo Standard.layout.pageSize = true := by decide
  obtain ⟨m, hm, -⟩ := exists_link_fullInputs
  have hread := Elf.Draft.read_bytes (d := Elf.Draft.linked) (by decide +kernel)
  exact ⟨hpage, ⟨m, hm, .linked hm, (report?_eq_violations hpage (.linked hm)).1⟩, .read hread,
    (report?_eq_violations hpage (.read hread)).2.1⟩

/-- No such image: its code runs over its data and on past the last word, where words do not see
    it. -/
example :
    let f := Standard.zeroedImage [⟨.code, 0x100000, 0xffffffffffffffff, 0⟩,
      ⟨.readWrite, 0x102000, 0x40, 0⟩] 0x102040
    Standard.layout.report? Operation.wrapped? f = some [] ∧
      Standard.layout.report? Operation.checked? f = none ∧
      Standard.layout.report? Operation.natural? f = some [.segmentOverlap 0 1] := by
  decide +kernel

end Layout

end BootImage
