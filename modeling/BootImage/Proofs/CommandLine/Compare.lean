import BootImage.Proofs.Elf.Difference
import BootImage.Proofs.Text.Blank
import BootImage.Proofs.Text.ReadOff

/-! What the comparison of two files prints.

    Each difference has one line, and the lines are said group by group: `Shows`. A line tells what
    differs by a name alone, so a section that is called `entry` or `segment 0` has the same line as
    the entry or the segment, and both may stand there. Where no section has such a name, and none
    breaks the line, every line is there once and for one difference only: `Separates`. The main
    statement is `compareOutcome_tellsApart`.

        differs  entry                      the entry
        differs  segment 1                  the second segment, or a section of this name
        differs  .text                      a section of both files
        missing  .data in second            a section that only the first has
        missing  .rodata in first           a section that only the second has -/

namespace BootImage.Elf

/-- A section of this name is not taken for the entry or a segment, and its line does not break. -/
structure IsPlainName (name : String) : Prop where
  entry : name ≠ "entry"
  segment : ∀ i : Nat, name ≠ s!"segment {i}"
  feed : '\n' ∉ name.toList

/-- A name that starts with a dot is plain, if it has no line feed. -/
theorem isPlainName_of_dot {name : String} (hdot : name.toList.head? = some '.')
    (hfeed : '\n' ∉ name.toList) : IsPlainName name := by
  refine ⟨?_, fun i => ?_, hfeed⟩
  · rintro rfl
    exact absurd hdot (by decide)
  · rintro rfl
    simp [toString] at hdot

/-- All sections of the file have such names. -/
def File.HasPlainNames (f : File) : Prop := ∀ s ∈ f.namedSections, IsPlainName s.name

theorem File.HasPlainNames.of_hasSection {f : File} (h : f.HasPlainNames) {name : String}
    (hname : f.HasSection name) : IsPlainName name := by
  obtain ⟨s, hs, rfl⟩ := hname
  exact h s hs

theorem File.hasPlainNames_of_dots {f : File} (h : ∀ s ∈ f.namedSections,
    s.name.toList.head? = some '.' ∧ '\n' ∉ s.name.toList) : f.HasPlainNames := fun s hs =>
  isPlainName_of_dot (h s hs).1 (h s hs).2

end BootImage.Elf

namespace BootImage.CommandLine

open Elf Text

/-- The list has everything of which the property holds, once, and nothing else. -/
def Lists {α : Type} (p : α → Prop) (xs : List α) : Prop := xs.Nodup ∧ ∀ x, x ∈ xs ↔ p x

/-- The lines are, in some order: one for the entry if it differs, one for each position at which
    the segments differ or only one file has a segment, one for each name of sections that differ,
    and one for each name that only one file has, which names the other file. -/
def Shows (first second : String) (a b : File) (lines : List String) : Prop :=
  ∃ (positions : List Nat) (changed onlyFirst onlySecond : List String),
    Lists (fun i => a.image.segments[i]? ≠ b.image.segments[i]?) positions ∧
    Lists (fun name => ∃ s ∈ a.namedSections, ∃ t ∈ b.namedSections, s.name = name ∧
      t.name = name ∧ (s.address ≠ t.address ∨ s.size ≠ t.size ∨ s.data ≠ t.data)) changed ∧
    Lists (fun name => a.HasSection name ∧ ¬ b.HasSection name) onlyFirst ∧
    Lists (fun name => b.HasSection name ∧ ¬ a.HasSection name) onlySecond ∧
    lines.Perm ((if a.image.entry = b.image.entry then [] else ["differs  entry"]) ++
      positions.map (fun i => s!"differs  segment {i}") ++
      changed.map (fun name => s!"differs  {name}") ++
      onlyFirst.map (fun name => s!"missing  {name} in {second}") ++
      onlySecond.map fun name => s!"missing  {name} in {first}")

/-- The lines are those of the printed text. Each stands there once, and the line of a difference
    stands there exactly if there is this difference. -/
structure Separates (first second : String) (a b : File) (lines : List String) : Prop where
  printed : HasLines (String.join (lines.map (· ++ "\n"))).toList (lines.map (·.toList) ++ [[]])
  nodup : lines.Nodup
  entry : "differs  entry" ∈ lines ↔ a.image.entry ≠ b.image.entry
  segment : ∀ i : Nat, s!"differs  segment {i}" ∈ lines ↔
    a.image.segments[i]? ≠ b.image.segments[i]?
  contents : ∀ s ∈ a.namedSections, ∀ t ∈ b.namedSections, s.name = t.name →
    (s!"differs  {s.name}" ∈ lines ↔
      s.address ≠ t.address ∨ s.size ≠ t.size ∨ s.data ≠ t.data)
  missingInSecond : ∀ s ∈ a.namedSections,
    (s!"missing  {s.name} in {second}" ∈ lines ↔ ¬ b.HasSection s.name)
  missingInFirst : ∀ t ∈ b.namedSections,
    (s!"missing  {t.name} in {first}" ∈ lines ↔ ¬ a.HasSection t.name)

/-- The name of a file has neither a space nor a line feed. -/
def IsPlainPath (path : String) : Prop := ' ' ∉ path.toList ∧ '\n' ∉ path.toList

instance : DecidablePred IsPlainPath := fun path =>
  inferInstanceAs (Decidable (' ' ∉ path.toList ∧ '\n' ∉ path.toList))

variable {first second : String} {firstBytes secondBytes : List UInt8} {a b : File}
  {ds : List Difference} {lines : List String}

/-! ### The groups of lines -/

/-- What some elements of a list are made from can be listed, too. -/
theorem exists_lists {α β : Type} {c : α → β} (hc : Function.Injective c) {ds : List β}
    (h : ds.Nodup) : ∃ xs, Lists (fun x => c x ∈ ds) xs := by
  have hinv := hc.isPartialInv
  refine ⟨ds.filterMap (Function.partialInv c), h.filterMap ?_, fun x => ?_⟩
  · intro d e x hd he
    rw [← (hinv x d).1 hd, ← (hinv x e).1 he]
  · simp only [List.mem_filterMap, hinv x, exists_eq_right']

/-- A list of all differences, in groups. -/
theorem exists_perm_groups (h : a.TellsApart b ds) :
    ∃ (positions : List Nat) (changed onlyFirst onlySecond : List String),
      Lists (fun i => .segment i ∈ ds) positions ∧ Lists (fun name => .contents name ∈ ds) changed ∧
      Lists (fun name => .missingInSecond name ∈ ds) onlyFirst ∧
      Lists (fun name => .missingInFirst name ∈ ds) onlySecond ∧
      ds.Perm ((if a.image.entry = b.image.entry then [] else [.entry]) ++
        positions.map .segment ++ changed.map .contents ++ onlyFirst.map .missingInSecond ++
        onlySecond.map .missingInFirst) := by
  have hsegment : Function.Injective Difference.segment := fun _ _ => Difference.segment.inj
  have hcontents : Function.Injective Difference.contents := fun _ _ => Difference.contents.inj
  have hsecond : Function.Injective Difference.missingInSecond := fun _ _ =>
    Difference.missingInSecond.inj
  have hfirst : Function.Injective Difference.missingInFirst := fun _ _ =>
    Difference.missingInFirst.inj
  obtain ⟨positions, hpositions⟩ := exists_lists hsegment h.nodup
  obtain ⟨changed, hchanged⟩ := exists_lists hcontents h.nodup
  obtain ⟨onlyFirst, honlyFirst⟩ := exists_lists hsecond h.nodup
  obtain ⟨onlySecond, honlySecond⟩ := exists_lists hfirst h.nodup
  refine ⟨positions, changed, onlyFirst, onlySecond, hpositions, hchanged, honlyFirst,
    honlySecond, (List.perm_ext_iff_of_nodup h.nodup ?_).2 fun d => ?_⟩
  · -- each group is made with a constructor of its own
    have hentry : (if a.image.entry = b.image.entry then [] else [Difference.entry]).Nodup := by
      split <;> simp
    simp only [List.nodup_append', hentry, hpositions.1.map hsegment, hchanged.1.map hcontents,
      honlyFirst.1.map hsecond, honlySecond.1.map hfirst, true_and]
    simp [List.disjoint_right]
  · cases d with
    | entry => simp [h.entry]
    | segment i => simp [hpositions.2]
    | contents name => simp [hchanged.2]
    | missingInSecond name => simp [honlyFirst.2]
    | missingInFirst name => simp [honlySecond.2]

/-- The texts of all differences, in groups. -/
theorem shows_of_tellsApart (h : a.TellsApart b ds) :
    Shows first second a b (ds.map (·.text first second)) := by
  obtain ⟨positions, changed, onlyFirst, onlySecond, hpositions, hchanged, honlyFirst, honlySecond,
    hperm⟩ := exists_perm_groups h
  simp only [h.segment, h.contents, h.missingInSecond, h.missingInFirst]
    at hpositions hchanged honlyFirst honlySecond
  refine ⟨positions, changed, onlyFirst, onlySecond, hpositions, hchanged, honlyFirst,
    honlySecond, (hperm.map _).trans (.of_eq ?_)⟩
  have hentry : (if a.image.entry = b.image.entry then [] else [Difference.entry]).map
      (·.text first second) =
        if a.image.entry = b.image.entry then [] else ["differs  entry"] := by
    split <;> rfl
  simp only [List.map_append, List.map_map, hentry]
  rfl

/-! ### Lines that can be told apart -/

/-- The line about something that both files have. -/
def differs (subject : String) : String := s!"differs  {subject}"

/-- The line about a name that one file lacks. -/
def missing (name path : String) : String := s!"missing  {name} in {path}"

theorem differs_segment (i : Nat) : s!"differs  segment {i}" = differs s!"segment {i}" := by
  rw [← String.toList_inj]
  simp [differs, toString]

theorem text_entry : Difference.entry.text first second = differs "entry" := rfl

theorem text_segment (i : Nat) :
    (Difference.segment i).text first second = differs s!"segment {i}" := differs_segment i

theorem text_contents (name : String) :
    (Difference.contents name).text first second = differs name := rfl

theorem text_missingInSecond (name : String) :
    (Difference.missingInSecond name).text first second = missing name second := rfl

theorem text_missingInFirst (name : String) :
    (Difference.missingInFirst name).text first second = missing name first := rfl

theorem differs_inj {x y : String} : differs x = differs y ↔ x = y := by
  simp [differs, toString]

theorem differs_ne_missing (x y path : String) : differs x ≠ missing y path := by
  rw [ne_eq, ← String.toList_inj]
  simp [differs, missing, toString]

theorem segment_inj {i j : Nat} : s!"segment {i}" = s!"segment {j}" ↔ i = j := by
  rw [← Number.toDigits_inj (by decide : 1 < 10) (by decide)]
  simp [toString, ← String.toList_inj]

/-- The last space of a text can be found again. -/
theorem eq_of_append_space {x y f g : List Char} (hf : ' ' ∉ f) (hg : ' ' ∉ g)
    (h : x ++ ' ' :: f = y ++ ' ' :: g) : x = y ∧ f = g := by
  have hlast : ∀ {z w : List Char}, ' ' ∉ w →
      (z ++ ' ' :: w).reverse.takeWhile (· ≠ ' ') = w.reverse := by
    intro z w hw
    have hall : ∀ c ∈ w.reverse, decide (c ≠ ' ') = true := fun c hc =>
      decide_eq_true fun hspace => hw (hspace ▸ List.mem_reverse.1 hc)
    rw [List.reverse_append, List.reverse_cons, List.append_assoc,
      List.takeWhile_append_of_pos hall]
    simp
  have hfg : f = g := List.reverse_inj.1 (by rw [← hlast hf, h, hlast hg])
  subst hfg
  exact ⟨List.append_cancel_right h, rfl⟩

theorem missing_inj {x y f g : String} (hf : ' ' ∉ f.toList) (hg : ' ' ∉ g.toList) :
    missing x f = missing y g ↔ x = y ∧ f = g := by
  constructor
  · intro h
    have hlists : ("missing  ".toList ++ x.toList ++ " in".toList) ++ ' ' :: f.toList =
        ("missing  ".toList ++ y.toList ++ " in".toList) ++ ' ' :: g.toList := by
      simpa [missing, toString] using congrArg String.toList h
    obtain ⟨hname, hpath⟩ := eq_of_append_space hf hg hlists
    exact ⟨String.toList_inj.1 (List.append_cancel_left (List.append_cancel_right hname)),
      String.toList_inj.1 hpath⟩
  · rintro ⟨rfl, rfl⟩
    rfl

theorem segment_ne_entry (i : Nat) : s!"segment {i}" ≠ "entry" := by
  rw [ne_eq, ← String.toList_inj]
  simp [toString]

theorem feed_not_mem_segment (i : Nat) : '\n' ∉ s!"segment {i}".toList := by
  have hdigits : '\n' ∉ Nat.toDigits 10 i := fun hmem =>
    absurd (isWord_toDigits (by decide) (by decide) i '\n' hmem) (by decide)
  simpa [toString] using hdigits

theorem feed_not_mem_differs {x : String} (h : '\n' ∉ x.toList) : '\n' ∉ (differs x).toList := by
  simpa [differs, toString] using h

theorem feed_not_mem_missing {x path : String} (hx : '\n' ∉ x.toList)
    (hpath : '\n' ∉ path.toList) : '\n' ∉ (missing x path).toList := by
  simp [missing, toString, hx, hpath]

variable {d : Difference} {x path : String}

/-- A line of the first kind is about what it names, or about a section of such a name. -/
theorem text_eq_differs_iff : d.text first second = differs x ↔
    (d = .entry ∧ x = "entry") ∨ (∃ i : Nat, d = .segment i ∧ x = s!"segment {i}") ∨
      d = .contents x := by
  cases d with
  | entry => simp [text_entry, differs_inj, eq_comm]
  | segment i => simp [text_segment, differs_inj, eq_comm]
  | contents name => simp [text_contents, differs_inj, eq_comm]
  | missingInSecond name => simp [text_missingInSecond, (differs_ne_missing _ _ _).symm]
  | missingInFirst name => simp [text_missingInFirst, (differs_ne_missing _ _ _).symm]

/-- A section that is called like a segment has its line. -/
example : (Difference.contents "segment 0").text first second =
    (Difference.segment 0).text first second := rfl

/-- A line of the second kind names the section and the file that lacks it. -/
theorem text_eq_missing_iff (hfirst : IsPlainPath first) (hsecond : IsPlainPath second)
    (hpath : IsPlainPath path) : d.text first second = missing x path ↔
      (d = .missingInSecond x ∧ path = second) ∨ (d = .missingInFirst x ∧ path = first) := by
  cases d with
  | entry => simp [text_entry, differs_ne_missing]
  | segment i => simp [text_segment, differs_ne_missing]
  | contents name => simp [text_contents, differs_ne_missing]
  | missingInSecond name =>
    simp [text_missingInSecond, missing_inj hsecond.1 hpath.1, eq_comm]
  | missingInFirst name =>
    simp [text_missingInFirst, missing_inj hfirst.1 hpath.1, eq_comm]

theorem differs_mem_iff : differs x ∈ ds.map (·.text first second) ↔
    (.entry ∈ ds ∧ x = "entry") ∨ (∃ i : Nat, .segment i ∈ ds ∧ x = s!"segment {i}") ∨
      .contents x ∈ ds := by
  simp only [List.mem_map, text_eq_differs_iff]
  constructor
  · rintro ⟨d, hd, ⟨rfl, hx⟩ | ⟨i, rfl, hx⟩ | rfl⟩
    · exact .inl ⟨hd, hx⟩
    · exact .inr (.inl ⟨i, hd, hx⟩)
    · exact .inr (.inr hd)
  · rintro (⟨hd, hx⟩ | ⟨i, hd, hx⟩ | hd)
    · exact ⟨_, hd, .inl ⟨rfl, hx⟩⟩
    · exact ⟨_, hd, .inr (.inl ⟨i, rfl, hx⟩)⟩
    · exact ⟨_, hd, .inr (.inr rfl)⟩

theorem missing_mem_iff (hfirst : IsPlainPath first) (hsecond : IsPlainPath second)
    (hpath : IsPlainPath path) : missing x path ∈ ds.map (·.text first second) ↔
      (.missingInSecond x ∈ ds ∧ path = second) ∨ (.missingInFirst x ∈ ds ∧ path = first) := by
  simp only [List.mem_map, text_eq_missing_iff hfirst hsecond hpath]
  constructor
  · rintro ⟨d, hd, ⟨rfl, hpath⟩ | ⟨rfl, hpath⟩⟩
    · exact .inl ⟨hd, hpath⟩
    · exact .inr ⟨hd, hpath⟩
  · rintro (⟨hd, hpath⟩ | ⟨hd, hpath⟩)
    · exact ⟨_, hd, .inl ⟨rfl, hpath⟩⟩
    · exact ⟨_, hd, .inr ⟨rfl, hpath⟩⟩

theorem isPlainName_of_contents_mem (h : a.TellsApart b ds) (ha : a.HasPlainNames)
    (hx : .contents x ∈ ds) : IsPlainName x := by
  obtain ⟨s, hs, -, -, hname, -⟩ := (h.contents x).1 hx
  exact ha.of_hasSection ⟨s, hs, hname⟩

/-- Different differences have different lines. -/
theorem nodup_texts (h : a.TellsApart b ds) (ha : a.HasPlainNames) (hfirst : IsPlainPath first)
    (hsecond : IsPlainPath second) : (ds.map (·.text first second)).Nodup := by
  refine h.nodup.map_on fun d hd e he heq => ?_
  cases d with
  | entry =>
    rcases text_eq_differs_iff.1 (heq.symm.trans text_entry) with ⟨rfl, -⟩ | ⟨i, -, hi⟩ | rfl
    · rfl
    · exact absurd hi.symm (segment_ne_entry i)
    · exact absurd rfl (isPlainName_of_contents_mem h ha he).entry
  | segment i =>
    rcases text_eq_differs_iff.1 (heq.symm.trans (text_segment i)) with
      ⟨-, hi⟩ | ⟨j, rfl, hij⟩ | rfl
    · exact absurd hi (segment_ne_entry i)
    · rw [segment_inj.1 hij]
    · exact absurd rfl ((isPlainName_of_contents_mem h ha he).segment i)
  | contents name =>
    rcases text_eq_differs_iff.1 heq.symm with ⟨-, hname⟩ | ⟨i, -, hname⟩ | rfl
    · exact absurd hname (isPlainName_of_contents_mem h ha hd).entry
    · exact absurd hname ((isPlainName_of_contents_mem h ha hd).segment i)
    · rfl
  -- both files may have one path, but then a name is still missing in one of them only
  | missingInSecond name =>
    rcases (text_eq_missing_iff hfirst hsecond hsecond).1 heq.symm with ⟨rfl, -⟩ | ⟨rfl, -⟩
    · rfl
    · exact absurd ((h.missingInFirst name).1 he).1 ((h.missingInSecond name).1 hd).2
  | missingInFirst name =>
    rcases (text_eq_missing_iff hfirst hsecond hfirst).1 heq.symm with ⟨rfl, -⟩ | ⟨rfl, -⟩
    · exact absurd ((h.missingInSecond name).1 he).1 ((h.missingInFirst name).1 hd).2
    · rfl

theorem feed_not_mem_text (h : a.TellsApart b ds) (ha : a.HasPlainNames) (hb : b.HasPlainNames)
    (hfirst : IsPlainPath first) (hsecond : IsPlainPath second) (hd : d ∈ ds) :
    '\n' ∉ (d.text first second).toList := by
  cases d with
  | entry =>
    rw [text_entry]
    exact feed_not_mem_differs (by decide)
  | segment i =>
    rw [text_segment]
    exact feed_not_mem_differs (feed_not_mem_segment i)
  | contents name => exact feed_not_mem_differs (isPlainName_of_contents_mem h ha hd).feed
  | missingInSecond name =>
    have hname := ha.of_hasSection ((h.missingInSecond name).1 hd).1
    exact feed_not_mem_missing hname.feed hsecond.2
  | missingInFirst name =>
    have hname := hb.of_hasSection ((h.missingInFirst name).1 hd).1
    exact feed_not_mem_missing hname.feed hfirst.2

/-- Where names are plain, a line stands for one difference. -/
theorem separates_of_tellsApart (h : a.TellsApart b ds) (hda : a.HasDistinctNames)
    (hdb : b.HasDistinctNames) (ha : a.HasPlainNames) (hb : b.HasPlainNames)
    (hfirst : IsPlainPath first) (hsecond : IsPlainPath second) :
    Separates first second a b (ds.map (·.text first second)) where
  printed := by
    refine hasLines_ofLines fun line hline => ?_
    obtain ⟨d, hd, rfl⟩ := List.mem_map.1 hline
    exact feed_not_mem_text h ha hb hfirst hsecond hd
  nodup := nodup_texts h ha hfirst hsecond
  entry := by
    change differs "entry" ∈ _ ↔ _
    rw [differs_mem_iff, ← h.entry]
    constructor
    · rintro (⟨hentry, -⟩ | ⟨i, -, hi⟩ | hname)
      · exact hentry
      · exact absurd hi.symm (segment_ne_entry i)
      · exact absurd rfl (isPlainName_of_contents_mem h ha hname).entry
    · exact fun hentry => .inl ⟨hentry, rfl⟩
  segment i := by
    rw [differs_segment, differs_mem_iff, ← h.segment]
    constructor
    · rintro (⟨-, hi⟩ | ⟨j, hj, hij⟩ | hname)
      · exact absurd hi (segment_ne_entry i)
      · rwa [segment_inj.1 hij]
      · exact absurd rfl ((isPlainName_of_contents_mem h ha hname).segment i)
    · exact fun hi => .inr (.inl ⟨i, hi, rfl⟩)
  contents s hs t ht hname := by
    change differs s.name ∈ _ ↔ _
    rw [differs_mem_iff, h.contents]
    constructor
    · rintro (⟨-, hx⟩ | ⟨i, -, hx⟩ | ⟨s', hs', t', ht', hs'name, ht'name, hne⟩)
      · exact absurd hx (ha s hs).entry
      · exact absurd hx ((ha s hs).segment i)
      · rwa [hda.isUnambiguous s' hs' s hs hs'name,
          hdb.isUnambiguous t' ht' t ht (ht'name.trans hname)] at hne
    · exact fun hne => .inr (.inr ⟨s, hs, t, ht, rfl, hname.symm, hne⟩)
  missingInSecond s hs := by
    change missing s.name second ∈ _ ↔ _
    rw [missing_mem_iff hfirst hsecond hsecond, h.missingInSecond, h.missingInFirst]
    constructor
    · rintro (⟨⟨-, hmissing⟩, -⟩ | ⟨⟨-, hmissing⟩, -⟩)
      · exact hmissing
      · exact absurd ⟨s, hs, rfl⟩ hmissing
    · exact fun hmissing => .inl ⟨⟨⟨s, hs, rfl⟩, hmissing⟩, rfl⟩
  missingInFirst t ht := by
    change missing t.name first ∈ _ ↔ _
    rw [missing_mem_iff hfirst hsecond hfirst, h.missingInSecond, h.missingInFirst]
    constructor
    · rintro (⟨⟨-, hmissing⟩, -⟩ | ⟨⟨-, hmissing⟩, -⟩)
      · exact absurd ⟨t, ht, rfl⟩ hmissing
      · exact hmissing
    · exact fun hmissing => .inr ⟨⟨⟨t, ht, rfl⟩, hmissing⟩, rfl⟩

/-! ### The outcome -/

theorem told_eq (first second : String) (ds : List Difference) : told first second ds =
    if ds.map (·.text first second) = [] then { status := 0, output := "identical\n" }
    else { status := 1, output := String.join ((ds.map (·.text first second)).map (· ++ "\n")) } := by
  simp only [told, List.map_eq_nil_iff]
  split <;> rfl

/-- Where the sections of each file have names of their own, the comparison prints one line for each
    difference and nothing else. Without a difference, and only then, it prints `identical` and ends
    with status zero. The other way around it prints as many lines and ends with the same status.
    Where no name reads like something else, each line moreover stands for one difference only. -/
theorem compareOutcome_tellsApart (first second : String) (ha : File.read firstBytes = .ok a)
    (hb : File.read secondBytes = .ok b) (hda : a.HasDistinctNames) (hdb : b.HasDistinctNames) :
    ∃ there back : List String,
      Shows first second a b there ∧ Shows second first b a back ∧
      compareOutcome first second firstBytes secondBytes =
        (if there = [] then { status := 0, output := "identical\n" }
        else { status := 1, output := String.join (there.map (· ++ "\n")) }) ∧
      compareOutcome second first secondBytes firstBytes =
        (if back = [] then { status := 0, output := "identical\n" }
        else { status := 1, output := String.join (back.map (· ++ "\n")) }) ∧
      there.length = back.length ∧
      ((compareOutcome first second firstBytes secondBytes).status = 0 ↔ there = []) ∧
      (compareOutcome second first secondBytes firstBytes).status =
        (compareOutcome first second firstBytes secondBytes).status ∧
      (a.HasPlainNames → b.HasPlainNames → IsPlainPath first → IsPlainPath second →
        Separates first second a b there ∧ Separates second first b a back) := by
  have hthere := File.tellsApart_differences hda hdb
  have hback := File.tellsApart_differences hdb hda
  have hlength : (a.differences b).length = (b.differences a).length := by
    rw [(hback.perm hthere.swap).length_eq, List.length_map]
  have hempty : b.differences a = [] ↔ a.differences b = [] := by
    rw [← List.length_eq_zero_iff, ← List.length_eq_zero_iff, hlength]
  refine ⟨_, _, shows_of_tellsApart hthere, shows_of_tellsApart hback,
    (compareOutcome_eq ha hb).trans (told_eq _ _ _), (compareOutcome_eq hb ha).trans (told_eq _ _ _),
    ?_, ?_, ?_, ?_⟩
  · rw [List.length_map, List.length_map, hlength]
  · rw [compareOutcome_eq ha hb, status_told, List.map_eq_nil_iff]
    simp
  · rw [compareOutcome_eq ha hb, compareOutcome_eq hb ha, status_told, status_told]
    simp only [hempty]
  · intro hpa hpb hfirst hsecond
    exact ⟨separates_of_tellsApart hthere hda hdb hpa hpb hfirst hsecond,
      separates_of_tellsApart hback hdb hda hpb hpa hsecond hfirst⟩

/-- All kinds of lines, between two links of which the second has other code and renamed data. -/
theorem compareOutcome_tellsApart_relinked :
    Draft.linked.IsWritable ∧ Draft.relinked.IsWritable ∧
    ∃ there back, Shows "a" "b" Draft.linked.file Draft.relinked.file there ∧
      Shows "b" "a" Draft.relinked.file Draft.linked.file back ∧ there.length = back.length ∧
      Separates "a" "b" Draft.linked.file Draft.relinked.file there ∧
      "differs  entry" ∈ there ∧ "differs  segment 1" ∈ there ∧ "differs  .text" ∈ there ∧
      "missing  .data in b" ∈ there ∧ "missing  .rodata in a" ∈ there ∧
      compareOutcome "a" "b" Draft.linked.bytes Draft.relinked.bytes =
        { status := 1, output := String.join (there.map (· ++ "\n")) } ∧
      (compareOutcome "b" "a" Draft.relinked.bytes Draft.linked.bytes).status = 1 := by
  have hlinked : Draft.linked.IsWritable := by decide +kernel
  have hrelinked : Draft.relinked.IsWritable := by decide +kernel
  obtain ⟨there, back, hthere, hback, houtcome, -, hlength, -, hstatus, hplain⟩ :=
    compareOutcome_tellsApart "a" "b" (Draft.read_bytes hlinked) (Draft.read_bytes hrelinked)
      ((Draft.hasDistinctNames_file hlinked).2 (by decide))
      ((Draft.hasDistinctNames_file hrelinked).2 (by decide))
  obtain ⟨hseparates, -⟩ := hplain
    (File.hasPlainNames_of_dots (by rw [Draft.namedSections_file hlinked]; decide))
    (File.hasPlainNames_of_dots (by rw [Draft.namedSections_file hrelinked]; decide))
    (by decide) (by decide)
  have hentry : "differs  entry" ∈ there := hseparates.entry.2 (by decide)
  have hsegment : "differs  segment 1" ∈ there := by
    refine (hseparates.segment 1).2 ?_
    rw [Draft.segments_file, Draft.segments_file]
    decide
  have htext : "differs  .text" ∈ there := by
    refine (hseparates.contents ⟨".text", 0x100000, 2, [1, 2]⟩ ?_ ⟨".text", 0x100000, 2, [1, 9]⟩ ?_
      rfl).2 (.inr (.inr (by decide)))
    · rw [Draft.namedSections_file hlinked]
      decide
    · rw [Draft.namedSections_file hrelinked]
      decide
  have hdata : "missing  .data in b" ∈ there := by
    refine (hseparates.missingInSecond ⟨".data", 0x101000, 1, [3]⟩ ?_).2 ?_
    · rw [Draft.namedSections_file hlinked]
      decide
    · rw [File.HasSection, Draft.namedSections_file hrelinked]
      decide
  have hrodata : "missing  .rodata in a" ∈ there := by
    refine (hseparates.missingInFirst ⟨".rodata", 0x101000, 1, [3]⟩ ?_).2 ?_
    · rw [Draft.namedSections_file hrelinked]
      decide
    · rw [File.HasSection, Draft.namedSections_file hlinked]
      decide
  have hne : there ≠ [] := List.ne_nil_of_mem hentry
  rw [if_neg hne] at houtcome
  refine ⟨hlinked, hrelinked, there, back, hthere, hback, hlength, hseparates, hentry, hsegment,
    htext, hdata, hrodata, houtcome, ?_⟩
  rw [hstatus, houtcome]

end BootImage.CommandLine
