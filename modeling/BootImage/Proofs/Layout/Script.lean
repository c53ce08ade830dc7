import BootImage.Layout.Standard
import BootImage.Proofs.Layout.StatementText
import BootImage.Proofs.Text.Blank

/-! What a script shows of its layout.

    Where names and patterns are words, everything in a script can be told apart again. A statement
    can be told from its text, a section ends at a brace, and a segment at the directive that starts
    the next page. So two layouts have the same script only if they agree in all that scripts show:
    `Layout.script_eq_iff`.

        .text : ALIGN(4)          . = ALIGN(0x1000);          .comment 0 : { *(.comment) }
        loaded section            page                        section that is not loaded      -/

namespace BootImage

open Text

/-! ### Sections -/

/-- All names and patterns of the section are words. -/
structure Section.IsPlain (s : Section) : Prop where
  name : IsWord s.name.toList
  statements : ∀ st ∈ s.statements, st.IsPlain

instance (s : Section) : Decidable s.IsPlain :=
  decidable_of_iff (IsWord s.name.toList ∧ ∀ st ∈ s.statements, st.IsPlain)
    ⟨fun ⟨name, statements⟩ => ⟨name, statements⟩, fun h => ⟨h.name, h.statements⟩⟩

/-- A statement of a loaded section stands on a line of its own. -/
def Statement.line (st : Statement) : List Char :=
  "        ".toList ++ (st.text.toList ++ "\n".toList)

theorem readOff_statementLines : ReadOff (fun sts => ∀ st ∈ sts, Statement.IsPlain st)
    (fun text => ∃ rest, text = "    \x7d".toList ++ rest) (List.map id)
    (List.flatMap Statement.line) := by
  refine (readOff_statement.between _ _ fun _ => trivial).flatMap (fun _ _ _ => trivial)
    (fun _ _ => trivial) ?_
  rintro st - r ⟨rest, h⟩
  simp at h

theorem readOff_mark : ReadOff (fun _ => True) (fun text => ∃ rest, text = " : ".toList ++ rest) id
    fun contents : Contents => contents.mark.toList := by
  rintro a b - - _ _ ⟨r, rfl⟩ ⟨s, rfl⟩ h
  have hboth : a = b := by cases a <;> cases b <;> first | rfl | simp [Contents.mark] at h
  subst hboth
  exact ⟨rfl, List.append_cancel_left h⟩

theorem breaks_mark (contents : Contents) (rest : List Char) :
    Breaks (contents.mark.toList ++ (" : ".toList ++ rest)) := by
  cases contents with
  | stored => exact breaks_append (by decide) rest
  | zeroed => exact breaks_append (by decide) _

theorem toList_loadedLines (segment : String) (s : Section) :
    (ofLines (s.loadedLines segment)).toList =
      "\n    ".toList ++ (s.name.toList ++ (s.contents.mark.toList ++ (" : ".toList ++
        ("ALIGN(".toList ++ (Nat.toDigits 10 s.align.toNat ++ (")\n    \x7b\n".toList ++
          (s.statements.flatMap Statement.line ++ ("    \x7d".toList ++ (" :".toList ++
            (segment.toList ++ "\n".toList)))))))))) := by
  unfold Section.loadedLines Statement.line
  simp [toString, toList_ofLines_map, Nat.toList_repr]

/-- A loaded section shows everything, and the name of its segment. -/
theorem readOff_loadedLines :
    ReadOff (fun x : String × Section => IsWord x.1.toList ∧ x.2.IsPlain) (fun _ => True) id
      fun x => (ofLines (x.2.loadedLines x.1)).toList := by
  rintro ⟨g, a⟩ ⟨g', b⟩ ⟨hg, ha⟩ ⟨hg', hb⟩ r s - - h
  simp only [toList_loadedLines, List.append_assoc] at h
  obtain ⟨hname, h⟩ := readOff_name ha.name hb.name (breaks_mark _ _) (breaks_mark _ _)
    (List.append_cancel_left h)
  obtain ⟨hcontents, h⟩ := readOff_mark trivial trivial ⟨_, rfl⟩ ⟨_, rfl⟩ h
  obtain ⟨halign, h⟩ := readOff_toDigits (by decide) (by decide) trivial trivial
    (breaks_append (by decide) _) (breaks_append (by decide) _)
    (List.append_cancel_left (List.append_cancel_left h))
  obtain ⟨hstatements, h⟩ := readOff_statementLines ha.statements hb.statements ⟨_, rfl⟩ ⟨_, rfl⟩
    (List.append_cancel_left h)
  obtain ⟨hsegment, h⟩ := readOff_name hg hg' (breaks_append (by decide) _)
    (breaks_append (by decide) _) (List.append_cancel_left (List.append_cancel_left h))
  rw [List.map_id, List.map_id] at hstatements
  refine ⟨Prod.ext hsegment ?_, List.append_cancel_left h⟩
  rw [id, id, Section.mk.injEq]
  exact ⟨hname, UInt64.toNat_inj.1 halign, hcontents, hstatements⟩

theorem toList_unloadedLine (s : Section) : s.unloadedLine.toList ++ "\n".toList =
    "    ".toList ++ (s.name.toList ++ (" 0 : \x7b ".toList ++
      (s.statements.flatMap (fun st => "".toList ++ (st.text.toList ++ " ".toList)) ++
        "\x7d\n".toList))) := by
  unfold Section.unloadedLine
  simp [toString, List.flatMap_map]

/-- A section that is not loaded shows its name and its statements. -/
theorem readOff_unloadedLine : ReadOff Section.IsPlain (fun _ => True)
    (fun s => (s.name, s.statements)) fun s => s.unloadedLine.toList ++ "\n".toList := by
  have hstop : ∀ st : Statement, st.IsPlain → ∀ r,
      ¬ Starts '\x7d' (("".toList ++ (st.text.toList ++ " ".toList)) ++ r) := by
    intro st hst r
    simpa using hst.not_starts_text (" ".toList ++ r)
  have hstatements := (readOff_statement.between "".toList " ".toList fun _ => trivial).flatMap
    (fun _ _ _ => trivial) (fun _ _ => trivial) hstop
  intro a b ha hb r s _ _ h
  simp only [toList_unloadedLine, List.append_assoc] at h
  obtain ⟨hname, h⟩ := readOff_name ha.name hb.name (breaks_append (by decide) _)
    (breaks_append (by decide) _) (List.append_cancel_left h)
  obtain ⟨hstatements, h⟩ := hstatements ha.statements hb.statements
    (starts_append (by decide) _) (starts_append (by decide) _) (List.append_cancel_left h)
  rw [List.map_id, List.map_id] at hstatements
  exact ⟨Prod.ext hname hstatements, List.append_cancel_left h⟩

/-! ### Segments -/

/-- All names and patterns of the segment are words. -/
structure Segment.IsPlain (g : Segment) : Prop where
  name : IsWord g.name.toList
  sections : ∀ s ∈ g.sections, s.IsPlain

instance (g : Segment) : Decidable g.IsPlain :=
  decidable_of_iff (IsWord g.name.toList ∧ ∀ s ∈ g.sections, s.IsPlain)
    ⟨fun ⟨name, sections⟩ => ⟨name, sections⟩, fun h => ⟨h.name, h.sections⟩⟩

/-- The line that declares the segment. -/
def Segment.header (g : Segment) : List Char :=
  "    ".toList ++ (g.name.toList ++ (" PT_LOAD FLAGS(".toList ++
    (Nat.toDigits 10 g.permissions.bits.toNat ++ ");\n".toList)))

theorem readOff_headers : ReadOff (fun gs => ∀ g ∈ gs, Segment.IsPlain g)
    (Starts '\x7d') (List.map fun g => (g.name, g.permissions))
    (List.flatMap Segment.header) := by
  have hheader : ReadOff Segment.IsPlain (fun _ => True) (fun g => (g.name, g.permissions))
      Segment.header := by
    intro a b ha hb r s _ _ h
    simp only [Segment.header, List.append_assoc] at h
    obtain ⟨hname, h⟩ := readOff_name ha.name hb.name (breaks_append (by decide) _)
      (breaks_append (by decide) _) (List.append_cancel_left h)
    obtain ⟨hbits, h⟩ := readOff_toDigits (by decide) (by decide) trivial trivial
      (breaks_append (by decide) _) (breaks_append (by decide) _) (List.append_cancel_left h)
    have hpermissions : a.permissions = b.permissions := by
      rw [Permissions.mk.injEq, ← UInt32.toNat_inj]
      exact hbits
    exact ⟨Prod.ext hname hpermissions, List.append_cancel_left h⟩
  exact hheader.flatMap (fun _ _ _ => trivial) (fun _ _ => trivial) fun _ _ _ => by
    simp [Segment.header]

/-- What stands behind the last segment: the end, or the comment before the other sections. -/
def BehindSegments (text : List Char) : Prop :=
  Starts '\x7d' text ∨ ∃ rest, text = "\n    /".toList ++ rest

/-- What stands behind the last section of a segment: the next page, or what stands behind the last
    segment. -/
def BehindSections (text : List Char) : Prop :=
  BehindSegments text ∨ ∃ rest, text = "\n    . = ".toList ++ rest

/-- The lines of the sections of a segment. -/
def Segment.body (g : Segment) : List Char :=
  g.sections.flatMap fun s => (ofLines (s.loadedLines g.name)).toList

/-- The first line of a section tells it from a page and from a comment. -/
theorem not_behindSections {segment : String} {s : Section} (hs : s.IsPlain) (rest : List Char) :
    ¬ BehindSections ((ofLines (s.loadedLines segment)).toList ++ rest) := by
  simp only [toList_loadedLines, List.append_assoc]
  rintro ((h | ⟨r, h⟩) | ⟨r, h⟩)
  · simp at h
  · change _ = "\n    ".toList ++ ("".toList ++ ("/".toList ++ r)) at h
    obtain ⟨-, h⟩ := readOff_word hs.name (by decide) (breaks_mark _ _)
      (breaks_append (by decide) _) (List.append_cancel_left h)
    cases hc : s.contents <;> simp [hc, Contents.mark] at h
  · change _ = "\n    ".toList ++ (".".toList ++ (" = ".toList ++ r)) at h
    obtain ⟨-, h⟩ := readOff_word hs.name (by decide) (breaks_mark _ _)
      (breaks_append (by decide) _) (List.append_cancel_left h)
    cases hc : s.contents <;> simp [hc, Contents.mark] at h

theorem readOff_body : ReadOff Segment.IsPlain BehindSections (·.sections) Segment.body := by
  have hstop : ∀ x : String × Section, IsWord x.1.toList ∧ x.2.IsPlain → ∀ r,
      ¬ BehindSections ((ofLines (x.2.loadedLines x.1)).toList ++ r) :=
    fun x hx r => not_behindSections hx.2 r
  have hpairs := readOff_loadedLines.flatMap (fun _ _ _ => trivial) (fun _ _ => trivial) hstop
  intro a b ha hb r s hr hs h
  have hbody : ∀ g : Segment, g.body =
      (g.sections.map (g.name, ·)).flatMap fun x => (ofLines (x.2.loadedLines x.1)).toList :=
    fun g => by rw [List.flatMap_map]; rfl
  simp only [hbody] at h
  obtain ⟨hsections, h⟩ := hpairs (by simpa using fun x hx => ⟨ha.name, ha.sections x hx⟩)
    (by simpa using fun x hx => ⟨hb.name, hb.sections x hx⟩) hr hs h
  refine ⟨?_, h⟩
  simpa [Function.comp_def] using congrArg (List.map Prod.snd) hsections

/-- A segment that starts on a page of its own. -/
def Segment.onPage (pageSize : UInt64) (g : Segment) : List Char :=
  "\n    . = ".toList ++ ("ALIGN(0x".toList ++
    (Nat.toDigits 16 pageSize.toNat ++ (");\n".toList ++ g.body)))

theorem readOff_onPage : ReadOff (fun x : UInt64 × Segment => x.2.IsPlain) BehindSections
    (fun x => (x.1, x.2.sections)) fun x => x.2.onPage x.1 := by
  rintro ⟨p, a⟩ ⟨q, b⟩ ha hb r s hr hs h
  unfold Segment.onPage at h
  simp only [List.append_assoc] at h
  obtain ⟨hpage, h⟩ := readOff_toDigits (by decide) (by decide) trivial trivial
    (breaks_append (by decide) _) (breaks_append (by decide) _)
    (List.append_cancel_left (List.append_cancel_left h))
  obtain ⟨hsections, h⟩ := readOff_body ha hb hr hs (List.append_cancel_left h)
  exact ⟨Prod.ext (UInt64.toNat_inj.1 hpage) hsections, h⟩

theorem readOff_pages : ReadOff (fun xs : List (UInt64 × Segment) => ∀ x ∈ xs, x.2.IsPlain)
    BehindSegments (List.map fun x => (x.1, x.2.sections))
    (List.flatMap fun x => x.2.onPage x.1) := by
  refine readOff_onPage.flatMap (fun _ _ _ => .inr ⟨_, List.append_assoc ..⟩) (fun _ => .inl) ?_
  intro x _ r
  unfold BehindSegments Segment.onPage
  simp

theorem behindSections_pages (xs : List (UInt64 × Segment)) {r : List Char}
    (hr : BehindSegments r) : BehindSections ((xs.flatMap fun x => x.2.onPage x.1) ++ r) := by
  cases xs with
  | nil => exact .inl hr
  | cons x xs =>
    rw [List.flatMap_cons, List.append_assoc]
    exact .inr ⟨_, List.append_assoc ..⟩

/-- The lines of segments: the first starts where the image is loaded, the others on pages. -/
def segmentsText (pageSize : UInt64) : List Segment → List Char
  | [] => []
  | g :: gs => g.body ++ (gs.map (pageSize, ·)).flatMap fun x => x.2.onPage x.1

theorem Segment.eq_of_headers {gs hs : List Segment}
    (hheaders : gs.map (fun g => (g.name, g.permissions)) = hs.map fun g => (g.name, g.permissions))
    (hsections : gs.map (·.sections) = hs.map (·.sections)) : gs = hs := by
  induction gs generalizing hs with
  | nil => exact (List.map_eq_nil_iff.1 hheaders.symm).symm
  | cons g gs ih =>
    cases hs with
    | nil => simp at hheaders
    | cons h hs =>
      simp only [List.map_cons, List.cons.injEq, Prod.mk.injEq] at hheaders hsections
      obtain ⟨⟨hname, hpermissions⟩, hheaders⟩ := hheaders
      have hgh : g = h := by
        rw [Segment.mk.injEq]
        exact ⟨hname, hpermissions, hsections.1⟩
      rw [hgh, ih hheaders hsections.2]

/-- Behind the headers, which tell how many there are, segments show the rest of what they have. -/
theorem segmentsText_inj {p q : UInt64} {gs hs : List Segment} (hgs : ∀ g ∈ gs, g.IsPlain)
    (hhs : ∀ h ∈ hs, h.IsPlain)
    (hheaders : gs.map (fun g => (g.name, g.permissions)) = hs.map fun g => (g.name, g.permissions))
    {r s : List Char} (hr : BehindSegments r) (hs' : BehindSegments s)
    (h : segmentsText p gs ++ r = segmentsText q hs ++ s) :
    gs = hs ∧ (2 ≤ gs.length → p = q) ∧ r = s := by
  cases gs with
  | nil =>
    obtain rfl := List.map_eq_nil_iff.1 hheaders.symm
    exact ⟨rfl, by simp, h⟩
  | cons g gs =>
    cases hs with
    | nil => simp at hheaders
    | cons g' hs =>
      obtain ⟨hg, hgs⟩ := List.forall_mem_cons.1 hgs
      obtain ⟨hg', hhs⟩ := List.forall_mem_cons.1 hhs
      rw [segmentsText, segmentsText, List.append_assoc, List.append_assoc] at h
      obtain ⟨hfirst, h⟩ :=
        readOff_body hg hg' (behindSections_pages _ hr) (behindSections_pages _ hs') h
      obtain ⟨hpages, h⟩ := readOff_pages (by simpa using hgs) (by simpa using hhs) hr hs' h
      rw [List.map_map, List.map_map] at hpages
      have hlater := congrArg (List.map Prod.snd) hpages
      rw [List.map_map, List.map_map] at hlater
      have heq := Segment.eq_of_headers hheaders (congrArg₂ List.cons hfirst hlater)
      refine ⟨heq, fun htwo => ?_, h⟩
      obtain rfl := (List.cons.inj heq).2
      obtain ⟨b, bs, rfl⟩ := List.exists_cons_of_length_pos (Nat.le_of_succ_le_succ htwo)
      exact (Prod.mk.inj (List.cons.inj hpages).1).1

/-! ### Layouts -/

/-- The sections that are not loaded stand behind a comment. -/
def unloadedText (sections : List Section) : List Char :=
  if sections.isEmpty then []
  else "\n    /".toList ++ ("* Not loaded. */\n".toList ++
    sections.flatMap fun s => s.unloadedLine.toList ++ "\n".toList)

theorem readOff_unloadedText : ReadOff (fun ss => ∀ s ∈ ss, Section.IsPlain s)
    (Starts '\x7d') (List.map fun s => (s.name, s.statements))
    unloadedText := by
  have hstop : ∀ s : Section, s.IsPlain → ∀ r,
      ¬ Starts '\x7d' ((s.unloadedLine.toList ++ "\n".toList) ++ r) := by
    intro s _ r
    rw [toList_unloadedLine]
    simp
  have hlines := readOff_unloadedLine.flatMap (fun _ _ _ => trivial) (fun _ _ => trivial) hstop
  intro a b ha hb r s hr hs h
  unfold unloadedText at h
  split at h <;> split at h
  · next hnil hnil' =>
    rw [List.isEmpty_iff.1 hnil, List.isEmpty_iff.1 hnil']
    exact ⟨rfl, h⟩
  · rw [List.nil_append] at h
    simp [h] at hr
  · rw [List.nil_append] at h
    simp [← h] at hs
  · rw [List.append_assoc, List.append_assoc, List.append_assoc, List.append_assoc] at h
    exact hlines ha hb hr hs (List.append_cancel_left (List.append_cancel_left h))

/-- The text depends on nothing but the names and the statements. -/
theorem unloadedText_congr {ss ts : List Section}
    (h : ss.map (fun s => (s.name, s.statements)) = ts.map fun s => (s.name, s.statements)) :
    unloadedText ss = unloadedText ts := by
  have hempty : ss.isEmpty = ts.isEmpty := by simpa using congrArg List.isEmpty h
  have hlines : ∀ us : List Section, (us.flatMap fun s => s.unloadedLine.toList ++ "\n".toList) =
      (us.map fun s => (s.name, s.statements)).flatMap fun x =>
        ({ name := x.1, statements := x.2 } : Section).unloadedLine.toList ++ "\n".toList :=
    fun us => by rw [List.flatMap_map]; rfl
  unfold unloadedText
  rw [hempty, hlines, hlines, h]

theorem behindSegments_unloadedText (sections : List Section) {rest : List Char}
    (h : Starts '\x7d' rest) : BehindSegments (unloadedText sections ++ rest) := by
  unfold unloadedText
  split
  · exact .inl h
  · exact .inr ⟨_, List.append_assoc ..⟩

/-- All names and patterns of the layout are words. -/
structure Layout.IsPlain (d : Layout) : Prop where
  outputFormat : IsWord d.outputFormat.toList
  outputArch : IsWord d.outputArch.toList
  entry : IsWord d.entry.toList
  segments : ∀ g ∈ d.segments, g.IsPlain
  unloaded : ∀ s ∈ d.unloaded, s.IsPlain

namespace Layout

instance (d : Layout) : Decidable d.IsPlain :=
  decidable_of_iff (IsWord d.outputFormat.toList ∧ IsWord d.outputArch.toList ∧
      IsWord d.entry.toList ∧ (∀ g ∈ d.segments, g.IsPlain) ∧ ∀ s ∈ d.unloaded, s.IsPlain)
    ⟨fun ⟨outputFormat, outputArch, entry, segments, unloaded⟩ =>
      ⟨outputFormat, outputArch, entry, segments, unloaded⟩,
    fun h => ⟨h.outputFormat, h.outputArch, h.entry, h.segments, h.unloaded⟩⟩

theorem toList_script (d : Layout) : d.script.toList =
    "/* Generated by image-layout. Do not edit. */\n\nOUTPUT_FORMAT(\"".toList ++
      (d.outputFormat.toList ++ ("\")\nOUTPUT_ARCH(".toList ++ (d.outputArch.toList ++
        (")\nENTRY(".toList ++ (d.entry.toList ++ (")\nEXTERN(".toList ++ (d.entry.toList ++
          (")\n\nPHDRS\n\x7b\n".toList ++ (d.segments.flatMap Segment.header ++
            ("\x7d\n\nSECTIONS\n\x7b\n    . = 0x".toList ++ (Nat.toDigits 16 d.loadAddress.toNat ++
              (";\n".toList ++ (segmentsText d.pageSize d.segments ++ (unloadedText d.unloaded ++
                "\x7d\n".toList)))))))))))))) := by
  have hsegments :
      (ofLines ((d.segments.take 1).flatMap (·.scriptLines d.pageSize true))).toList ++
        (ofLines ((d.segments.drop 1).flatMap (·.scriptLines d.pageSize false))).toList =
      segmentsText d.pageSize d.segments := by
    cases d.segments with
    | nil => rfl
    | cons g gs =>
      rw [segmentsText]
      unfold Segment.scriptLines Segment.onPage Segment.body
      simp [toString, toList_ofLines_flatMap, List.flatMap_map, Number.hex, Number.hexDigits]
  have hunloaded : (ofLines (if d.unloaded.isEmpty then []
      else ["", "    /* Not loaded. */"] ++ d.unloaded.map (·.unloadedLine))).toList =
      unloadedText d.unloaded := by
    unfold unloadedText
    split
    · rfl
    · simp [toList_ofLines_map]
  rw [script, ← hsegments, ← hunloaded]
  unfold scriptLines Segment.header
  simp [toString, toList_ofLines_map, Number.hex, Number.hexDigits, Nat.toList_repr]

/-- The layouts agree in all that scripts show: everything but the section that holds the entry, the
    symbols that are required, where and how sections lie that are not loaded, and the size of pages
    that no segment starts on. -/
structure Matches (d e : Layout) : Prop where
  outputFormat : d.outputFormat = e.outputFormat
  outputArch : d.outputArch = e.outputArch
  entry : d.entry = e.entry
  loadAddress : d.loadAddress = e.loadAddress
  segments : d.segments = e.segments
  unloaded : d.unloaded.map (fun s => (s.name, s.statements)) =
    e.unloaded.map fun s => (s.name, s.statements)
  pageSize : 2 ≤ d.segments.length → d.pageSize = e.pageSize

theorem Matches.script_eq {d e : Layout} (h : d.Matches e) : d.script = e.script := by
  have hsegments : segmentsText d.pageSize d.segments = segmentsText e.pageSize e.segments := by
    rw [← h.segments]
    obtain hnil | ⟨g, hone⟩ | htwo : d.segments = [] ∨ (∃ g, d.segments = [g]) ∨
        2 ≤ d.segments.length := by
      rcases d.segments with _ | ⟨g, _ | ⟨g', gs⟩⟩ <;> simp
    · rw [hnil, segmentsText, segmentsText]
    · rw [hone, segmentsText, segmentsText, List.map_nil, List.map_nil]
    · rw [h.pageSize htwo]
  rw [← String.toList_inj, toList_script, toList_script, h.outputFormat, h.outputArch, h.entry,
    h.loadAddress, hsegments, unloadedText_congr h.unloaded, h.segments]

/-- Two layouts whose names and patterns are words have the same script exactly if they agree in all
    that scripts show, so of this a script loses nothing. Names may also be empty. -/
theorem script_eq_iff {d e : Layout} (hd : d.IsPlain) (he : e.IsPlain) :
    d.script = e.script ↔ d.Matches e := by
  refine ⟨fun h => ?_, Matches.script_eq⟩
  have hend : Starts '\x7d' "\x7d\n".toList := starts_cons.2 rfl
  rw [← String.toList_inj, toList_script, toList_script] at h
  obtain ⟨houtputFormat, h⟩ := readOff_name hd.outputFormat he.outputFormat
    (breaks_append (by decide) _) (breaks_append (by decide) _) (List.append_cancel_left h)
  obtain ⟨houtputArch, h⟩ := readOff_name hd.outputArch he.outputArch
    (breaks_append (by decide) _) (breaks_append (by decide) _) (List.append_cancel_left h)
  obtain ⟨hentry, h⟩ := readOff_name hd.entry he.entry
    (breaks_append (by decide) _) (breaks_append (by decide) _) (List.append_cancel_left h)
  obtain ⟨-, h⟩ := readOff_name hd.entry he.entry
    (breaks_append (by decide) _) (breaks_append (by decide) _) (List.append_cancel_left h)
  obtain ⟨hheaders, h⟩ := readOff_headers hd.segments he.segments (starts_append (by decide) _)
    (starts_append (by decide) _) (List.append_cancel_left h)
  obtain ⟨hload, h⟩ := readOff_toDigits (by decide) (by decide) trivial trivial
    (breaks_append (by decide) _) (breaks_append (by decide) _) (List.append_cancel_left h)
  obtain ⟨hsegments, hpageSize, h⟩ := segmentsText_inj hd.segments he.segments hheaders
    (behindSegments_unloadedText _ hend) (behindSegments_unloadedText _ hend)
    (List.append_cancel_left h)
  obtain ⟨hunloaded, -⟩ := readOff_unloadedText hd.unloaded he.unloaded hend hend h
  exact
    { outputFormat := houtputFormat
      outputArch := houtputArch
      entry := hentry
      loadAddress := UInt64.toNat_inj.1 hload
      segments := hsegments
      unloaded := hunloaded
      pageSize := hpageSize }

/-- The script of the standard layout says how large pages are, but not which symbols it must
    define. -/
theorem script_eq_iff_standard :
    Standard.layout.script ≠ { Standard.layout with pageSize := 0x2000 }.script ∧
      Standard.layout.script = { Standard.layout with required := [] }.script := by
  have hplain : Standard.layout.IsPlain := by decide +kernel
  have hlarge : { Standard.layout with pageSize := 0x2000 }.IsPlain :=
    ⟨hplain.outputFormat, hplain.outputArch, hplain.entry, hplain.segments, hplain.unloaded⟩
  have hfree : { Standard.layout with required := [] }.IsPlain :=
    ⟨hplain.outputFormat, hplain.outputArch, hplain.entry, hplain.segments, hplain.unloaded⟩
  constructor
  · rw [Ne, script_eq_iff hplain hlarge]
    exact fun h => absurd (h.pageSize (by decide)) (by decide)
  · exact (script_eq_iff hplain hfree).2 ⟨rfl, rfl, rfl, rfl, rfl, rfl, fun _ => rfl⟩

end Layout

end BootImage
