import BootImage.Config
import BootImage.Proofs.Number.Notation
import BootImage.Proofs.Text.ReadOff

/-! What the build step makes of its variables.

    The settings are read in order, and each that is read has its line printed first. Either all of
    them have a word, and both files are written; or one is refused, and then nothing is written and
    its line is the last. A constant is written in hexadecimal, and whoever reads the file reads the
    word of the setting again, so the header that is assembled from it has the words that were
    asked for. The main statement is `Config.run_outcome`.

        RT0_HEAP_SIZE = "0x1_0000"   -->   pub const HEAP_SIZE: u32 = 0x10000;
        RT0_HEAP_SIZE = "4G"         -->   RT0_HEAP_SIZE="4G" is not a number: ... -/

namespace BootImage.Config

open Text

/-- The variable is not set, or to a number of 32 bits. -/
def Setting.Accepts (s : Setting) (env : String → Option String) : Prop :=
  ∀ value, env s.variableName = some value →
    ∃ n, Number.parse value.toList = .ok n ∧ n.toNat < 2 ^ 32

/-- The word of the setting: what the variable says, or the default. -/
def Setting.HasWord (s : Setting) (env : String → Option String) (w : UInt32) : Prop :=
  env s.variableName = none ∧ w = s.default ∨
    ∃ value, env s.variableName = some value ∧ Number.parse value.toList = .ok w.toUInt64

/-- The fault names the variable, and says that its value is no number or does not fit. -/
def Setting.Reports (s : Setting) (value : String) (fault : Fault) : Prop :=
  (∃ f, Number.parse value.toList = .error f ∧ fault = .notNumber s.variableName value f ∧
    fault.message = s!"{s.variableName}={Text.quote value} is not a number: {f.message}") ∨
  ∃ n, Number.parse value.toList = .ok n ∧ 2 ^ 32 ≤ n.toNat ∧
    fault = .tooLarge s.variableName value ∧
    fault.message = s!"{s.variableName}={Text.quote value} does not fit in 32 bits"

/-- The line that declares a constant with this literal. -/
def declarationLine (name : String) (literal : List Char) : List Char :=
  s!"pub const {name}: u32 = {String.ofList literal};".toList

/-- A line of the file declares the constant, with a hexadecimal literal for the word. -/
def Declares (file name : String) (w : UInt32) : Prop :=
  ∃ ls digits, HasLines file.toList ls ∧ declarationLine name ('0' :: 'x' :: digits) ∈ ls ∧
    Number.parse ('0' :: 'x' :: digits) = .ok w.toUInt64

/-- The header is assembled from the constants that the file declares. -/
def Assembles (file : String) (header : Boot.Header) : Prop :=
  ∃ a h l, Declares file appId.constant a ∧ Declares file heapSize.constant h ∧
    Declares file linearHeapSize.constant l ∧ header = .assembled a h l

/-- Both files are written. One declares the word of each setting and nothing else for it, and the
    other is the linker script, which no variable changes. -/
structure Builds (env : String → Option String) (o : Outcome) : Prop where
  fault : o.fault = none
  script : o.linkerScript = some Standard.layout.script
  constants : ∃ file a h l, o.headerConstants = some file ∧ appId.HasWord env a ∧
    heapSize.HasWord env h ∧ linearHeapSize.HasWord env l ∧
    (∀ w, Declares file appId.constant w ↔ w = a) ∧
    (∀ w, Declares file heapSize.constant w ↔ w = h) ∧
    (∀ w, Declares file linearHeapSize.constant w ↔ w = l) ∧
    ∀ header, Assembles file header ↔ header.words = [0, a, h, l, 0, 0]

/-- The first of the settings that is not accepted is reported. The lines are those that ask to run
    again when a variable changes, for the settings up to this one. -/
def StopsAt (env : String → Option String) (ss : List Setting) (lines : List String)
    (fault : Fault) : Prop :=
  ∃ before s after value, ss = before ++ s :: after ∧ (∀ t ∈ before, t.Accepts env) ∧
    env s.variableName = some value ∧ s.Reports value fault ∧
    lines = (before ++ [s]).map fun t => s!"cargo:rerun-if-env-changed={t.variableName}"

/-- Neither file is written, and nothing is printed behind the line of the setting at fault. -/
def Stops (env : String → Option String) (o : Outcome) : Prop :=
  ∃ lines fault, StopsAt env settings lines fault ∧ o = ⟨lines, some fault, none, none⟩

variable {s : Setting} {env : String → Option String} {value name : String} {w : UInt32}
  {ss : List Setting} {ws : List UInt32} {lines : List String} {fault : Fault}

/-! ### One setting -/

theorem toUInt64_toUInt32 {n : UInt64} (h : n.toNat < UInt32.size) : n.toUInt32.toUInt64 = n := by
  rw [← UInt64.toNat_inj, UInt32.toNat_toUInt64, UInt64.toNat_toUInt32, Nat.mod_eq_of_lt h]

theorem Setting.read_eq_ok_iff : s.read (env s.variableName) = .ok w ↔ s.HasWord env w := by
  cases hvalue : env s.variableName with
  | none => simp [read, HasWord, hvalue, eq_comm]
  | some value =>
    cases hparse : Number.parse value.toList with
    | error f => simp [read, HasWord, hvalue, hparse]
    | ok n =>
      simp only [read, HasWord, hvalue, hparse, Option.some.injEq, exists_eq_left', reduceCtorEq,
        false_and, false_or, Except.ok.injEq]
      split_ifs with hfits
      · rw [Except.ok.injEq]
        constructor
        · rintro rfl
          exact (toUInt64_toUInt32 hfits).symm
        · rintro rfl
          exact UInt32.toUInt32_toUInt64 w
      · refine iff_of_false (by simp) ?_
        rintro rfl
        exact hfits (by rw [UInt32.toNat_toUInt64]; exact w.toNat_lt)

theorem Setting.read_some_eq_error_iff :
    s.read (some value) = .error fault ↔ s.Reports value fault := by
  cases hparse : Number.parse value.toList with
  | error f =>
    simp only [read, hparse, Except.error.injEq]
    constructor
    · rintro rfl
      exact .inl ⟨f, hparse, rfl, rfl⟩
    · rintro (⟨g, hg, rfl, -⟩ | ⟨n, hn, -⟩)
      · cases hparse.symm.trans hg
        rfl
      · cases hparse.symm.trans hn
  | ok n =>
    simp only [read, hparse]
    split_ifs with hfits
    · refine iff_of_false (by simp) ?_
      rintro (⟨g, hg, -⟩ | ⟨m, hm, hlarge, -⟩)
      · cases hparse.symm.trans hg
      · cases hparse.symm.trans hm
        exact absurd hfits (Nat.not_lt.2 hlarge)
    · rw [Except.error.injEq]
      constructor
      · rintro rfl
        exact .inr ⟨n, hparse, Nat.not_lt.1 hfits, rfl, rfl⟩
      · rintro (⟨g, hg, -⟩ | ⟨m, -, -, rfl, -⟩)
        · cases hparse.symm.trans hg
        · rfl

theorem Setting.read_eq_error_iff : s.read (env s.variableName) = .error fault ↔
    ∃ value, env s.variableName = some value ∧ s.Reports value fault := by
  cases env s.variableName with
  | none => simp [read]
  | some value => simp [read_some_eq_error_iff]

/-- A setting is accepted if its word can be read. -/
theorem Setting.accepts_iff : s.Accepts env ↔ ∃ w, s.read (env s.variableName) = .ok w := by
  cases hvalue : env s.variableName with
  | none => simp [Accepts, read, hvalue]
  | some value =>
    cases hparse : Number.parse value.toList with
    | error f => simp [Accepts, read, hvalue, hparse]
    | ok n =>
      have hsize : n.toNat < 2 ^ 32 ↔ n.toNat < UInt32.size := Iff.rfl
      simp only [Accepts, read, hvalue, hparse, Option.some.injEq, forall_eq', Except.ok.injEq,
        exists_eq_left', hsize]
      split_ifs with hfits <;> simp [hfits]

/-! ### The settings in order -/

theorem readSettings_of_ok (h : s.read (env s.variableName) = .ok w) :
    readSettings env (s :: ss) = (s.watchLine :: (readSettings env ss).1,
      (readSettings env ss).2.map (w :: ·)) := by
  rw [readSettings, h]

theorem readSettings_of_error (h : s.read (env s.variableName) = .error fault) :
    readSettings env (s :: ss) = ([s.watchLine], .error fault) := by
  rw [readSettings, h]

/-- Settings that are read have their words, and all their lines are printed. -/
theorem readSettings_eq_ok_iff : readSettings env ss = (lines, .ok ws) ↔
    lines = ss.map (·.watchLine) ∧ List.Forall₂ (fun s w => s.HasWord env w) ss ws := by
  induction ss generalizing lines ws with
  | nil => simp [readSettings, eq_comm]
  | cons s ss ih =>
    rw [List.forall₂_cons_left_iff]
    simp only [← Setting.read_eq_ok_iff]
    cases hread : s.read (env s.variableName) with
    | error fault => simp [readSettings_of_error hread]
    | ok w =>
      rw [readSettings_of_ok hread, Prod.mk.injEq]
      constructor
      · rintro ⟨rfl, hmap⟩
        cases hrest : (readSettings env ss).2 with
        | error fault =>
          rw [hrest] at hmap
          cases hmap
        | ok rest =>
          rw [hrest] at hmap
          obtain ⟨hlines, hwords⟩ := ih.1 (Prod.ext rfl hrest)
          simp only [← Setting.read_eq_ok_iff] at hwords
          exact ⟨congrArg _ hlines, w, rest, rfl, hwords, (Except.ok.inj hmap).symm⟩
      · rintro ⟨rfl, v, rest, hv, hwords, rfl⟩
        cases hv
        simp only [Setting.read_eq_ok_iff] at hwords
        rw [ih.2 ⟨rfl, hwords⟩]
        exact ⟨rfl, rfl⟩

/-- Reading stops at the first setting, or it goes on behind its line. -/
theorem stopsAt_cons_iff : StopsAt env (s :: ss) lines fault ↔
    (∃ value, env s.variableName = some value ∧ s.Reports value fault) ∧ lines = [s.watchLine] ∨
      s.Accepts env ∧ ∃ rest, lines = s.watchLine :: rest ∧ StopsAt env ss rest fault := by
  constructor
  · rintro ⟨before, t, after, value, heq, hbefore, hvalue, hreports, rfl⟩
    cases before with
    | nil =>
      obtain ⟨rfl, rfl⟩ := List.cons.inj heq
      exact .inl ⟨⟨value, hvalue, hreports⟩, rfl⟩
    | cons u before =>
      obtain ⟨rfl, rfl⟩ := List.cons.inj heq
      obtain ⟨hfirst, hbefore⟩ := List.forall_mem_cons.1 hbefore
      exact .inr ⟨hfirst, _, rfl, before, t, after, value, rfl, hbefore, hvalue, hreports, rfl⟩
  · rintro (⟨⟨value, hvalue, hreports⟩, rfl⟩ |
      ⟨hfirst, rest, rfl, before, t, after, value, rfl, hbefore, hvalue, hreports, rfl⟩)
    · exact ⟨[], s, ss, value, rfl, List.forall_mem_nil _, hvalue, hreports, rfl⟩
    · exact ⟨s :: before, t, after, value, rfl, List.forall_mem_cons.2 ⟨hfirst, hbefore⟩, hvalue,
        hreports, rfl⟩

/-- Reading settings fails because of the first that is not accepted. -/
theorem readSettings_eq_error_iff : readSettings env ss = (lines, .error fault) ↔
    StopsAt env ss lines fault := by
  induction ss generalizing lines with
  | nil =>
    refine iff_of_false (by simp [readSettings]) ?_
    rintro ⟨before, s, after, value, heq, -⟩
    simp at heq
  | cons s ss ih =>
    rw [stopsAt_cons_iff, Setting.accepts_iff, ← Setting.read_eq_error_iff]
    cases hread : s.read (env s.variableName) with
    | error f => simp [readSettings_of_error hread, eq_comm, and_comm]
    | ok w =>
      rw [readSettings_of_ok hread]
      simp only [← ih]
      rcases readSettings env ss with ⟨rest, _ | rest'⟩ <;> simp [Except.map, eq_comm]

theorem StopsAt.exists_not_accepts (h : StopsAt env ss lines fault) :
    ∃ s ∈ ss, ¬ s.Accepts env := by
  obtain ⟨before, s, after, value, rfl, -, hvalue, hreports, -⟩ := h
  refine ⟨s, List.mem_append_right _ List.mem_cons_self, fun haccepts => ?_⟩
  obtain ⟨w, hw⟩ := Setting.accepts_iff.1 haccepts
  cases hw.symm.trans (Setting.read_eq_error_iff.2 ⟨value, hvalue, hreports⟩)

theorem accepts_of_forall₂ (h : List.Forall₂ (fun s w => s.HasWord env w) ss ws) :
    ∀ s ∈ ss, s.Accepts env := by
  induction h with
  | nil => exact List.forall_mem_nil _
  | cons hword _ ih =>
    exact List.forall_mem_cons.2
      ⟨Setting.accepts_iff.2 ⟨_, Setting.read_eq_ok_iff.2 hword⟩, ih⟩

/-! ### The file of constants -/

/-- The line in front of a declaration. -/
def docLine (s : Setting) : List Char := s!"/// {s.doc}".toList

/-- The literal of a word. -/
def literal (w : UInt32) : List Char := '0' :: 'x' :: Nat.toDigits 16 w.toNat

/-- The lines of a setting with its word. -/
def settingLines (p : Setting × UInt32) : List (List Char) :=
  [docLine p.1, declarationLine p.1.constant (literal p.2)]

theorem declarationLine_eq (name : String) (l : List Char) : declarationLine name l =
    "pub const ".toList ++ (name.toList ++ (": u32 = ".toList ++ (l ++ [';']))) := by
  simp [declarationLine, toString]

theorem toList_declaration (s : Setting) (w : UInt32) : (s.declaration w).toList =
    docLine s ++ '\n' :: (declarationLine s.constant (literal w) ++ ['\n']) := by
  simp [Setting.declaration, docLine, declarationLine_eq, literal, toString, Number.hex,
    Number.hexDigits]

theorem writes_literal (w : UInt32) : Number.Writes 16 w.toNat (Nat.toDigits 16 w.toNat) :=
  Number.writes_toDigits Number.isRadix_sixteen _

/-- A literal is read as its word. -/
theorem parse_literal (w : UInt32) : Number.parse (literal w) = .ok w.toUInt64 := by
  refine Number.parse_of_renders ?_
  rw [UInt32.toNat_toUInt64]
  exact (writes_literal w).renders_hexadecimal

theorem feed_not_mem_literal (w : UInt32) : '\n' ∉ literal w := by
  have hdigits := feed_not_mem ((writes_literal w).isBlank_eq_false Number.isRadix_sixteen)
  simp only [literal, List.mem_cons, not_or]
  exact ⟨by decide, by decide, hdigits⟩

/-- The doc and the name of the setting stay on their lines. -/
def Setting.IsPlain (s : Setting) : Prop := '\n' ∉ s.doc.toList ∧ IsWord s.constant.toList

theorem feed_not_mem_docLine (h : s.IsPlain) : '\n' ∉ docLine s := by
  simpa [docLine, toString] using h.1

theorem feed_not_mem_declarationLine (h : s.IsPlain) (w : UInt32) :
    '\n' ∉ declarationLine s.constant (literal w) := by
  have hname : '\n' ∉ s.constant.toList := fun hmem => absurd (h.2 '\n' hmem) (by decide)
  have hliteral := feed_not_mem_literal w
  simp [declarationLine_eq, hname, hliteral]

/-- The lines of a file of constants: two for each setting, and an empty one at the end. -/
theorem hasLines_declarations (h : ∀ s ∈ ss, s.IsPlain) :
    HasLines (String.join (List.zipWith (·.declaration ·) ss ws)).toList
      ((ss.zip ws).flatMap settingLines ++ [[]]) := by
  rw [String.toList_join]
  induction ss generalizing ws with
  | nil => exact .last List.not_mem_nil
  | cons s ss ih =>
    cases ws with
    | nil => exact .last List.not_mem_nil
    | cons w ws =>
      obtain ⟨hs, hss⟩ := List.forall_mem_cons.1 h
      simp only [List.zipWith_cons_cons, List.zip_cons_cons, List.flatMap_cons, toList_declaration,
        settingLines, List.append_assoc, List.cons_append, List.nil_append]
      exact .more (feed_not_mem_docLine hs) (.more (feed_not_mem_declarationLine hs w) (ih hss))

/-- A declaration tells its name and its literal. -/
theorem declarationLine_inj {name' : String} {l l' : List Char} (hname : IsWord name.toList)
    (hname' : IsWord name'.toList) (h : declarationLine name l = declarationLine name' l') :
    name = name' ∧ l = l' := by
  rw [declarationLine_eq, declarationLine_eq] at h
  have hbreaks (r : List Char) : Breaks (": u32 = ".toList ++ r) := breaks_append rfl r
  obtain ⟨rfl, hrest⟩ := readOff_name hname hname' (hbreaks _) (hbreaks _)
    (List.append_cancel_left h)
  exact ⟨rfl, List.append_cancel_right (List.append_cancel_left hrest)⟩

theorem declarationLine_ne_docLine (name : String) (l : List Char) (s : Setting) :
    declarationLine name l ≠ docLine s := by
  simp [declarationLine_eq, docLine, toString]

/-- A file of constants declares the word of each setting, and no other. -/
theorem declares_iff (h : ∀ s ∈ ss, s.IsPlain) (hname : IsWord name.toList) :
    Declares (String.join (List.zipWith (·.declaration ·) ss ws)) name w ↔
      ∃ p ∈ ss.zip ws, p.1.constant = name ∧ p.2 = w := by
  constructor
  · rintro ⟨ls, digits, hlines, hmem, hparse⟩
    rw [← hlines.lines_eq, (hasLines_declarations h).lines_eq, List.mem_append,
      List.mem_flatMap] at hmem
    rcases hmem with ⟨⟨s, v⟩, hp, hmem⟩ | hmem
    · rcases List.mem_cons.1 hmem with hdoc | hmem
      · exact absurd hdoc (declarationLine_ne_docLine _ _ s)
      · have hs := h s (List.of_mem_zip hp).1
        obtain ⟨rfl, hliteral⟩ := declarationLine_inj hname hs.2 (List.mem_singleton.1 hmem)
        rw [hliteral, parse_literal, Except.ok.injEq, UInt32.toUInt64_inj] at hparse
        exact ⟨(s, v), hp, rfl, hparse⟩
    · simp [declarationLine_eq] at hmem
  · rintro ⟨⟨s, w⟩, hp, rfl, rfl⟩
    refine ⟨_, Nat.toDigits 16 w.toNat, hasLines_declarations h, ?_, parse_literal w⟩
    exact List.mem_append_left _ (List.mem_flatMap.2 ⟨(s, w), hp, by simp [settingLines, literal]⟩)

/-! ### The step as a whole -/

theorem isPlain_of_mem_settings : ∀ s ∈ settings, s.IsPlain := by
  simp only [Setting.IsPlain]
  decide +kernel

/-- The layout can always be used, so the step does not fail because of it. -/
theorem fault?_layout : Standard.layout.fault? = none := by decide +kernel

theorem run_of_ok {directory : String} (h : readSettings env settings = (lines, .ok ws)) :
    run env (some directory) = ⟨lines ++ linkLines env directory, none, some (declarations ws),
      some Standard.layout.script⟩ := by
  simp only [run, h, fault?_layout]

theorem run_of_error {directory : String} (h : readSettings env settings = (lines, .error fault)) :
    run env (some directory) = ⟨lines, some fault, none, none⟩ := by
  simp only [run, h]

theorem words_eq_iff {header : Boot.Header} {a h l : UInt32} :
    header.words = [0, a, h, l, 0, 0] ↔ header = .assembled a h l := by
  cases header
  simp [Boot.Header.words, Boot.Header.assembled]

/-- No two settings declare the same constant. -/
theorem declares_declarations_iff {a h l : UInt32} :
    (Declares (declarations [a, h, l]) appId.constant w ↔ w = a) ∧
      (Declares (declarations [a, h, l]) heapSize.constant w ↔ w = h) ∧
      (Declares (declarations [a, h, l]) linearHeapSize.constant w ↔ w = l) := by
  have hdeclares : ∀ s ∈ settings, Declares (declarations [a, h, l]) s.constant w ↔
      ∃ p ∈ settings.zip [a, h, l], p.1.constant = s.constant ∧ p.2 = w := fun s hs =>
    declares_iff isPlain_of_mem_settings (isPlain_of_mem_settings s hs).2
  simp only [settings, List.forall_mem_cons] at hdeclares
  obtain ⟨happ, hheap, hlinear, -⟩ := hdeclares
  rw [happ, hheap, hlinear]
  simp [appId, heapSize, linearHeapSize, eq_comm]

/-- Where all settings have words, both files are written. -/
theorem builds_of_words (h : List.Forall₂ (fun s w => s.HasWord env w) settings ws) :
    Builds env ⟨lines, none, some (declarations ws), some Standard.layout.script⟩ := by
  rw [settings] at h
  obtain _ | ⟨happ, _ | ⟨hheap, _ | ⟨hlinear, _ | _⟩⟩⟩ := h
  refine ⟨rfl, rfl, _, _, _, _, rfl, happ, hheap, hlinear, fun _ => declares_declarations_iff.1,
    fun _ => declares_declarations_iff.2.1, fun _ => declares_declarations_iff.2.2, fun _ => ?_⟩
  simp [Assembles, declares_declarations_iff, words_eq_iff]

/-- Three variables are read, each with a default. The step succeeds exactly if every variable that
    is set has a number of 32 bits. Then both files are written; the constants are read as the words
    of the settings, and the script is the same for all variables. Otherwise neither file is written,
    the first variable that is refused is named with what is wrong with it, and the lines end with
    its. -/
theorem run_outcome (env : String → Option String) (directory : String) :
    settings.map (fun s => (s.variableName, s.constant, s.default)) =
        [("RT0_APP_ID", "APP_ID", 0x300), ("RT0_HEAP_SIZE", "HEAP_SIZE", 0),
          ("RT0_LINEAR_HEAP_SIZE", "LINEAR_HEAP_SIZE", 0)] ∧
      ((run env (some directory)).fault = none ↔ ∀ s ∈ settings, s.Accepts env) ∧
      (Builds env (run env (some directory)) ↔ ∀ s ∈ settings, s.Accepts env) ∧
      (Stops env (run env (some directory)) ↔ ∃ s ∈ settings, ¬ s.Accepts env) := by
  refine ⟨rfl, ?_⟩
  rcases hread : readSettings env settings with ⟨lines, fault | ws⟩
  · have hstops : StopsAt env settings lines fault := readSettings_eq_error_iff.1 hread
    have hrefused : ∃ s ∈ settings, ¬ s.Accepts env := hstops.exists_not_accepts
    have hnot : ¬ ∀ s ∈ settings, s.Accepts env := by
      simpa using hrefused
    rw [run_of_error hread]
    refine ⟨iff_of_false (by simp) hnot, iff_of_false ?_ hnot, iff_of_true ?_ hrefused⟩
    · intro hbuilds
      cases hbuilds.fault
    · exact ⟨lines, fault, hstops, rfl⟩
  · obtain ⟨-, hwords⟩ := readSettings_eq_ok_iff.1 hread
    have hall : ∀ s ∈ settings, s.Accepts env := accepts_of_forall₂ hwords
    have hnot : ¬ ∃ s ∈ settings, ¬ s.Accepts env := by
      simpa using hall
    rw [run_of_ok hread]
    refine ⟨iff_of_true rfl hall, iff_of_true (builds_of_words hwords) hall,
      iff_of_false ?_ hnot⟩
    rintro ⟨rest, fault, -, h⟩
    cases congrArg Outcome.fault h

end BootImage.Config
