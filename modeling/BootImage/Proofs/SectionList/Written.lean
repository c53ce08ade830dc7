import BootImage.Proofs.Number.Notation
import BootImage.Proofs.SectionList.Lines

/-! Section lists that are written.

    A list of inputs can be written in many ways: each number in any notation, any blanks between
    the fields and around them, lines that say nothing anywhere, and a line feed at the end or not.
    A carriage return in front of a line feed is one more blank at the end of its line. All of these
    texts are read as the list that was written, and no other text is. The main statement is
    `SectionList.parse_written`.

        "# main.o\r\n.text\t1_6  0x4 \r\n\n .data 4 4 unreferenced"
            -->   .text (16, 4), .data (4, 4, not retained) -/

namespace BootImage.SectionList

open Text

/-- The line is blank, or a comment. -/
def IsSilent (line : List Char) : Prop :=
  IsGap line ∨ ∃ front rest, line = front ++ '#' :: rest ∧ IsGap front

/-- The name can be written: it is not empty, has no blank in it and is not taken for a comment. -/
def IsListable (name : String) : Prop := IsField name.toList ∧ name.toList.head? ≠ some '#'

/-- What a line says: nothing, or one input. -/
inductive Says : List Char → List Input → Prop where
  | nothing {line : List Char} : IsSilent line → Says line []
  | input {line : List Char} {input : Input} : IsListable input.name → Gives line input →
    Says line [input]

/-- The text is a way to write the inputs: line by line, each with its end, and the last with or
    without one. -/
inductive Written : List Char → List Input → Prop where
  | last {line : List Char} {said : List Input} : '\n' ∉ line → Says line said → Written line said
  | more {line lineEnd rest : List Char} {said others : List Input} : '\n' ∉ line →
    Says line said → lineEnd = ['\n'] ∨ lineEnd = ['\r', '\n'] → Written rest others →
      Written (line ++ (lineEnd ++ rest)) (said ++ others)

variable {line text : List Char} {w : List Char} {ws ls : List (List Char)} {input : Input}
  {inputs said others : List Input} {start : Nat}

/-! ### What a line says -/

theorem isSignificant_iff_head? : IsSignificant line ↔
    ∃ c, (line.dropWhile isBlank).head? = some c ∧ c ≠ '#' := by
  rw [← head?_trim]
  constructor
  · rintro ⟨c, rest, htrim, hc⟩
    exact ⟨c, by rw [trim_eq_iff.2 htrim]; rfl, hc⟩
  · rintro ⟨c, hhead, hc⟩
    obtain ⟨rest, hrest⟩ := List.head?_eq_some_iff.1 hhead
    exact ⟨c, rest, trim_eq_iff.1 hrest, hc⟩

/-- The lines that say nothing are the blank ones and the comments. -/
theorem isSilent_iff : IsSilent line ↔ ¬ IsSignificant line := by
  rw [isSignificant_iff_head?]
  constructor
  · rintro (hgap | ⟨front, rest, rfl, hfront⟩)
    · rw [List.dropWhile_eq_nil_iff.2 hgap]
      simp
    · rw [dropWhile_gap hfront (by simp; rfl)]
      simp
  · intro h
    obtain ⟨front, rest, rfl, hfront, hrest⟩ := exists_gap line
    rw [dropWhile_gap hfront hrest] at h
    cases rest with
    | nil => exact .inl (by rwa [List.append_nil])
    | cons c rest =>
      obtain rfl : c = '#' := by simpa using h
      exact .inr ⟨front, rest, rfl, hfront⟩

/-- A line starts with its first word. -/
theorem head?_of_hasWords (h : HasWords line (w :: ws)) :
    IsField w ∧ (line.dropWhile isBlank).head? = w.head? := by
  cases h with
  | @field front _ rest _ hfront hw _ _ =>
    refine ⟨hw, ?_⟩
    obtain ⟨c, w, rfl⟩ := List.exists_cons_of_ne_nil hw.1
    rw [dropWhile_gap hfront (by simpa using hw.2 c List.mem_cons_self)]
    rfl

/-- The lines that say something and can be read are those of inputs that can be written. -/
theorem listable_and_gives_iff : IsListable input.name ∧ Gives line input ↔
    IsSignificant line ∧ readFields (words line) = .ok input := by
  rw [← gives_iff, and_congr_left_iff]
  rintro ⟨fields, hwords, size, align, rfl, -⟩
  obtain ⟨hfield, hhead⟩ := head?_of_hasWords hwords
  rw [isSignificant_iff_head?, hhead, IsListable, and_iff_right hfield]
  obtain ⟨c, name, hname⟩ := List.exists_cons_of_ne_nil hfield.1
  simp [hname]

/-- Reading goes on behind what the first line says. -/
theorem readFrom_cons_eq_ok_iff : readFrom start (line :: ls) = .ok inputs ↔
    ∃ said others, inputs = said ++ others ∧ Says line said ∧
      readFrom (start + 1) ls = .ok others := by
  constructor
  · intro h
    by_cases hsig : IsSignificant line
    · cases hread : readFields (words line) with
      | error cause => simp [readFrom_of_error hsig hread] at h
      | ok input =>
        obtain ⟨hlistable, hgives⟩ := listable_and_gives_iff.2 ⟨hsig, hread⟩
        rw [readFrom_of_ok hsig hread] at h
        cases hrest : readFrom (start + 1) ls with
        | error fault => simp [hrest, Except.map] at h
        | ok others =>
          rw [hrest] at h
          exact ⟨[input], others, (Except.ok.inj h).symm, .input hlistable hgives, rfl⟩
    · rw [readFrom_silent hsig] at h
      exact ⟨[], inputs, rfl, .nothing (isSilent_iff.2 hsig), h⟩
  · rintro ⟨said, others, rfl, hsays, hrest⟩
    cases hsays with
    | nothing hsilent => rw [readFrom_silent (isSilent_iff.1 hsilent), hrest, List.nil_append]
    | input hlistable hgives =>
      obtain ⟨hsig, hread⟩ := listable_and_gives_iff.1 ⟨hlistable, hgives⟩
      rw [readFrom_of_ok hsig hread, hrest]
      rfl

/-! ### What a text says -/

/-- A carriage return at the end of a line changes nothing. -/
theorem Says.append_return (h : Says line said) : Says (line ++ ['\r']) said := by
  cases h with
  | nothing hsilent =>
    refine .nothing ?_
    rcases hsilent with hgap | ⟨front, rest, rfl, hfront⟩
    · refine .inl fun c hc => ?_
      rcases List.mem_append.1 hc with hc | hc
      · exact hgap c hc
      · obtain rfl := List.mem_singleton.1 hc
        rfl
    · exact .inr ⟨front, rest ++ ['\r'], by simp, hfront⟩
  | input hlistable hgives =>
    refine .input hlistable ?_
    have hreturn : isBlank '\r' = true := rfl
    rwa [gives_iff, words_append_cons hreturn, words_nil, List.append_nil, ← gives_iff]

theorem Written.readFrom_eq (h : Written text inputs) : ∀ start,
    readFrom start (lines text) = .ok inputs := by
  induction h with
  | @last line said hline hsays =>
    intro start
    rw [lines_of_not_mem hline]
    exact readFrom_cons_eq_ok_iff.2 ⟨said, [], (List.append_nil said).symm, hsays, rfl⟩
  | @more line lineEnd rest said others hline hsays hend _ ih =>
    intro start
    rcases hend with rfl | rfl
    · rw [List.cons_append, List.nil_append, lines_append_cons hline]
      exact readFrom_cons_eq_ok_iff.2 ⟨said, others, rfl, hsays, ih _⟩
    · have hreturn : '\n' ∉ line ++ ['\r'] := by simpa using hline
      have hsplit : line ++ (['\r', '\n'] ++ rest) = line ++ ['\r'] ++ '\n' :: rest := by simp
      rw [hsplit, lines_append_cons hreturn]
      exact readFrom_cons_eq_ok_iff.2 ⟨said, others, rfl, hsays.append_return, ih _⟩

/-- Lines that are read were written as what they are read as. -/
theorem written_of_readFrom (h : HasLines text ls) (hread : readFrom start ls = .ok inputs) :
    Written text inputs := by
  induction h generalizing start inputs with
  | last hline =>
    obtain ⟨said, others, rfl, hsays, hrest⟩ := readFrom_cons_eq_ok_iff.1 hread
    obtain rfl : others = [] := by simpa [readFrom, pure, Except.pure, eq_comm] using hrest
    rw [List.append_nil]
    exact .last hline hsays
  | more hline _ ih =>
    obtain ⟨said, others, rfl, hsays, hrest⟩ := readFrom_cons_eq_ok_iff.1 hread
    exact .more hline hsays (.inl rfl) (ih hrest)

theorem Written.isListable (h : Written text inputs) : ∀ i ∈ inputs, IsListable i.name := by
  have hsaid : ∀ {line said}, Says line said → ∀ i ∈ said, IsListable i.name := by
    rintro _ _ (_ | ⟨hlistable, -⟩)
    · exact List.forall_mem_nil _
    · simpa using hlistable
  induction h with
  | last _ hsays => exact hsaid hsays
  | more _ hsays _ _ ih => exact List.forall_mem_append.2 ⟨hsaid hsays, ih⟩

/-! ### A way to write a list -/

/-- The fields of an input, with its numbers in decimal. -/
def plainFields (input : Input) : List (List Char) :=
  input.name.toList :: Nat.toDigits 10 input.size.toNat :: Nat.toDigits 10 input.align.toNat ::
    attributes input.retained

theorem parse_toDigits (n : UInt64) : Number.parse (Nat.toDigits 10 n.toNat) = .ok n :=
  Number.parse_of_renders (Number.writes_toDigits Number.isRadix_ten _).renders

theorem isField_toDigits (n : Nat) : IsField (Nat.toDigits 10 n) :=
  ⟨Nat.toDigits_ne_nil, (Number.writes_toDigits Number.isRadix_ten n).isBlank_eq_false
    Number.isRadix_ten⟩

theorem isField_plainFields (h : IsListable input.name) : ∀ w ∈ plainFields input, IsField w := by
  have hattributes : ∀ w ∈ attributes input.retained, IsField w := by
    cases input.retained <;> decide
  simp only [plainFields, List.forall_mem_cons]
  exact ⟨h.1, isField_toDigits _, isField_toDigits _, hattributes⟩

/-- Every list of inputs whose names can be written can be written. -/
theorem exists_written (h : ∀ i ∈ inputs, IsListable i.name) : ∃ text, Written text inputs := by
  induction inputs with
  | nil => exact ⟨[], .last List.not_mem_nil (.nothing (.inl isGap_nil))⟩
  | cons input inputs ih =>
    obtain ⟨hinput, hinputs⟩ := List.forall_mem_cons.1 h
    obtain ⟨rest, hrest⟩ := ih hinputs
    have hfields := isField_plainFields hinput
    have hgives : Gives ((plainFields input).flatMap (· ++ [' '])) input :=
      ⟨plainFields input, hasWords_flatMap hfields, _, _, rfl, parse_toDigits _, parse_toDigits _⟩
    have hfeed : '\n' ∉ (plainFields input).flatMap (· ++ [' ']) := by
      simp only [List.mem_flatMap, List.mem_append, not_exists, not_and, not_or]
      exact fun w hw => ⟨feed_not_mem (hfields w hw).2, by decide⟩
    exact ⟨_, .more hfeed (.input hinput hgives) (.inl rfl) hrest⟩

/-- However a list of inputs is written, the text is read as that list, and a text that is read is a
    way to write what it is read as. A list can be written if its names can. -/
theorem parse_written :
    (∀ text inputs, Written text inputs ↔ parse text = .ok inputs) ∧
      ∀ inputs : List Input, (∃ text, Written text inputs) ↔ ∀ i ∈ inputs, IsListable i.name := by
  refine ⟨fun text inputs => ?_, fun inputs => ⟨?_, exists_written⟩⟩
  · rw [parse_eq]
    constructor
    · intro h
      exact h.readFrom_eq 1
    · exact written_of_readFrom (lines_eq_iff.1 rfl)
  · rintro ⟨text, h⟩
    exact h.isListable

/-- Comments, carriage returns, both radixes and no line feed at the end. -/
example : parse "# main.o\r\n.text\t1_6  0x4 \r\n\n .data 4 4 unreferenced".toList =
    .ok [⟨".text", 16, 4, true⟩, ⟨".data", 4, 4, false⟩] := by
  decide +kernel

end BootImage.SectionList
