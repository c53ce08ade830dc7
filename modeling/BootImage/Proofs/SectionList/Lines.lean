import BootImage.SectionList
import BootImage.Proofs.Text.Blank
import Mathlib.Data.List.Forall2

/-! The lines of a section list.

    A line that says something is well formed, and then it gives one input, or it has a cause to be
    reported. Lines are read in order. As long as they are well formed, each that says something
    adds its input; the first that is not is reported by its place among all lines, and no later one
    is looked at. The main statement is `SectionList.parse_lines`.

        # main.o                    says nothing, but is line 1
        .crt0   0x44  4             an input
        .text   16    4   kept      line 3: unknown attribute
        .data   four  4             not looked at -/

namespace BootImage.SectionList

open Text

/-- The line says something: trimmed, it is not empty and does not start with `#`. -/
def IsSignificant (line : List Char) : Prop := ∃ c rest, Trims line (c :: rest) ∧ c ≠ '#'

/-- Three fields, or four of which the last is the attribute. -/
def HasShape (fields : List (List Char)) : Prop :=
  fields.length = 3 ∨ fields.length = 4 ∧ fields[3]? = some unreferenced

/-- The line has the right fields, and the second and the third are numbers. -/
def IsWellFormed (line : List Char) : Prop :=
  ∃ fields, HasWords line fields ∧ HasShape fields ∧
    ∀ field, fields[1]? = some field ∨ fields[2]? = some field → ∃ n, Number.parse field = .ok n

/-- What stands behind the numbers for an input that is retained, or not. -/
def attributes (retained : Bool) : List (List Char) := if retained then [] else [unreferenced]

/-- The fields say what the input is. -/
def Describes (fields : List (List Char)) (input : Input) : Prop :=
  ∃ size align, fields = input.name.toList :: size :: align :: attributes input.retained ∧
    Number.parse size = .ok input.size ∧ Number.parse align = .ok input.align

/-- The line says what the input is. -/
def Gives (line : List Char) (input : Input) : Prop :=
  ∃ fields, HasWords line fields ∧ Describes fields input

/-- What is wrong with the fields. A fourth field that is not the attribute comes first, then the
    number of fields, then the size, and then the alignment. -/
def Shows (fields : List (List Char)) : Cause → Prop
  | .unknownAttribute text => ∃ mark, fields[3]? = some mark ∧ mark ≠ unreferenced ∧
    text = String.ofList mark
  | .fieldCount => (∀ mark, fields[3]? = some mark → mark = unreferenced) ∧ fields.length ≠ 3 ∧
    fields.length ≠ 4
  | .badNumber text fault => HasShape fields ∧ ∃ size align, fields[1]? = some size ∧
    fields[2]? = some align ∧ (text = String.ofList size ∧ Number.parse size = .error fault ∨
      (∃ n, Number.parse size = .ok n) ∧ text = String.ofList align ∧
        Number.parse align = .error fault)

/-- The first of the lines that says something and is not well formed, and what is wrong with it.
    The first line of all has number `start`. -/
def FirstFault (start : Nat) (ls : List (List Char)) (fault : Fault) : Prop :=
  ∃ before line after, ls = before ++ line :: after ∧ fault.line = start + before.length ∧
    (∀ l ∈ before, IsSignificant l → IsWellFormed l) ∧ IsSignificant line ∧ ¬ IsWellFormed line ∧
      ∃ fields, HasWords line fields ∧ Shows fields fault.cause

variable {line name size align : List Char} {fields ls : List (List Char)} {input : Input}
  {inputs : List Input} {cause : Cause} {fault : Fault} {start : Nat}

/-! ### Lines that say something -/

theorem isSignificant_iff : isSignificant line = true ↔ IsSignificant line := by
  rw [isSignificant]
  cases htrim : trim line with
  | nil =>
    refine iff_of_false (by simp) ?_
    rintro ⟨c, rest, h, -⟩
    cases htrim.symm.trans (trim_eq_iff.2 h)
  | cons c rest =>
    rw [bne_iff_ne]
    constructor
    · intro hc
      exact ⟨c, rest, trim_eq_iff.1 htrim, hc⟩
    · rintro ⟨d, rest', h, hd⟩
      obtain ⟨rfl, -⟩ := List.cons.inj (htrim.symm.trans (trim_eq_iff.2 h))
      exact hd

instance : DecidablePred IsSignificant := fun _ => decidable_of_iff _ isSignificant_iff

/-! ### The fields of a line -/

/-- The numbers of an input are read in order, and the first that is none is reported. -/
theorem readInput_eq (name size align : List Char) (retained : Bool) :
    readInput name size align retained =
      match Number.parse size, Number.parse align with
      | .ok n, .ok m => .ok ⟨String.ofList name, n, m, retained⟩
      | .ok _, .error fault => .error (.badNumber (String.ofList align) fault)
      | .error fault, _ => .error (.badNumber (String.ofList size) fault) := by
  cases hsize : Number.parse size <;> cases halign : Number.parse align <;>
    simp [readInput, readNumber, hsize, halign, Except.mapError, bind, Except.bind]

theorem hasShape_iff : HasShape fields ↔
    ∃ name size align retained, fields = name :: size :: align :: attributes retained := by
  constructor
  · rintro (h | ⟨h, hmark⟩)
    · obtain ⟨name, size, align, rfl⟩ := List.length_eq_three.1 h
      exact ⟨name, size, align, true, rfl⟩
    · obtain ⟨name, size, align, mark, rfl⟩ := List.length_eq_four.1 h
      obtain rfl : mark = unreferenced := by simpa using hmark
      exact ⟨name, size, align, false, rfl⟩
  · rintro ⟨name, size, align, retained, rfl⟩
    cases retained with
    | true => exact .inl rfl
    | false => exact .inr ⟨rfl, rfl⟩

theorem readFields_attributes (name size align : List Char) (retained : Bool) :
    readFields (name :: size :: align :: attributes retained) =
      readInput name size align retained := by
  cases retained with
  | true => rfl
  | false => simp [readFields, attributes]

/-- Fields of another shape have one cause, whatever their numbers are. -/
theorem readFields_of_not_hasShape (h : ¬ HasShape fields) :
    ∃ cause, readFields fields = .error cause ∧ ∀ c, Shows fields c ↔ c = cause := by
  rcases fields with _ | ⟨name, _ | ⟨size, _ | ⟨align, _ | ⟨mark, more⟩⟩⟩⟩
  · exact ⟨.fieldCount, rfl, fun c => by cases c <;> simp [Shows, HasShape]⟩
  · exact ⟨.fieldCount, rfl, fun c => by cases c <;> simp [Shows, HasShape]⟩
  · exact ⟨.fieldCount, rfl, fun c => by cases c <;> simp [Shows, HasShape]⟩
  · exact absurd (.inl rfl) h
  · by_cases hmark : mark = unreferenced
    · cases more with
      | nil => exact absurd (.inr ⟨rfl, congrArg some hmark⟩) h
      | cons field more =>
        refine ⟨.fieldCount, by simp [readFields, hmark], fun c => ?_⟩
        cases c <;> simp [Shows, HasShape, hmark]
    · refine ⟨.unknownAttribute (String.ofList mark), by simp [readFields, hmark], fun c => ?_⟩
      cases c <;> simp [Shows, HasShape, hmark]

/-- The right fields show a number that is none, or nothing is wrong with them. -/
theorem shows_attributes_iff {retained : Bool} :
    Shows (name :: size :: align :: attributes retained) cause ↔
      readInput name size align retained = .error cause := by
  have hshape : HasShape (name :: size :: align :: attributes retained) :=
    hasShape_iff.2 ⟨name, size, align, retained, rfl⟩
  rw [readInput_eq]
  cases cause with
  | unknownAttribute text =>
    cases retained <;> cases Number.parse size <;> cases Number.parse align <;>
      simp [Shows, attributes]
  | fieldCount =>
    cases retained <;> cases Number.parse size <;> cases Number.parse align <;>
      simp [Shows, attributes]
  | badNumber text fault =>
    cases hsize : Number.parse size <;> cases halign : Number.parse align <;>
      simp [Shows, hshape, hsize, halign, eq_comm]

/-- What is reported for a line is what its fields show. -/
theorem readFields_eq_error_iff : readFields fields = .error cause ↔ Shows fields cause := by
  by_cases hshape : HasShape fields
  · obtain ⟨name, size, align, retained, rfl⟩ := hasShape_iff.1 hshape
    rw [readFields_attributes, shows_attributes_iff]
  · obtain ⟨c, hread, hshows⟩ := readFields_of_not_hasShape hshape
    rw [hread, hshows, Except.error.injEq, eq_comm]

theorem describes_attributes_iff {retained : Bool} :
    Describes (name :: size :: align :: attributes retained) input ↔
      name = input.name.toList ∧ retained = input.retained ∧ Number.parse size = .ok input.size ∧
        Number.parse align = .ok input.align := by
  constructor
  · rintro ⟨size', align', heq, hsize, halign⟩
    simp only [List.cons.injEq] at heq
    obtain ⟨hname, rfl, rfl, hattributes⟩ := heq
    refine ⟨hname, ?_, hsize, halign⟩
    cases retained <;> cases hr : input.retained <;> simp [attributes, hr] at hattributes ⊢
  · rintro ⟨rfl, rfl, hsize, halign⟩
    exact ⟨size, align, rfl, hsize, halign⟩

/-- What is read from a line is what its fields say. -/
theorem readFields_eq_ok_iff : readFields fields = .ok input ↔ Describes fields input := by
  by_cases hshape : HasShape fields
  · obtain ⟨name, size, align, retained, rfl⟩ := hasShape_iff.1 hshape
    rw [readFields_attributes, describes_attributes_iff, readInput_eq]
    cases hsize : Number.parse size with
    | error fault => simp
    | ok n =>
      cases halign : Number.parse align with
      | error fault => simp
      | ok m =>
        rw [Except.ok.injEq, Except.ok.injEq, Except.ok.injEq]
        constructor
        · rintro rfl
          exact ⟨String.toList_ofList.symm, rfl, rfl, rfl⟩
        · rintro ⟨rfl, rfl, rfl, rfl⟩
          rw [String.ofList_toList]
  · obtain ⟨c, hread, -⟩ := readFields_of_not_hasShape hshape
    rw [hread]
    refine iff_of_false (by simp) ?_
    rintro ⟨size, align, rfl, -⟩
    exact hshape (hasShape_iff.2 ⟨_, size, align, _, rfl⟩)

/-- A line is well formed if it gives an input. -/
theorem isWellFormed_iff : IsWellFormed line ↔ ∃ input, readFields (words line) = .ok input := by
  constructor
  · rintro ⟨fields, hwords, hshape, hnumbers⟩
    obtain ⟨name, size, align, retained, rfl⟩ := hasShape_iff.1 hshape
    obtain ⟨n, hn⟩ := hnumbers size (.inl rfl)
    obtain ⟨m, hm⟩ := hnumbers align (.inr rfl)
    refine ⟨⟨String.ofList name, n, m, retained⟩, ?_⟩
    rw [hwords.words_eq, readFields_attributes, readInput_eq, hn, hm]
  · rintro ⟨input, hread⟩
    obtain ⟨size, align, hfields, hsize, halign⟩ := readFields_eq_ok_iff.1 hread
    refine ⟨words line, words_eq_iff.1 rfl, ?_, ?_⟩
    · exact hasShape_iff.2 ⟨_, size, align, _, hfields⟩
    · rw [hfields]
      rintro field (h | h)
      · obtain rfl : size = field := by simpa using h
        exact ⟨_, hsize⟩
      · obtain rfl : align = field := by simpa using h
        exact ⟨_, halign⟩

theorem gives_iff : Gives line input ↔ readFields (words line) = .ok input := by
  rw [readFields_eq_ok_iff]
  constructor
  · rintro ⟨fields, hwords, h⟩
    rwa [hwords.words_eq]
  · intro h
    exact ⟨words line, words_eq_iff.1 rfl, h⟩

theorem exists_shows_iff : (∃ fields, HasWords line fields ∧ Shows fields cause) ↔
    readFields (words line) = .error cause := by
  rw [readFields_eq_error_iff]
  constructor
  · rintro ⟨fields, hwords, h⟩
    rwa [hwords.words_eq]
  · intro h
    exact ⟨words line, words_eq_iff.1 rfl, h⟩

/-! ### Line after line -/

/-- Reads lines, the first of which has number `start`. -/
def readFrom (start : Nat) (ls : List (List Char)) : Except Fault (List Input) :=
  ((ls.zipIdx start).filter (isSignificant ·.1)).mapM readLine

/-- A section list is read line by line, from line one. -/
theorem parse_eq (text : List Char) : parse text = readFrom 1 (lines text) := rfl

theorem readFrom_silent (h : ¬ IsSignificant line) :
    readFrom start (line :: ls) = readFrom (start + 1) ls := by
  have hskip : ¬ isSignificant line = true := mt isSignificant_iff.1 h
  simp [readFrom, List.zipIdx_cons, hskip]

theorem readFrom_significant (h : IsSignificant line) : readFrom start (line :: ls) =
    (readLine (line, start)).bind fun input => (readFrom (start + 1) ls).map (input :: ·) := by
  simp only [readFrom, List.zipIdx_cons, List.filter_cons, isSignificant_iff.2 h, if_true,
    List.mapM_cons]
  rfl

theorem readFrom_of_ok (h : IsSignificant line) (hread : readFields (words line) = .ok input) :
    readFrom start (line :: ls) = (readFrom (start + 1) ls).map (input :: ·) := by
  rw [readFrom_significant h, readLine, hread]
  rfl

theorem readFrom_of_error (h : IsSignificant line)
    (hread : readFields (words line) = .error cause) :
    readFrom start (line :: ls) = .error ⟨start, cause⟩ := by
  rw [readFrom_significant h, readLine, hread]
  rfl

/-- Lines that are read say one input each, as far as they say something. -/
theorem readFrom_eq_ok_iff : readFrom start ls = .ok inputs ↔
    List.Forall₂ Gives (ls.filter (IsSignificant ·)) inputs := by
  induction ls generalizing start inputs with
  | nil => simp [readFrom, pure, Except.pure, eq_comm]
  | cons line ls ih =>
    by_cases hsig : IsSignificant line
    · have hrest (others : List Input) : List.Forall₂ Gives (ls.filter (IsSignificant ·)) others ↔
          readFrom (start + 1) ls = .ok others := ih.symm
      rw [List.filter_cons_of_pos (by simpa using hsig), List.forall₂_cons_left_iff]
      simp only [gives_iff, hrest]
      cases hread : readFields (words line) with
      | ok input =>
        rw [readFrom_of_ok hsig hread]
        cases readFrom (start + 1) ls <;> simp [Except.map, eq_comm]
      | error cause => simp [readFrom_of_error hsig hread]
    · rw [readFrom_silent hsig, ih, List.filter_cons_of_neg (by simpa using hsig)]

/-- Lines are read if all that say something are well formed. -/
theorem exists_readFrom_iff : (∃ inputs, readFrom start ls = .ok inputs) ↔
    ∀ line ∈ ls, IsSignificant line → IsWellFormed line := by
  induction ls generalizing start with
  | nil => simp [readFrom, pure, Except.pure]
  | cons line ls ih =>
    rw [List.forall_mem_cons, ← @ih (start + 1), isWellFormed_iff]
    by_cases hsig : IsSignificant line
    · cases hread : readFields (words line) with
      | ok input =>
        rw [readFrom_of_ok hsig hread]
        cases readFrom (start + 1) ls <;> simp [Except.map]
      | error cause => simp [readFrom_of_error hsig hread, hsig]
    · simp [readFrom_silent hsig, hsig]

theorem firstFault_cons_iff : FirstFault start (line :: ls) fault ↔
    (IsSignificant line ∧ fault.line = start ∧ readFields (words line) = .error fault.cause) ∨
      (IsSignificant line → IsWellFormed line) ∧ FirstFault (start + 1) ls fault := by
  constructor
  · rintro ⟨before, bad, after, heq, hline, hbefore, hsig, hbad, hshows⟩
    cases before with
    | nil =>
      obtain ⟨rfl, rfl⟩ := List.cons.inj heq
      exact .inl ⟨hsig, hline, exists_shows_iff.1 hshows⟩
    | cons l before =>
      obtain ⟨rfl, rfl⟩ := List.cons.inj heq
      obtain ⟨hfirst, hbefore⟩ := List.forall_mem_cons.1 hbefore
      refine .inr ⟨hfirst, before, bad, after, rfl, ?_, hbefore, hsig, hbad, hshows⟩
      rw [hline, List.length_cons, Nat.add_assoc, Nat.add_comm 1]
  · rintro (⟨hsig, hline, hread⟩ | ⟨hfirst, before, bad, after, rfl, hline, hbefore, hbad⟩)
    · refine ⟨[], line, ls, rfl, hline, List.forall_mem_nil _, hsig, ?_, exists_shows_iff.2 hread⟩
      intro hwell
      obtain ⟨input, hok⟩ := isWellFormed_iff.1 hwell
      cases hread.symm.trans hok
    · refine ⟨line :: before, bad, after, rfl, ?_, List.forall_mem_cons.2 ⟨hfirst, hbefore⟩, hbad⟩
      rw [hline, List.length_cons, Nat.add_assoc, Nat.add_comm 1]

/-- Lines are not read because of the first of them that is not well formed. -/
theorem readFrom_eq_error_iff : readFrom start ls = .error fault ↔ FirstFault start ls fault := by
  induction ls generalizing start with
  | nil =>
    refine iff_of_false (by simp [readFrom, pure, Except.pure]) ?_
    rintro ⟨before, line, after, heq, -⟩
    simp at heq
  | cons line ls ih =>
    rw [firstFault_cons_iff, ← ih, isWellFormed_iff]
    by_cases hsig : IsSignificant line
    · cases hread : readFields (words line) with
      | ok input =>
        rw [readFrom_of_ok hsig hread]
        cases readFrom (start + 1) ls <;> simp [Except.map]
      | error cause =>
        rw [readFrom_of_error hsig hread]
        cases fault
        simp [hsig, eq_comm]
    · simp [readFrom_silent hsig, hsig]

/-- A section list is read if every line that says something is well formed, and then each of these
    lines gives one input, in order. Otherwise the fault is that of the first line that is not, by
    its number among all lines of the text. -/
theorem parse_lines (text : List Char) : ∃ ls, HasLines text ls ∧
    ((∃ inputs, parse text = .ok inputs) ↔ ∀ line ∈ ls, IsSignificant line → IsWellFormed line) ∧
    (∀ inputs, parse text = .ok inputs ↔
      List.Forall₂ Gives (ls.filter (IsSignificant ·)) inputs) ∧
    ∀ fault, parse text = .error fault ↔ FirstFault 1 ls fault := by
  refine ⟨lines text, lines_eq_iff.1 rfl, ?_⟩
  rw [parse_eq]
  exact ⟨exists_readFrom_iff, fun _ => readFrom_eq_ok_iff, fun _ => readFrom_eq_error_iff⟩

/-- The comment is counted, and the bad line behind the first one is not looked at. -/
example : parse "# main.o\n.crt0 0x44 4\n.text 16 4 kept\n.data four 4".toList =
    .error ⟨3, .unknownAttribute "kept"⟩ := by
  decide +kernel

end BootImage.SectionList
