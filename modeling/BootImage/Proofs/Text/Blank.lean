import BootImage.Text.Blank
import Mathlib.Data.List.TakeWhile

/-! Trimming, words and lines.

    Each of the three is a function, and many texts have the same result. What a text has to look
    like for a result is said by a relation: `Trims`, `HasWords` and `HasLines` put back what was
    dropped, in any way in which it can have stood there. Each of them holds for exactly one result.
    The main statements are `trim_eq_iff`, `words_eq_iff` and `lines_eq_iff`. Lines that are written
    one after the other are read as what they were: `hasLines_ofLines`.

        "  .bss\t16  4 \r"    trim -->  ".bss\t16  4"
                              words --> ".bss", "16", "4" -/

namespace BootImage.Text

/-- There is nothing but blanks. -/
def IsGap (text : List Char) : Prop := ∀ c ∈ text, isBlank c = true

/-- There is something, and no blank in it. -/
def IsField (text : List Char) : Prop := text ≠ [] ∧ ∀ c ∈ text, isBlank c = false

/-- The text is `inner` with blanks around it, and `inner` has no blank at its ends. -/
structure Trims (text inner : List Char) : Prop where
  around : ∃ front back, text = front ++ (inner ++ back) ∧ IsGap front ∧ IsGap back
  first : ∀ c ∈ inner.head?, isBlank c = false
  last : ∀ c ∈ inner.getLast?, isBlank c = false

/-- The text is these fields with blanks between any two, and maybe around them. -/
inductive HasWords : List Char → List (List Char) → Prop where
  | gap {text : List Char} : IsGap text → HasWords text []
  | field {front w rest : List Char} {ws : List (List Char)} :
    IsGap front → IsField w → (∀ c ∈ rest.head?, isBlank c = true) → HasWords rest ws →
      HasWords (front ++ (w ++ rest)) (w :: ws)

/-- The text is these lines, with a line feed between any two. -/
inductive HasLines : List Char → List (List Char) → Prop where
  | last {line : List Char} : '\n' ∉ line → HasLines line [line]
  | more {line rest : List Char} {ls : List (List Char)} : '\n' ∉ line → HasLines rest ls →
    HasLines (line ++ '\n' :: rest) (line :: ls)

variable {text front inner back rest line w : List Char} {ws ls : List (List Char)} {c : Char}

-- the instances go through the text, and not through all characters
instance : DecidablePred IsGap := List.decidableBAll (isBlank · = true)

instance : DecidablePred IsField := fun text =>
  have := List.decidableBAll (isBlank · = false) text
  inferInstanceAs (Decidable (text ≠ [] ∧ ∀ c ∈ text, isBlank c = false))

theorem isGap_nil : IsGap [] := List.forall_mem_nil _

/-- A line feed is a blank. -/
theorem feed_not_mem (h : ∀ c ∈ text, isBlank c = false) : '\n' ∉ text :=
  fun hmem => absurd (h '\n' hmem) (by decide)

/-! ### Blanks in front -/

/-- The blanks in front are dropped up to the first character that is none. -/
theorem dropWhile_gap (hfront : IsGap front) (hrest : ∀ c ∈ rest.head?, isBlank c = false) :
    (front ++ rest).dropWhile isBlank = rest := by
  rw [List.dropWhile_append_of_pos hfront]
  cases rest with
  | nil => rfl
  | cons c rest => exact List.dropWhile_cons_of_neg (by simp [hrest c rfl])

/-- A text starts with a gap and goes on without a blank. -/
theorem exists_gap (text : List Char) : ∃ front rest, text = front ++ rest ∧ IsGap front ∧
    ∀ c ∈ rest.head?, isBlank c = false := by
  refine ⟨text.takeWhile isBlank, text.dropWhile isBlank, List.takeWhile_append_dropWhile.symm,
    fun c hc => List.mem_takeWhile_imp hc, fun c hc => ?_⟩
  have h := List.head?_dropWhile_not isBlank text
  rwa [Option.mem_def.1 hc] at h

theorem IsGap.reverse (h : IsGap text) : IsGap text.reverse :=
  fun c hc => h c (List.mem_reverse.1 hc)

/-! ### Trimming -/

/-- Trimming drops the blanks at the ends, and nothing else does so. -/
theorem trim_eq_iff : trim text = inner ↔ Trims text inner := by
  constructor
  · rintro rfl
    obtain ⟨front, mid, rfl, hfront, hmid⟩ := exists_gap text
    obtain ⟨back, kept, hrest, hback, hkept⟩ := exists_gap mid.reverse
    have htrim : trim (front ++ mid) = kept.reverse := by
      rw [trim, dropWhile_gap hfront hmid, hrest, dropWhile_gap hback hkept]
    have hmid' : mid = kept.reverse ++ back.reverse := by
      rw [← List.reverse_append, ← hrest, List.reverse_reverse]
    rw [htrim]
    refine ⟨⟨front, back.reverse, by rw [hmid'], hfront, hback.reverse⟩, fun c hc => ?_, ?_⟩
    · -- what is kept stands at the front of what the front gap left
      refine hmid c ?_
      rw [hmid', List.head?_append, Option.mem_def.1 hc]
      rfl
    · rwa [List.getLast?_reverse]
  · rintro ⟨⟨front, back, rfl, hfront, hback⟩, hfirst, hlast⟩
    cases inner with
    | nil =>
      have hall : (front ++ ([] ++ back)).dropWhile isBlank = [] := by
        rw [List.dropWhile_append_of_pos hfront, List.nil_append, List.dropWhile_eq_nil_iff]
        exact hback
      rw [trim, hall]
      rfl
    | cons c inner =>
      have hlast' : ∀ d ∈ (c :: inner).reverse.head?, isBlank d = false := by
        rwa [List.head?_reverse]
      rw [trim, dropWhile_gap hfront (by simpa using hfirst), List.reverse_append,
        dropWhile_gap hback.reverse hlast', List.reverse_reverse]

/-- Without a blank in it, all that blanks surround is left. -/
theorem trims_of_forall (hfront : IsGap front) (hback : IsGap back)
    (hinner : ∀ c ∈ inner, isBlank c = false) : Trims (front ++ (inner ++ back)) inner where
  around := ⟨front, back, rfl, hfront, hback⟩
  first := fun c hc => hinner c (List.mem_of_mem_head? hc)
  last := fun c hc => hinner c (List.mem_of_mem_getLast? hc)

/-- What trimming leaves starts where the blanks in front end. -/
theorem head?_trim (text : List Char) : (trim text).head? = (text.dropWhile isBlank).head? := by
  obtain ⟨⟨front, back, htext, hfront, hback⟩, hfirst, -⟩ := trim_eq_iff.1 (Eq.refl (trim text))
  cases htrim : trim text with
  | nil =>
    rw [htrim, List.nil_append] at htext
    rw [htext, List.dropWhile_append_of_pos hfront, List.dropWhile_eq_nil_iff.2 hback]
  | cons c inner =>
    rw [htrim] at htext hfirst
    rw [htext, dropWhile_gap hfront (by simpa using hfirst)]
    rfl

/-! ### Words -/

@[simp] theorem words_nil : words [] = [] := rfl

/-- A blank ends a word. -/
theorem words_append_cons (hc : isBlank c = true) (front rest : List Char) :
    words (front ++ c :: rest) = words front ++ words rest := by
  rw [words, List.splitOnP_append_cons front rest hc, List.filter_append]
  rfl

theorem words_cons (hc : isBlank c = true) (rest : List Char) : words (c :: rest) = words rest :=
  words_append_cons hc [] rest

theorem words_gap_append (hfront : IsGap front) (rest : List Char) :
    words (front ++ rest) = words rest := by
  induction front with
  | nil => rfl
  | cons c front ih =>
    obtain ⟨hc, hfront⟩ := List.forall_mem_cons.1 hfront
    rw [List.cons_append, words_cons hc, ih hfront]

theorem words_field (hw : IsField w) : words w = [w] := by
  rw [words, List.splitOnP_eq_singleton hw.2]
  simp [hw.1]

/-- In front of a blank, a field is a word. -/
theorem words_field_append (hw : IsField w) (hrest : ∀ c ∈ rest.head?, isBlank c = true) :
    words (w ++ rest) = w :: words rest := by
  cases rest with
  | nil => rw [List.append_nil, words_field hw, words_nil]
  | cons c rest =>
    have hc : isBlank c = true := hrest c rfl
    rw [words_append_cons hc, words_field hw, words_cons hc, List.singleton_append]

theorem HasWords.words_eq (h : HasWords text ws) : words text = ws := by
  induction h with
  | gap htext => simpa using words_gap_append htext []
  | field hfront hw hrest _ ih => rw [words_gap_append hfront, words_field_append hw hrest, ih]

/-- Every text is made of some words. -/
theorem exists_hasWords (text : List Char) : ∃ ws, HasWords text ws := by
  obtain ⟨front, rest, rfl, hfront, hrest⟩ := exists_gap text
  cases rest with
  | nil => exact ⟨[], .gap (by rwa [List.append_nil])⟩
  | cons c t =>
    -- the word goes up to the next blank, and the rest is shorter by it
    obtain ⟨w, behind, ht, hw, hbehind⟩ : ∃ w behind, t = w ++ behind ∧
        (∀ d ∈ w, isBlank d = false) ∧ ∀ d ∈ behind.head?, isBlank d = true := by
      refine ⟨t.takeWhile (!isBlank ·), t.dropWhile (!isBlank ·),
        List.takeWhile_append_dropWhile.symm, fun d hd => by simpa using List.mem_takeWhile_imp hd,
        fun d hd => ?_⟩
      have h := List.head?_dropWhile_not (!isBlank ·) t
      rw [Option.mem_def.1 hd] at h
      simpa using h
    obtain ⟨ws, hws⟩ := exists_hasWords behind
    refine ⟨(c :: w) :: ws, ?_⟩
    rw [ht, ← List.cons_append]
    exact .field hfront ⟨List.cons_ne_nil _ _, List.forall_mem_cons.2 ⟨hrest c rfl, hw⟩⟩ hbehind hws
termination_by text.length
decreasing_by simp_all; omega

/-- The words of a text are the fields that it is made of. -/
theorem words_eq_iff : words text = ws ↔ HasWords text ws := by
  constructor
  · rintro rfl
    obtain ⟨ws, h⟩ := exists_hasWords text
    rwa [h.words_eq]
  · exact HasWords.words_eq

/-- Fields with a space behind each are the words of their text. -/
theorem hasWords_flatMap (h : ∀ w ∈ ws, IsField w) : HasWords (ws.flatMap (· ++ [' '])) ws := by
  rw [← words_eq_iff]
  have hspace : isBlank ' ' = true := rfl
  induction ws with
  | nil => rfl
  | cons w ws ih =>
    obtain ⟨hw, hws⟩ := List.forall_mem_cons.1 h
    rw [List.flatMap_cons, List.append_assoc, List.singleton_append, words_append_cons hspace,
      words_field hw, ih hws, List.singleton_append]

/-! ### Lines -/

theorem lines_of_not_mem (hline : '\n' ∉ line) : lines line = [line] :=
  List.splitOnP_eq_singleton fun _ hc => beq_false_of_ne fun h => hline (h ▸ hc)

/-- A line feed ends a line. -/
theorem lines_append_cons (hline : '\n' ∉ line) (rest : List Char) :
    lines (line ++ '\n' :: rest) = line :: lines rest := by
  have hsplit : lines (line ++ '\n' :: rest) = lines line ++ lines rest :=
    List.splitOnP_append_cons line rest (beq_self_eq_true '\n')
  rw [hsplit, lines_of_not_mem hline]
  rfl

theorem HasLines.lines_eq (h : HasLines text ls) : lines text = ls := by
  induction h with
  | last hline => exact lines_of_not_mem hline
  | more hline _ ih => rw [lines_append_cons hline, ih]

/-- Every text is made of some lines. -/
theorem exists_hasLines (text : List Char) : ∃ ls, HasLines text ls := by
  by_cases hmem : '\n' ∈ text
  · obtain ⟨line, rest, htext, hline⟩ := List.eq_append_cons_of_mem hmem
    obtain ⟨ls, hls⟩ := exists_hasLines rest
    exact ⟨line :: ls, htext ▸ .more hline hls⟩
  · exact ⟨[text], .last hmem⟩
termination_by text.length
decreasing_by simp_all; omega

/-- The lines of a text are those that it is made of. -/
theorem lines_eq_iff : lines text = ls ↔ HasLines text ls := by
  constructor
  · rintro rfl
    obtain ⟨ls, h⟩ := exists_hasLines text
    rwa [h.lines_eq]
  · exact HasLines.lines_eq

/-! ### Lines that are written -/

theorem toList_ofLines (lines : List String) :
    (ofLines lines).toList = lines.flatMap fun line => line.toList ++ "\n".toList := by
  rw [ofLines, String.toList_join, List.flatMap_map]
  simp

@[simp] theorem toList_ofLines_nil : (ofLines []).toList = [] := by
  rw [toList_ofLines, List.flatMap_nil]

@[simp] theorem toList_ofLines_cons (line : String) (lines : List String) :
    (ofLines (line :: lines)).toList =
      line.toList ++ ("\n".toList ++ (ofLines lines).toList) := by
  rw [toList_ofLines, toList_ofLines, List.flatMap_cons, List.append_assoc]

@[simp] theorem toList_ofLines_append (lines more : List String) :
    (ofLines (lines ++ more)).toList = (ofLines lines).toList ++ (ofLines more).toList := by
  simp only [toList_ofLines, List.flatMap_append]

theorem toList_ofLines_map {α : Type} (f : α → String) (xs : List α) :
    (ofLines (xs.map f)).toList = xs.flatMap fun x => (f x).toList ++ "\n".toList := by
  rw [toList_ofLines, List.flatMap_map]

theorem toList_ofLines_flatMap {α : Type} (f : α → List String) (xs : List α) :
    (ofLines (xs.flatMap f)).toList = xs.flatMap fun x => (ofLines (f x)).toList := by
  simp only [toList_ofLines, List.flatMap_assoc]

/-- What is written in lines without line feeds has these lines, and an empty one at the end. -/
theorem hasLines_ofLines {lines : List String} (h : ∀ line ∈ lines, '\n' ∉ line.toList) :
    HasLines (ofLines lines).toList (lines.map (·.toList) ++ [[]]) := by
  induction lines with
  | nil =>
    rw [toList_ofLines_nil]
    exact .last List.not_mem_nil
  | cons line lines ih =>
    obtain ⟨hline, hlines⟩ := List.forall_mem_cons.1 h
    rw [toList_ofLines_cons]
    exact .more hline (ih hlines)

end BootImage.Text
