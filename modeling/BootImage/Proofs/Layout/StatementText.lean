import BootImage.Layout.Script
import BootImage.Proofs.Text.ReadOff

/-! What a statement shows in a script.

    Where names and patterns are words, each statement starts with a word, and what follows the word
    says of which kind it is: a symbol, an alignment, a gap or a rule. Patterns end at the blank
    before the next one or at a parenthesis. So a statement can be told from its text, also with
    more behind it: `readOff_statement`.

        __end__ = .;     . = ALIGN(4);     . += 0x10;     KEEP(*(SORT_BY_NAME(.init_array.*)))
        word             word              word           word                            -/

namespace BootImage

open Text

/-! ### Patterns -/

/-- The name of the ordering, which stands before the pattern. -/
def Order.keyword : Order → String
  | .listed => ""
  | .byName => "SORT_BY_NAME"
  | .byPriority => "SORT_BY_INIT_PRIORITY"

theorem Order.isWord_keyword (order : Order) : IsWord order.keyword.toList := by
  cases order <;> decide

theorem Order.keyword_inj {o o' : Order} (h : o.keyword = o'.keyword) : o = o' := by
  have htext := congrArg String.toList h
  cases o <;> cases o' <;> simp [keyword] at htext ⊢

/-- A pattern stands alone, or in parentheses behind the name of an ordering. -/
theorem Order.toList_wrap (order : Order) (pattern : String) : (order.wrap pattern).toList =
    if order = .listed then pattern.toList
    else order.keyword.toList ++ ("(".toList ++ (pattern.toList ++ ")".toList)) := by
  unfold wrap
  cases order <;> simp [keyword, toString]

/-- What stands behind a pattern: the next one, or the end of the list. -/
def BehindPattern (text : List Char) : Prop := Starts ' ' text ∨ Starts ')' text

theorem BehindPattern.breaks {text : List Char} (h : BehindPattern text) : Breaks text := by
  intro c hc
  obtain h | h := h <;> rw [Starts] at h <;> rw [h, Option.mem_some_iff] at hc <;> rw [← hc] <;> rfl

theorem readOff_wrap : ReadOff (fun x : Order × String => IsWord x.2.toList) BehindPattern id
    fun x => (x.1.wrap x.2).toList := by
  -- a pattern that stands alone is not followed by a parenthesis
  have hmixed : ∀ {p : String} {o : Order} {r t : List Char}, IsWord p.toList → BehindPattern r →
      p.toList ++ r ≠ o.keyword.toList ++ ("(".toList ++ t) := by
    intro p o r t hp hr heq
    obtain ⟨-, hbehind⟩ := readOff_word hp o.isWord_keyword hr.breaks
      (breaks_append (by decide) _) heq
    rw [hbehind, BehindPattern] at hr
    simp at hr
  rintro ⟨o, p⟩ ⟨o', q⟩ hp hq r s hr hs h
  simp only [Order.toList_wrap] at h
  split at h <;> split at h
  · next ho ho' =>
    obtain ⟨hpattern, hrest⟩ := readOff_name hp hq hr.breaks hs.breaks h
    exact ⟨Prod.ext (ho.trans ho'.symm) hpattern, hrest⟩
  · rw [List.append_assoc, List.append_assoc] at h
    exact absurd h (hmixed hp hr)
  · rw [List.append_assoc, List.append_assoc] at h
    exact absurd h.symm (hmixed hq hs)
  · simp only [List.append_assoc] at h
    obtain ⟨hkeyword, h⟩ := readOff_name o.isWord_keyword o'.isWord_keyword
      (breaks_append (by decide) _) (breaks_append (by decide) _) h
    obtain ⟨hpattern, h⟩ := readOff_name hp hq (breaks_append (by decide) _)
      (breaks_append (by decide) _) (List.append_cancel_left h)
    exact ⟨Prod.ext (Order.keyword_inj hkeyword) hpattern, List.append_cancel_left h⟩

/-- Patterns with their orderings, a blank before each but the first. -/
def spaced : List (Order × String) → List Char
  | [] => []
  | x :: xs => (x.1.wrap x.2).toList ++ xs.flatMap fun y => ' ' :: (y.1.wrap y.2).toList

theorem toList_intercalate_wrap (order : Order) (patterns : List String) :
    (" ".intercalate (patterns.map order.wrap)).toList = spaced (patterns.map (order, ·)) := by
  have hcons : ∀ (x : String) (xs : List String), (" ".intercalate (x :: xs)).toList =
      x.toList ++ xs.flatMap fun y => ' ' :: y.toList := by
    intro x xs
    induction xs generalizing x with
    | nil => simp
    | cons y ys ih => simp [ih]
  cases patterns with
  | nil => simp [spaced]
  | cons p ps =>
    rw [List.map_cons, hcons, List.map_cons, spaced, List.flatMap_map, List.flatMap_map]

theorem readOff_spaced : ReadOff (fun xs => xs ≠ [] ∧ ∀ x ∈ xs, IsWord x.2.toList)
    (Starts ')') id spaced := by
  have hnext : ReadOff (fun x : Order × String => IsWord x.2.toList) BehindPattern id
      fun x => ' ' :: (x.1.wrap x.2).toList :=
    fun x y hx hy r s hr hs h => readOff_wrap hx hy hr hs (List.tail_eq_of_cons_eq h)
  have hmore := hnext.flatMap (fun _ _ _ => .inl rfl) (fun _ => .inr) (by simp)
  have hbehind : ∀ (xs : List (Order × String)) (r : List Char), Starts ')' r →
      BehindPattern (xs.flatMap (fun y => ' ' :: (y.1.wrap y.2).toList) ++ r) := by
    rintro (_ | ⟨x, xs⟩) r hr
    · exact .inr hr
    · exact .inl rfl
  rintro (_ | ⟨x, xs⟩) (_ | ⟨y, ys⟩) ⟨hne, hx⟩ ⟨hne', hy⟩ r s hr hs h
  iterate 3 contradiction
  rw [spaced, spaced, List.append_assoc, List.append_assoc] at h
  obtain ⟨hx, hxs⟩ := List.forall_mem_cons.1 hx
  obtain ⟨hy, hys⟩ := List.forall_mem_cons.1 hy
  obtain ⟨hfirst, h⟩ := readOff_wrap hx hy (hbehind xs r hr) (hbehind ys s hs) h
  obtain ⟨hrest, h⟩ := hmore hxs hys hr hs h
  rw [List.map_id, List.map_id] at hrest
  exact ⟨congrArg₂ List.cons hfirst hrest, h⟩

/-! ### Statements -/

/-- The patterns are words, and there are some. -/
def InputRule.IsPlain (rule : InputRule) : Prop :=
  rule.patterns ≠ [] ∧ ∀ p ∈ rule.patterns, IsWord p.toList

/-- All names and patterns of the statement are words. -/
def Statement.IsPlain : Statement → Prop
  | .symbol name => IsWord name.toList
  | .align _ | .reserve _ => True
  | .input rule => rule.IsPlain

instance (rule : InputRule) : Decidable rule.IsPlain :=
  inferInstanceAs (Decidable (_ ∧ _))

instance : (st : Statement) → Decidable st.IsPlain
  | .symbol name => inferInstanceAs (Decidable (IsWord name.toList))
  | .align _ => .isTrue trivial
  | .reserve _ => .isTrue trivial
  | .input rule => inferInstanceAs (Decidable rule.IsPlain)

/-- The word with which the statement of a rule starts. -/
def InputRule.lead (rule : InputRule) : String := if rule.keep then "KEEP" else "*"

/-- What stands behind that word. -/
def InputRule.tail (rule : InputRule) : List Char :=
  "(".toList ++ ((if rule.keep then "*(" else "").toList ++
    (spaced (rule.patterns.map (rule.order, ·)) ++ ')' :: (if rule.keep then ")" else "").toList))

/-- The word with which the statement starts. -/
def Statement.lead : Statement → String
  | .symbol name => name
  | .align _ | .reserve _ => "."
  | .input rule => rule.lead

/-- What stands behind that word, and says of which kind the statement is. -/
def Statement.tail : Statement → List Char
  | .symbol _ => " = .;".toList
  | .align alignment => " = ALIGN(".toList ++ (Nat.toDigits 10 alignment.toNat ++ ");".toList)
  | .reserve size => " += 0x".toList ++ (Nat.toDigits 16 size.toNat ++ ";".toList)
  | .input rule => rule.tail

theorem InputRule.toList_text (rule : InputRule) :
    rule.text.toList = rule.lead.toList ++ rule.tail := by
  unfold text lead tail
  dsimp only
  rw [← toList_intercalate_wrap]
  cases rule.keep <;> simp [toString]

theorem Statement.toList_text (st : Statement) : st.text.toList = st.lead.toList ++ st.tail := by
  unfold text lead tail
  cases st with
  | symbol name => simp [toString]
  | align alignment => simp [toString, Nat.toList_repr]
  | reserve size => simp [toString, Number.hex, Number.hexDigits]
  | input rule => exact rule.toList_text

theorem Statement.IsPlain.isWord_lead {st : Statement} (h : st.IsPlain) :
    IsWord st.lead.toList := by
  have hdot : IsWord ".".toList := by decide
  cases st with
  | symbol name => exact h
  | align alignment => exact hdot
  | reserve size => exact hdot
  | input rule =>
    change IsWord (if rule.keep then "KEEP" else "*").toList
    split <;> decide

theorem Statement.breaks_tail (st : Statement) (rest : List Char) : Breaks (st.tail ++ rest) :=
  breaks_append (by cases st <;> rfl) rest

/-- No statement starts with the brace that ends a section. -/
theorem Statement.IsPlain.not_starts_text {st : Statement} (h : st.IsPlain) (rest : List Char) :
    ¬ Starts '\x7d' (st.text.toList ++ rest) := by
  rw [toList_text, List.append_assoc]
  refine h.isWord_lead.not_starts_append (by decide) ?_
  unfold tail InputRule.tail
  cases st <;> simp

/-- A rule is read off behind its first word, which says whether the inputs are kept. -/
theorem InputRule.eq_of_tail {p q : InputRule} (hp : p.IsPlain) (hq : q.IsPlain)
    (hlead : p.lead = q.lead) {r s : List Char} (h : p.tail ++ r = q.tail ++ s) :
    p = q ∧ r = s := by
  have hkeep : p.keep = q.keep := by
    unfold lead at hlead
    cases hp : p.keep <;> cases hq : q.keep <;> simp_all
  simp only [tail, hkeep, List.append_assoc, List.cons_append] at h
  obtain ⟨hasked, h⟩ := readOff_spaced ⟨by simpa using hp.1, by simpa using hp.2⟩
    ⟨by simpa using hq.1, by simpa using hq.2⟩ (starts_cons.2 rfl) (starts_cons.2 rfl)
    (List.append_cancel_left (List.append_cancel_left h))
  refine ⟨?_, List.append_cancel_left (List.tail_eq_of_cons_eq h)⟩
  -- the patterns with their ordering tell both, as there is at least one
  have hpatterns : p.patterns = q.patterns := by
    simpa [Function.comp_def] using congrArg (List.map Prod.snd) hasked
  have horder : p.order = q.order := by
    obtain ⟨x, xs, hxs⟩ := List.exists_cons_of_ne_nil hp.1
    rw [id, id, ← hpatterns, hxs, List.map_cons, List.map_cons] at hasked
    exact (Prod.mk.inj (List.cons.inj hasked).1).1
  cases p
  cases q
  simp_all

theorem readOff_statement :
    ReadOff Statement.IsPlain (fun _ => True) id fun st => st.text.toList := by
  intro a b ha hb r s _ _ h
  simp only [Statement.toList_text, List.append_assoc] at h
  obtain ⟨hlead, htail⟩ :=
    readOff_name ha.isWord_lead hb.isWord_lead (a.breaks_tail r) (b.breaks_tail s) h
  clear h
  unfold Statement.lead at hlead
  unfold Statement.tail at htail
  -- what follows the word is of one kind; other kinds differ in what they write first
  cases a <;> cases b <;> simp only [List.append_assoc] at htail
  case symbol.symbol m n => exact ⟨congrArg Statement.symbol hlead, List.append_cancel_left htail⟩
  case align.align m n =>
    obtain ⟨hdigits, h⟩ := readOff_toDigits (by decide) (by decide) trivial trivial
      (breaks_append (by decide) _) (breaks_append (by decide) _) (List.append_cancel_left htail)
    exact ⟨congrArg Statement.align (UInt64.toNat_inj.1 hdigits), List.append_cancel_left h⟩
  case reserve.reserve m n =>
    obtain ⟨hdigits, h⟩ := readOff_toDigits (by decide) (by decide) trivial trivial
      (breaks_append (by decide) _) (breaks_append (by decide) _) (List.append_cancel_left htail)
    exact ⟨congrArg Statement.reserve (UInt64.toNat_inj.1 hdigits), List.append_cancel_left h⟩
  case input.input p q =>
    obtain ⟨hrule, hrest⟩ := InputRule.eq_of_tail ha hb hlead htail
    exact ⟨congrArg Statement.input hrule, hrest⟩
  all_goals simp [InputRule.tail] at htail

end BootImage
