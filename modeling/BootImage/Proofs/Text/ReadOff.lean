import BootImage.Proofs.Number

/-! Texts that are read off again.

    A way of writing is read off if what it wrote can be told from the text, also with more behind
    it. Some ways need a condition on what stands behind: a word ends where no character of words
    stands. A list is read off element by element, up to something that starts no element.

        write a ++ rest = write b ++ rest'     -->     a and b show the same, and rest = rest' -/

namespace BootImage.Text

/-- From the front of a text that goes on with `Behind` it can be read off what was written: all
    that `view` shows of it. -/
def ReadOff {α β γ : Type} (P : α → Prop) (Behind : List β → Prop) (view : α → γ)
    (write : α → List β) : Prop :=
  ∀ ⦃a b⦄, P a → P b → ∀ ⦃r s⦄, Behind r → Behind s →
    write a ++ r = write b ++ s → view a = view b ∧ r = s

/-- What is read off is also read off between two fixed texts. -/
theorem ReadOff.between {α β γ : Type} {P : α → Prop} {Behind : List β → Prop} {view : α → γ}
    {write : α → List β} (h : ReadOff P Behind view write) (front back : List β)
    (hback : ∀ r, Behind (back ++ r)) :
    ReadOff P (fun _ => True) view fun a => front ++ (write a ++ back) := by
  intro a b ha hb r s _ _ heq
  simp only [List.append_assoc] at heq
  obtain ⟨hview, hrest⟩ := h ha hb (hback r) (hback s) (List.append_cancel_left heq)
  exact ⟨hview, List.append_cancel_left hrest⟩

/-- Elements one after the other are read off, if each can stand behind the one before, and what
    stands behind the last cannot be taken for one. -/
theorem ReadOff.flatMap {α β γ : Type} {P : α → Prop} {Behind Stop : List β → Prop} {view : α → γ}
    {write : α → List β} (h : ReadOff P Behind view write)
    (hnext : ∀ a, P a → ∀ r, Behind (write a ++ r)) (hstop : ∀ r, Stop r → Behind r)
    (hother : ∀ a, P a → ∀ r, ¬ Stop (write a ++ r)) :
    ReadOff (fun as => ∀ a ∈ as, P a) Stop (List.map view) (List.flatMap write) := by
  intro as bs has hbs r s hr hs heq
  -- what is behind an element: another one, or what stands behind the list
  have hbehind : ∀ cs : List α, (∀ c ∈ cs, P c) → ∀ t, Stop t → Behind (cs.flatMap write ++ t) := by
    intro cs hcs t ht
    cases cs with
    | nil => exact hstop t ht
    | cons c cs =>
      rw [List.flatMap_cons, List.append_assoc]
      exact hnext c (hcs c List.mem_cons_self) _
  induction as generalizing bs with
  | nil =>
    cases bs with
    | nil => exact ⟨rfl, heq⟩
    | cons b bs =>
      rw [List.flatMap_nil, List.nil_append, List.flatMap_cons, List.append_assoc] at heq
      exact absurd (heq ▸ hr) (hother b (hbs b List.mem_cons_self) _)
  | cons a as ih =>
    obtain ⟨ha, has⟩ := List.forall_mem_cons.1 has
    cases bs with
    | nil =>
      rw [List.flatMap_nil, List.nil_append, List.flatMap_cons, List.append_assoc] at heq
      exact absurd (heq ▸ hs) (hother a ha _)
    | cons b bs =>
      obtain ⟨hb, hbs⟩ := List.forall_mem_cons.1 hbs
      rw [List.flatMap_cons, List.flatMap_cons, List.append_assoc, List.append_assoc] at heq
      obtain ⟨hview, hrest⟩ := h ha hb (hbehind as has r hr) (hbehind bs hbs s hs) heq
      obtain ⟨hviews, hrs⟩ := ih has hbs hrest
      exact ⟨congrArg₂ List.cons hview hviews, hrs⟩

/-! ### Words -/

/-- A character of names and patterns. -/
def isPlain (c : Char) : Bool :=
  decide ('0' ≤ c ∧ c ≤ '9') || decide ('a' ≤ c ∧ c ≤ 'z') || decide ('A' ≤ c ∧ c ≤ 'Z') ||
    ['_', '.', '*', '?', '-', '$'].contains c

/-- All characters are those of names and patterns. -/
def IsWord (text : List Char) : Prop := ∀ c ∈ text, isPlain c = true

instance (text : List Char) : Decidable (IsWord text) :=
  decidable_of_iff (text.all isPlain = true) List.all_eq_true

/-- A word does not go on in this text. -/
def Breaks (text : List Char) : Prop := ∀ c ∈ text.head?, isPlain c = false

/-- A text with such a front is no way for a word to go on. -/
theorem breaks_append {front : List Char} (h : front.head?.any (!isPlain ·) = true)
    (rest : List Char) : Breaks (front ++ rest) := by
  cases front with
  | nil => simp at h
  | cons c front => simpa [Breaks] using h

theorem takeWhile_isPlain {w r : List Char} (hw : IsWord w) (hr : Breaks r) :
    (w ++ r).takeWhile isPlain = w := by
  rw [List.takeWhile_append_of_pos hw]
  cases r with
  | nil => simp
  | cons c r =>
    have hc : ¬ isPlain c = true := by simpa [Breaks] using hr
    rw [List.takeWhile_cons_of_neg hc, List.append_nil]

/-- The text starts with this character. -/
def Starts (c : Char) (text : List Char) : Prop := text.head? = some c

@[simp] theorem starts_cons {c d : Char} {text : List Char} : Starts c (d :: text) ↔ d = c := by
  simp [Starts]

theorem starts_append {c : Char} {front : List Char} (h : front.head? = some c)
    (rest : List Char) : Starts c (front ++ rest) := by
  rw [Starts, List.head?_append, h, Option.some_or]

/-- A word in front of a text does not start with a character that is not one of words. -/
theorem IsWord.not_starts_append {w r : List Char} (hw : IsWord w) {c : Char}
    (hc : isPlain c = false) (hr : ¬ Starts c r) : ¬ Starts c (w ++ r) := by
  cases w with
  | nil => exact hr
  | cons d w =>
    intro h
    obtain rfl := starts_cons.1 h
    simp [hw d List.mem_cons_self] at hc

/-- A word is read off where it does not go on. -/
theorem readOff_word : ReadOff IsWord Breaks id fun w => w := by
  intro v w hv hw r s hr hs h
  have hvw : v = w := by rw [← takeWhile_isPlain hv hr, h, takeWhile_isPlain hw hs]
  subst hvw
  exact ⟨rfl, List.append_cancel_left h⟩

theorem readOff_name : ReadOff (fun name : String => IsWord name.toList) Breaks id (·.toList) := by
  intro m n hm hn r s hr hs h
  obtain ⟨heq, hrest⟩ := readOff_word hm hn hr hs h
  exact ⟨String.toList_inj.1 heq, hrest⟩

/-! ### Numbers -/

/-- Digits of any radix are letters or decimal digits. -/
theorem isPlain_of_digit? {radix v : Nat} {c : Char} (h : Number.digit? radix c = some v) :
    isPlain c = true := by
  by_contra hplain
  simp only [isPlain, Bool.or_eq_true, decide_eq_true_eq, not_or] at hplain
  obtain ⟨⟨⟨hdigit, hlower⟩, hupper⟩, -⟩ := hplain
  rw [Number.digit?, if_neg hdigit, if_neg hlower, if_neg hupper] at h
  simp at h

theorem isWord_toDigits {radix : Nat} (hone : 1 < radix) (hradix : radix ≤ 16) (n : Nat) :
    IsWord (Nat.toDigits radix n) := by
  obtain ⟨values, hvalues, -⟩ := Number.exists_digitValues_toDigits hone hradix n
  intro c hc
  obtain ⟨v, hv⟩ := hvalues.exists_digit? c hc
  exact isPlain_of_digit? hv

/-- A number is read off where its digits do not go on. -/
theorem readOff_toDigits {radix : Nat} (hone : 1 < radix) (hradix : radix ≤ 16) :
    ReadOff (fun _ => True) Breaks id (Nat.toDigits radix) := by
  intro m n _ _ r s hr hs h
  obtain ⟨heq, hrest⟩ := readOff_word (isWord_toDigits hone hradix m)
    (isWord_toDigits hone hradix n) hr hs h
  exact ⟨(Number.toDigits_inj hone hradix).1 heq, hrest⟩

end BootImage.Text
