import BootImage.Proofs.Number
import BootImage.Proofs.Text.Blank

/-! The notation of numbers, text by text.

    Every text has one body: what is left of it when the blanks around it, the marker of a
    hexadecimal number and the separators are gone. The body alone decides what is read. It denotes
    a number, or it has no digit, or reading its digits one by one stops at the first that cannot be
    taken, and what stands there is the fault. So a number can be written in many ways and is read
    from each. The main statement is `Number.reads_parse`.

        " 0x1_0g "   radix 16, body "10g"    10 is worth 16, and 'g' is no digit: invalid
        "0X_ff"      radix 16, body "ff"     255
        "_"          radix 10, body ""       empty -/

namespace BootImage.Number

open Text

/-- The text without the sign that may lead it. -/
def unsigned : List Char → List Char
  | '+' :: digits => digits
  | digits => digits

/-- What keeps `c` from being read behind digits that are worth `value`: it is no digit, or with it
    the value does not fit in 64 bits. -/
def Refuses (radix value : Nat) (c : Char) : Fault → Prop
  | .empty => False
  | .invalidDigit => digit? radix c = none
  | .tooLarge => ∃ v, digit? radix c = some v ∧ 2 ^ 64 ≤ value * radix + v

/-- Reading gets as far as some digits that have a value, and what stands behind them is refused. -/
def StopsWith (radix : Nat) (digits : List Char) (fault : Fault) : Prop :=
  ∃ front c rest value, digits = front ++ c :: rest ∧ HasValue radix front value ∧
    Refuses radix value c fault

/-- What is read from a body, case by case. -/
structure Reads (radix : Nat) (body : List Char) (outcome : Except Fault UInt64) : Prop where
  number : ∀ n, outcome = .ok n ↔ Denotes radix body n.toNat
  empty : outcome = .error .empty ↔ body = []
  invalidDigit : outcome = .error .invalidDigit ↔
    body = ['+'] ∨ body = ['-'] ∨ StopsWith radix (unsigned body) .invalidDigit
  tooLarge : outcome = .error .tooLarge ↔ StopsWith radix (unsigned body) .tooLarge

/-- A marker chooses the radix of the digits behind it; without one they are decimal. -/
inductive Marks : List Char → Nat → List Char → Prop where
  | lower (digits : List Char) : Marks ('0' :: 'x' :: digits) 16 digits
  | upper (digits : List Char) : Marks ('0' :: 'X' :: digits) 16 digits
  | none {digits : List Char} : ¬ ['0', 'x'] <+: digits → ¬ ['0', 'X'] <+: digits →
    Marks digits 10 digits

/-- The body of a text: trimmed, without its marker and without separators. -/
def HasBody (text : List Char) (radix : Nat) (body : List Char) : Prop :=
  ∃ inner digits, Trims text inner ∧ Marks inner radix digits ∧ body = digits.filter (· != '_')

/-- The characters are the digits of `n`, with zeros in front of them at will, letters as capitals
    at will, and separators anywhere. -/
def Writes (radix n : Nat) (text : List Char) : Prop :=
  ∃ zeros, List.Forall₂ (fun c d => c = d ∨ c = d.toUpper) (text.filter (· != '_'))
    (List.replicate zeros '0' ++ Nat.toDigits radix n)

/-- The text is a way to write `n`: its digits with blanks around them, and a marker in front of
    them if they are hexadecimal. -/
inductive Renders (n : Nat) : List Char → Prop where
  | decimal {front digits back : List Char} : IsGap front → IsGap back → Writes 10 n digits →
    Renders n (front ++ (digits ++ back))
  | hexadecimal {front digits back : List Char} {x : Char} : IsGap front → IsGap back →
    x = 'x' ∨ x = 'X' → Writes 16 n digits → Renders n (front ++ ('0' :: x :: digits ++ back))

variable {radix value n v : Nat} {digits text body inner : List Char} {c : Char} {fault : Fault}

/-! ### Single digits -/

/-- The digits of a radix, and their capitals. -/
theorem digit?_eq_some_iff (hradix : radix ≤ 16) : digit? radix c = some v ↔
    v < radix ∧ (c = Nat.digitChar v ∨ c = (Nat.digitChar v).toUpper) := by
  constructor
  · intro h
    have hlt : v < radix := lt_of_digit? h
    refine ⟨hlt, ?_⟩
    rw [digit?, Option.ite_none_right_eq_some, Option.some.injEq] at h
    obtain ⟨-, hv⟩ := h
    -- in each of the three ranges, the value gives the character back
    have hc : c.toNat = v + 48 ∧ v < 10 ∨ c.toNat = v + 87 ∧ 10 ≤ v ∨
        c.toNat = v + 55 ∧ 10 ≤ v := by
      split_ifs at hv with hdigit hlower hupper
      · have hlow : 48 ≤ c.toNat := hdigit.1
        have hhigh : c.toNat ≤ 57 := hdigit.2
        have : '0'.toNat = 48 := rfl
        omega
      · have hlow : 97 ≤ c.toNat := hlower.1
        have : 'a'.toNat = 97 := rfl
        omega
      · have hlow : 65 ≤ c.toNat := hupper.1
        have : 'A'.toNat = 65 := rfl
        omega
      · omega
    have hv16 : v < 16 := Nat.lt_of_lt_of_le hlt hradix
    clear hv
    rcases hc with ⟨hc, hv⟩ | ⟨hc, hv⟩ | ⟨hc, hv⟩
    · left
      rw [← Char.toNat_inj, hc, Nat.toNat_digitChar_of_lt_ten hv, Nat.add_comm]
    · left
      interval_cases v <;> exact Char.toNat_inj.1 hc
    · right
      interval_cases v <;> exact Char.toNat_inj.1 hc
  · rintro ⟨hlt, rfl | rfl⟩
    · exact digit?_digitChar hradix hlt
    · have hv16 : v < 16 := Nat.lt_of_lt_of_le hlt hradix
      interval_cases v <;> exact if_pos hlt

/-- No digit is a blank. -/
theorem isBlank_of_digit? (hradix : radix ≤ 16) (h : digit? radix c = some v) :
    isBlank c = false := by
  obtain ⟨hlt, hc⟩ := (digit?_eq_some_iff hradix).1 h
  have hv16 : v < 16 := Nat.lt_of_lt_of_le hlt hradix
  rcases hc with rfl | rfl <;> interval_cases v <;> rfl

/-- The separator is no digit. -/
theorem digit?_separator (radix : Nat) : digit? radix '_' = none :=
  if_neg (Nat.lt_irrefl radix)

/-! ### Where reading stops -/

/-- Behind digits that are worth `value`, reading stops because of the fault. -/
def StopsFrom (radix value : Nat) (digits : List Char) (fault : Fault) : Prop :=
  ∃ front c rest w, digits = front ++ c :: rest ∧ ExtendsTo radix value front w ∧
    Refuses radix w c fault

theorem stopsWith_iff : StopsWith radix digits fault ↔ StopsFrom radix 0 digits fault := by
  simp only [StopsWith, StopsFrom, hasValue_iff_extendsTo]

theorem extendsTo_nil_iff : ExtendsTo radix value [] n ↔ n = value ∧ n < 2 ^ 64 := by
  simp [ExtendsTo, DigitValues, extend]

theorem ExtendsTo.exists_digit? (h : ExtendsTo radix value (c :: digits) n) :
    ∃ v, digit? radix c = some v := by
  obtain ⟨values, hvalues, -⟩ := h
  exact hvalues.exists_digit? c List.mem_cons_self

theorem refuses_of_none (hc : digit? radix c = none) :
    Refuses radix value c fault ↔ fault = .invalidDigit := by
  cases fault <;> simp [Refuses, hc]

theorem refuses_of_some (hc : digit? radix c = some v) :
    Refuses radix value c fault ↔ fault = .tooLarge ∧ 2 ^ 64 ≤ value * radix + v := by
  cases fault <;> simp [Refuses, hc]

theorem not_stopsFrom_nil : ¬ StopsFrom radix value [] fault := by
  rintro ⟨front, c, rest, w, heq, -⟩
  simp at heq

/-- Reading stops at the first character, or it takes that and stops later. -/
theorem stopsFrom_cons_iff : StopsFrom radix value (c :: digits) fault ↔
    value < 2 ^ 64 ∧ Refuses radix value c fault ∨
      ∃ v, digit? radix c = some v ∧ StopsFrom radix (value * radix + v) digits fault := by
  constructor
  · rintro ⟨front, d, rest, w, heq, hext, hrefuses⟩
    cases front with
    | nil =>
      obtain ⟨rfl, rfl⟩ := List.cons.inj heq
      obtain ⟨rfl, hlt⟩ := extendsTo_nil_iff.1 hext
      exact .inl ⟨hlt, hrefuses⟩
    | cons e front =>
      obtain ⟨rfl, rfl⟩ := List.cons.inj heq
      obtain ⟨v, hv⟩ := hext.exists_digit?
      exact .inr ⟨v, hv, front, d, rest, w, rfl, (extendsTo_cons_iff hv).1 hext, hrefuses⟩
  · rintro (⟨hlt, hrefuses⟩ | ⟨v, hv, front, d, rest, w, rfl, hext, hrefuses⟩)
    · exact ⟨[], c, digits, value, rfl, extendsTo_nil_iff.2 ⟨rfl, hlt⟩, hrefuses⟩
    · exact ⟨c :: front, d, rest, w, rfl, (extendsTo_cons_iff hv).2 hext, hrefuses⟩

theorem not_stopsFrom_of_le (hradix : 0 < radix) (hvalue : 2 ^ 64 ≤ value) :
    ¬ StopsFrom radix value digits fault := by
  rintro ⟨front, c, rest, w, -, hext, -⟩
  exact not_extendsTo_of_le hradix hvalue hext

/-- Digits are read up to where reading them one by one stops. -/
theorem readDigits_eq_error_iff (hvalue : value < 2 ^ 64) :
    readDigits radix digits value = .error fault ↔ StopsFrom radix value digits fault := by
  induction digits generalizing value with
  | nil => simp [readDigits, not_stopsFrom_nil]
  | cons c digits ih =>
    rw [readDigits, stopsFrom_cons_iff]
    cases hc : digit? radix c with
    | none =>
      rw [refuses_of_none hc, and_iff_right hvalue]
      simp [eq_comm]
    | some v =>
      rw [refuses_of_some hc, and_iff_right hvalue]
      dsimp only
      split_ifs with hfits
      · -- the digit is taken, so reading stops later if at all
        have htaken : ¬ (fault = .tooLarge ∧ 2 ^ 64 ≤ value * radix + v) :=
          fun h => absurd hfits (Nat.not_lt.2 h.2)
        rw [ih hfits, or_iff_right htaken]
        simp
      · have hlarge : 2 ^ 64 ≤ value * radix + v := Nat.not_lt.1 hfits
        have hlater : ¬ StopsFrom radix (value * radix + v) digits fault :=
          not_stopsFrom_of_le (Nat.zero_lt_of_lt (lt_of_digit? hc)) hlarge
        rw [and_iff_left hlarge]
        simp [hlater, eq_comm]

theorem unsigned_of_ne_plus (h : ∀ digits, text ≠ '+' :: digits) : unsigned text = text := by
  rw [unsigned.eq_def]
  split
  · next digits => exact absurd rfl (h digits)
  · rfl

/-- What keeps a text from being read: it is empty, or a sign alone, or reading its digits stops. -/
theorem readUnsigned_eq_error_iff : readUnsigned radix text = .error fault ↔
    text = [] ∧ fault = .empty ∨ text = ['+'] ∧ fault = .invalidDigit ∨
      StopsWith radix (unsigned text) fault := by
  rw [stopsWith_iff, readUnsigned.eq_def]
  split
  · simp [unsigned, not_stopsFrom_nil, eq_comm]
  · simp [unsigned, not_stopsFrom_nil, eq_comm]
  · next digits hne =>
    have hsign : digits ≠ [] := hne
    rw [readDigits_eq_error_iff (by decide)]
    simp [unsigned, hsign]
  · next hne hsign hplus =>
    rw [readDigits_eq_error_iff (by decide), unsigned_of_ne_plus hplus]
    rw [or_iff_right fun h => hne h.1, or_iff_right fun h => hsign h.1]

/-! ### Bodies -/

/-- Markers are taken for what they are. -/
theorem splitRadix_eq_iff : splitRadix text = (radix, digits) ↔ Marks text radix digits := by
  constructor
  · intro h
    rw [splitRadix.eq_def] at h
    split at h
    · obtain ⟨rfl, rfl⟩ := Prod.mk.inj h
      exact .lower _
    · obtain ⟨rfl, rfl⟩ := Prod.mk.inj h
      exact .upper _
    · next hlower hupper =>
      obtain ⟨rfl, rfl⟩ := Prod.mk.inj h
      refine .none ?_ ?_
      · rintro ⟨rest, rfl⟩
        exact hlower rest rfl
      · rintro ⟨rest, rfl⟩
        exact hupper rest rfl
  · rintro (_ | _ | ⟨hlower, hupper⟩)
    · rfl
    · rfl
    · rw [splitRadix.eq_def]
      split
      · next rest => exact absurd ⟨rest, rfl⟩ hlower
      · next rest => exact absurd ⟨rest, rfl⟩ hupper
      · rfl

theorem exists_hasBody (text : List Char) : ∃ radix body, HasBody text radix body :=
  ⟨_, _, _, _, trim_eq_iff.1 rfl, splitRadix_eq_iff.1 rfl, rfl⟩

/-- The body decides what is read. -/
theorem parse_of_hasBody (h : HasBody text radix body) :
    parse text = (readUnsigned radix body).map UInt64.ofNat := by
  obtain ⟨inner, digits, htrim, hmarks, rfl⟩ := h
  rw [parse, trim_eq_iff.2 htrim, splitRadix_eq_iff.2 hmarks]

theorem Denotes.lt (h : Denotes radix text n) : n < 2 ^ 64 := by
  obtain ⟨digits, -, -, values, -, -, hlt⟩ := h
  exact hlt

theorem parse_eq_ok_iff (h : HasBody text radix body) (n : UInt64) :
    parse text = .ok n ↔ Denotes radix body n.toNat := by
  rw [parse_of_hasBody h, ← readUnsigned_eq_ok_iff]
  cases hread : readUnsigned radix body with
  | error fault => simp [Except.map]
  | ok m =>
    have hlt : m < 2 ^ 64 := (readUnsigned_eq_ok_iff.1 hread).lt
    rw [Except.map, Except.ok.injEq, Except.ok.injEq, ← UInt64.toNat_inj,
      UInt64.toNat_ofNat_of_lt' hlt]

theorem parse_eq_error_iff (h : HasBody text radix body) :
    parse text = .error fault ↔ readUnsigned radix body = .error fault := by
  rw [parse_of_hasBody h]
  cases readUnsigned radix body <;> simp [Except.map]

/-- A minus sign stops reading at once. -/
theorem stopsWith_minus (radix : Nat) : StopsWith radix (unsigned ['-']) .invalidDigit :=
  ⟨[], '-', [], 0, rfl, ⟨[], .nil, rfl, by decide⟩, if_neg (Nat.lt_irrefl radix)⟩

/-- The body is read case by case. -/
theorem reads_of_hasBody (h : HasBody text radix body) : Reads radix body (parse text) where
  number := parse_eq_ok_iff h
  empty := by
    rw [parse_eq_error_iff h, readUnsigned_eq_error_iff]
    simp [StopsWith, Refuses]
  invalidDigit := by
    rw [parse_eq_error_iff h, readUnsigned_eq_error_iff]
    constructor
    · rintro (⟨-, hfault⟩ | ⟨hbody, -⟩ | hstops)
      · cases hfault
      · exact .inl hbody
      · exact .inr (.inr hstops)
    · rintro (hbody | rfl | hstops)
      · exact .inr (.inl ⟨hbody, rfl⟩)
      · exact .inr (.inr (stopsWith_minus radix))
      · exact .inr (.inr hstops)
  tooLarge := by
    rw [parse_eq_error_iff h, readUnsigned_eq_error_iff]
    simp

/-! ### Numbers that are written -/

/-- The digits of the radix are the decimal ones and the letters up to `f`, or some of them. -/
structure IsRadix (radix : Nat) : Prop where
  one_lt : 1 < radix
  le : radix ≤ 16

theorem isRadix_ten : IsRadix 10 := ⟨by decide, by decide⟩

theorem isRadix_sixteen : IsRadix 16 := ⟨by decide, Nat.le_refl 16⟩

/-- A digit or its capital has the value of the digit. -/
theorem digit?_of_capital {d : Char} (hradix : radix ≤ 16) (hc : c = d ∨ c = d.toUpper)
    (hd : digit? radix d = some v) : digit? radix c = some v := by
  obtain ⟨hlt, hdigit⟩ := (digit?_eq_some_iff hradix).1 hd
  refine (digit?_eq_some_iff hradix).2 ⟨hlt, ?_⟩
  rcases hc with rfl | rfl
  · exact hdigit
  · rcases hdigit with rfl | rfl
    · exact .inr rfl
    · have hv16 : v < 16 := Nat.lt_of_lt_of_le hlt hradix
      right
      interval_cases v <;> rfl

theorem digitValues_of_capitals {ds : List Char} {values : List Nat} (hradix : radix ≤ 16)
    (h : List.Forall₂ (fun c d => c = d ∨ c = d.toUpper) digits ds)
    (hds : DigitValues radix ds values) : DigitValues radix digits values := by
  induction h generalizing values with
  | nil => exact hds
  | cons hc _ ih =>
    cases hds with
    | cons hd hrest => exact .cons (digit?_of_capital hradix hc hd) (ih hrest)

theorem digitValues_zeros (hradix : IsRadix radix) (zeros : Nat) :
    DigitValues radix (List.replicate zeros '0') (List.replicate zeros 0) := by
  have hzero : digit? radix '0' = some 0 := if_pos (Nat.zero_lt_of_lt hradix.one_lt)
  induction zeros with
  | zero => exact .nil
  | succ zeros ih => exact .cons hzero ih

/-- However a number is written, the digits have it as their value. -/
theorem Writes.exists_values (hradix : IsRadix radix) (h : Writes radix n text) :
    ∃ values, DigitValues radix (text.filter (· != '_')) values ∧
      n = Nat.ofDigits radix values.reverse := by
  obtain ⟨zeros, hdigits⟩ := h
  obtain ⟨values, hvalues, hn⟩ := exists_digitValues_toDigits hradix.one_lt hradix.le n
  have hall := List.rel_append (digitValues_zeros hradix zeros) hvalues
  refine ⟨List.replicate zeros 0 ++ values, digitValues_of_capitals hradix.le hdigits hall, ?_⟩
  rw [List.reverse_append, List.reverse_replicate, Nat.ofDigits_append_replicate_zero, hn]

theorem Writes.ne_nil (h : Writes radix n text) : text.filter (· != '_') ≠ [] := by
  obtain ⟨zeros, hdigits⟩ := h
  intro hnil
  rw [hnil, List.forall₂_nil_left_iff, List.append_eq_nil_iff] at hdigits
  exact Nat.toDigits_ne_nil hdigits.2

theorem Writes.denotes (hradix : IsRadix radix) (h : Writes radix n text) (hn : n < 2 ^ 64) :
    Denotes radix (text.filter (· != '_')) n := by
  obtain ⟨values, hvalues, hvalue⟩ := h.exists_values hradix
  exact ⟨_, .inl rfl, h.ne_nil, values, hvalues, hvalue, hn⟩

theorem Writes.eq_or_exists_digit? (hradix : IsRadix radix) (h : Writes radix n text)
    (hc : c ∈ text) : c = '_' ∨ ∃ v, digit? radix c = some v := by
  obtain ⟨values, hvalues, -⟩ := h.exists_values hradix
  by_cases hmark : c = '_'
  · exact .inl hmark
  · exact .inr (hvalues.exists_digit? c (List.mem_filter.2 ⟨hc, by simpa using hmark⟩))

theorem Writes.isBlank_eq_false (hradix : IsRadix radix) (h : Writes radix n text) :
    ∀ c ∈ text, isBlank c = false := by
  intro c hc
  rcases h.eq_or_exists_digit? hradix hc with rfl | ⟨v, hv⟩
  · rfl
  · exact isBlank_of_digit? hradix.le hv

/-- The digits of a number on their own are a way to write it. -/
theorem writes_toDigits (hradix : IsRadix radix) (n : Nat) :
    Writes radix n (Nat.toDigits radix n) := by
  obtain ⟨values, hvalues, -⟩ := exists_digitValues_toDigits hradix.one_lt hradix.le n
  have hfilter : (Nat.toDigits radix n).filter (· != '_') = Nat.toDigits radix n := by
    rw [List.filter_eq_self]
    intro c hc
    obtain ⟨v, hv⟩ := hvalues.exists_digit? c hc
    rw [bne_iff_ne]
    rintro rfl
    cases (digit?_separator radix).symm.trans hv
  exact ⟨0, by rw [hfilter]; exact List.forall₂_same.2 fun _ _ => .inl rfl⟩

/-- Decimal digits alone are a way to write the number. -/
theorem Writes.renders (h : Writes 10 n text) : Renders n text := by
  have hrenders := Renders.decimal isGap_nil isGap_nil h
  rwa [List.nil_append, List.append_nil] at hrenders

/-- Hexadecimal digits are a way to write the number behind a marker. -/
theorem Writes.renders_hexadecimal (h : Writes 16 n text) : Renders n ('0' :: 'x' :: text) := by
  have hrenders := Renders.hexadecimal isGap_nil isGap_nil (.inl rfl) h
  rwa [List.nil_append, List.append_nil] at hrenders

/-- Decimal digits do not start like a marker. -/
theorem Writes.marks (h : Writes 10 n text) : Marks text 10 text := by
  have hno : ∀ c, c = 'x' ∨ c = 'X' → ¬ ['0', c] <+: text := by
    rintro c hc ⟨rest, rfl⟩
    have hmem : c ∈ ['0', c] ++ rest := by simp
    rcases h.eq_or_exists_digit? isRadix_ten hmem with rfl | ⟨v, hv⟩
    · simp at hc
    · rcases hc with rfl | rfl <;> cases hv
  exact .none (hno 'x' (.inl rfl)) (hno 'X' (.inr rfl))

/-- However a number is written, it is what the body of the text denotes. -/
theorem Renders.exists_denotes (h : Renders n text) (hn : n < 2 ^ 64) :
    ∃ radix body, HasBody text radix body ∧ Denotes radix body n := by
  cases h with
  | decimal hfront hback hdigits =>
    have htrims := trims_of_forall hfront hback (hdigits.isBlank_eq_false isRadix_ten)
    exact ⟨10, _, ⟨_, _, htrims, hdigits.marks, rfl⟩, hdigits.denotes isRadix_ten hn⟩
  | @hexadecimal front digits back x hfront hback hx hdigits =>
    have hblank : ∀ c ∈ '0' :: x :: digits, isBlank c = false := by
      have hrest := hdigits.isBlank_eq_false isRadix_sixteen
      rcases hx with rfl | rfl <;>
        exact List.forall_mem_cons.2 ⟨rfl, List.forall_mem_cons.2 ⟨rfl, hrest⟩⟩
    have hmarks : Marks ('0' :: x :: digits) 16 digits := by
      rcases hx with rfl | rfl
      · exact .lower digits
      · exact .upper digits
    exact ⟨16, _, ⟨_, _, trims_of_forall hfront hback hblank, hmarks, rfl⟩,
      hdigits.denotes isRadix_sixteen hn⟩

/-- A number is read from each way to write it. -/
theorem parse_of_renders {n : UInt64} (h : Renders n.toNat text) : parse text = .ok n := by
  obtain ⟨radix, body, hbody, hdenotes⟩ := h.exists_denotes n.toNat_lt
  exact (parse_eq_ok_iff hbody n).2 hdenotes

/-- Every text has a body. The number that the body denotes is read, and otherwise the fault is the
    one that its digits show: there is none, the first that cannot be read is no digit, or it takes
    the value past 64 bits. In particular each way to write a number is read as that number. -/
theorem reads_parse (text : List Char) :
    (∃ radix body, HasBody text radix body) ∧
      (∀ radix body, HasBody text radix body → Reads radix body (parse text)) ∧
      ∀ n : UInt64, Renders n.toNat text → parse text = .ok n :=
  ⟨exists_hasBody text, fun _ _ => reads_of_hasBody, fun _ => parse_of_renders⟩

/-- A number with each freedom of its notation, and digits that take the value past 64 bits before a
    character that is no digit. -/
theorem reads_parse_overflow :
    let written := [' ', '0', 'X', '_', '0', 'f', 'F', '\t']
    let long := List.replicate 20 '9' ++ ['x']
    Renders (255 : UInt64).toNat written ∧ parse written = .ok 255 ∧
      HasBody long 10 long ∧ StopsWith 10 long .tooLarge := by
  intro written long
  have hwritten : Renders (255 : UInt64).toNat written :=
    @Renders.hexadecimal _ [' '] ['_', '0', 'f', 'F'] ['\t'] 'X' (by decide) (by decide) (.inr rfl)
      ⟨1, .cons (.inl rfl) (.cons (.inl rfl) (.cons (.inr rfl) .nil))⟩
  have hlong : HasBody long 10 long :=
    ⟨long, long, trim_eq_iff.1 (by decide +kernel), .none (by decide) (by decide), by decide⟩
  have hparse : parse long = .error .tooLarge := by decide +kernel
  exact ⟨hwritten, (reads_parse written).2.2 255 hwritten, hlong,
    ((reads_parse long).2.1 10 long hlong).tooLarge.1 hparse⟩

end BootImage.Number
