import BootImage.Proofs.LinkMap.Conservation
import BootImage.Proofs.Number
import BootImage.Proofs.Text.ByteOrder
import Mathlib

/-! The order in which inputs are placed.

    A section places what its rules take, one rule after the other, and each rule has its order: as
    listed, by the bytes of the name, or by the number that ends the name. Sorting is stable, so
    inputs that the order does not tell apart stay as they were listed. What else a section has,
    symbols, alignment and gaps, does not matter here. The main statement is
    `Layout.arranged_of_link`.

    A name that ends in no number counts as if it ended in the largest of 64 bits. So it comes after
    every smaller number, and is not told apart from that largest one.

        listed   .init_array   .init_array.late   .init_array.200    .init_array.100
        placed   .init_array.100   .init_array.200    .init_array.late   .init_array -/

namespace BootImage

/-! ### Stable sorting -/

/-- The list is sorted by a key, and elements with the same key stand as they stood before. -/
structure StablySorted {α κ : Type} [LE κ] [DecidableEq κ] (key : α → κ) (before after : List α) :
    Prop where
  perm : after.Perm before
  ordered : after.Pairwise fun a b => key a ≤ key b
  stable : ∀ k, (after.filter fun a => key a = k) = before.filter fun a => key a = k

/-- Merging sorts stably. -/
theorem stablySorted_mergeSort {α κ : Type} [LE κ] [DecidableEq κ] [Std.IsLinearPreorder κ]
    {key : α → κ} {le : α → α → Bool} (hle : ∀ a b, le a b = true ↔ key a ≤ key b) (l : List α) :
    StablySorted key l (l.mergeSort le) := by
  have htrans : ∀ a b c, le a b = true → le b c = true → le a c = true := by
    intro a b c hab hbc
    exact (hle a c).2 (Std.le_trans ((hle a b).1 hab) ((hle b c).1 hbc))
  have htotal : ∀ a b, (le a b || le b a) = true := by
    intro a b
    rw [Bool.or_eq_true, hle, hle]
    exact Std.le_total
  have hperm : (l.mergeSort le).Perm l := List.mergeSort_perm l le
  refine ⟨hperm, ?_, ?_⟩
  · exact (List.pairwise_mergeSort htrans htotal l).imp (hle _ _).1
  · intro k
    -- the elements with one key are in order already, so they are found in order again
    have hkey : (l.filter fun a => key a = k).Pairwise fun a b => le a b = true := by
      refine List.pairwise_of_forall_mem_list fun a ha b hb => ?_
      have ha : key a = k := by simpa using (List.mem_filter.1 ha).2
      have hb : key b = k := by simpa using (List.mem_filter.1 hb).2
      rw [hle, ha, hb]
      exact Std.le_refl k
    have hsub := (List.sublist_mergeSort htrans htotal hkey List.filter_sublist).filter
      fun a => key a = k
    rw [List.filter_filter] at hsub
    simp only [Bool.and_self] at hsub
    exact (hsub.eq_of_length (hperm.filter _).length_eq.symm).symm

/-- Of two sorted lists, one that has a part of the other under every key is a part of it. -/
theorem sublist_of_forall_key {α κ : Type} [LE κ] [DecidableEq κ] [Std.IsLinearOrder κ]
    {key : α → κ} : ∀ {l l' : List α}, (l.Pairwise fun a b => key a ≤ key b) →
      (l'.Pairwise fun a b => key a ≤ key b) →
        (∀ k, (l'.filter fun a => key a = k).Sublist (l.filter fun a => key a = k)) → l'.Sublist l
  | _, [], _, _, _ => List.nil_sublist _
  | [], y :: l', _, _, hkeys => by
    have h := hkeys (key y)
    simp at h
  | x :: l, y :: l', hl, hl', hkeys => by
    obtain ⟨hx, htail⟩ := List.pairwise_cons.1 hl
    obtain ⟨hy, hrest⟩ := List.pairwise_cons.1 hl'
    -- without `x`, the list still has all that stands under the other keys
    have hdrop (h : ((y :: l').filter fun a => key a = key x).Sublist
        (l.filter fun a => key a = key x)) : (y :: l').Sublist (x :: l) := by
      refine .cons x (sublist_of_forall_key htail hl' fun k => ?_)
      by_cases hk : key x = k
      · exact hk ▸ h
      · simpa [List.filter_cons, hk] using hkeys k
    by_cases hxy : key y = key x
    · have h := hkeys (key x)
      rw [List.filter_cons_of_pos (by simpa using hxy), List.filter_cons_of_pos (by simp),
        List.cons_sublist_cons'] at h
      rcases h with h | ⟨rfl, h⟩
      · exact hdrop (by rwa [List.filter_cons_of_pos (by simpa using hxy)])
      · refine .cons_cons y (sublist_of_forall_key htail hrest fun k => ?_)
        by_cases hk : key y = k
        · exact hk ▸ h
        · simpa [List.filter_cons, hk] using hkeys k
    · have hmem : y ∈ x :: l := (List.mem_filter.1 ((hkeys (key y)).subset (by simp))).1
      have hle : key x ≤ key y :=
        hx y ((List.mem_cons.1 hmem).resolve_left fun h => hxy (congrArg key h))
      -- nothing stands under the key of `x`, which is below that of the first element
      have hnone : ((y :: l').filter fun a => key a = key x) = [] := by
        refine List.filter_eq_nil_iff.2 fun z hz heq => hxy ?_
        rw [decide_eq_true_iff] at heq
        rcases List.mem_cons.1 hz with rfl | hz
        · exact heq
        · exact Std.le_antisymm (heq ▸ hy z hz) hle
      exact hdrop (hnone ▸ List.nil_sublist _)

/-- Stable sorting keeps parts: a list with a part of another under every key, sorted, is a part of
    the other, sorted. -/
theorem StablySorted.sublist {α κ : Type} [LE κ] [DecidableEq κ] [Std.IsLinearOrder κ] {key : α → κ}
    {l l' after after' : List α} (h : StablySorted key l after) (h' : StablySorted key l' after')
    (hkeys : ∀ k, (l'.filter fun a => key a = k).Sublist (l.filter fun a => key a = k)) :
    after'.Sublist after :=
  sublist_of_forall_key h.ordered h'.ordered fun k => by
    rw [h.stable, h'.stable]
    exact hkeys k

/-- What an order makes of inputs, with a rank for names that are ordered by priority. -/
def Order.Arranges {κ : Type} [LE κ] [DecidableEq κ] (rank : String → κ) :
    Order → List Input → List Input → Prop
  | .listed, before, after => after = before
  | .byName, before, after => StablySorted (Text.encode ·.name) before after
  | .byPriority, before, after => StablySorted (rank ·.name) before after

/-- Every order arranges, if ranks compare as priorities do. -/
theorem Order.arranges_arrange {κ : Type} [LE κ] [DecidableEq κ] [Std.IsLinearPreorder κ]
    {rank : String → κ} (hrank : ∀ a b, priority a ≤ priority b ↔ rank a ≤ rank b) (o : Order)
    (inputs : List Input) : o.Arranges rank inputs (o.arrange inputs) := by
  cases o with
  | listed => rfl
  | byName =>
    refine stablySorted_mergeSort (fun a b => ?_) inputs
    rw [decide_eq_true_iff, Text.encode_le_encode_iff]
  | byPriority =>
    refine stablySorted_mergeSort (fun a b => ?_) inputs
    rw [decide_eq_true_iff, hrank]

/-! ### The number that ends a name -/

/-- After the last dot of the name stands a number of 64 bits. -/
def EndsInNumber (name : String) (n : Nat) : Prop :=
  ∃ stem suffix, name.toList = stem ++ '.' :: suffix ∧ '.' ∉ suffix ∧ Number.Denotes 10 suffix n

/-- The function finds the number that ends a name, where there is one. -/
def FindsNumber (number? : String → Option Nat) : Prop :=
  ∀ name n, number? name = some n ↔ EndsInNumber name n

/-- The number that ends a name. -/
def endNumber? (name : String) : Option Nat :=
  match name.toList.reverse.span (· != '.') with
  | (_, []) => none
  | (suffix, _ :: _) => (Number.readUnsigned 10 suffix.reverse).toOption

theorem toNat_priority (name : String) :
    (priority name).toNat = (endNumber? name).getD (2 ^ 64 - 1) := by
  rw [priority, endNumber?]
  rcases name.toList.reverse.span (· != '.') with ⟨suffix, _ | ⟨dot, stem⟩⟩
  · rfl
  · dsimp only
    cases hread : Number.readUnsigned 10 suffix.reverse with
    | error fault => rfl
    | ok n =>
      obtain ⟨_, _, _, _, -, -, hlt⟩ := Number.readUnsigned_eq_ok_iff.1 hread
      exact Nat.mod_eq_of_lt hlt

/-- The number is read from what stands after the last dot. -/
theorem endNumber?_of_split {name : String} {stem suffix : List Char}
    (hname : name.toList = stem ++ '.' :: suffix) (hdot : '.' ∉ suffix) :
    endNumber? name = (Number.readUnsigned 10 suffix).toOption := by
  have hsuffix : ∀ c ∈ suffix.reverse, (c != '.') = true := by
    intro c hc
    rw [bne_iff_ne]
    rintro rfl
    exact hdot (List.mem_reverse.1 hc)
  have hreverse : name.toList.reverse = suffix.reverse ++ '.' :: stem.reverse := by
    rw [hname, List.reverse_append, List.reverse_cons, List.append_assoc, List.singleton_append]
  have hspan : name.toList.reverse.span (· != '.') = (suffix.reverse, '.' :: stem.reverse) := by
    rw [List.span_eq_takeWhile_dropWhile, hreverse, List.takeWhile_append_of_pos hsuffix,
      List.dropWhile_append_of_pos hsuffix]
    simp
  simp only [endNumber?, hspan, List.reverse_reverse]

/-- Without a dot there is no number. -/
theorem endNumber?_of_not_mem {name : String} (hdot : '.' ∉ name.toList) :
    endNumber? name = none := by
  have hname : name.toList.reverse.dropWhile (· != '.') = [] := by
    rw [List.dropWhile_eq_nil_iff]
    intro c hc
    rw [bne_iff_ne]
    rintro rfl
    exact hdot (List.mem_reverse.1 hc)
  rw [endNumber?, List.span_eq_takeWhile_dropWhile, hname]

/-- A text with a dot is split at its last one. -/
theorem exists_split {l : List Char} (hdot : '.' ∈ l) :
    ∃ stem suffix, l = stem ++ '.' :: suffix ∧ '.' ∉ suffix := by
  obtain ⟨suffix, stem, hreverse, hsuffix⟩ :=
    List.eq_append_cons_of_mem (List.mem_reverse.2 hdot)
  refine ⟨stem.reverse, suffix.reverse, ?_, fun h => hsuffix (List.mem_reverse.1 h)⟩
  rw [← List.reverse_reverse l, hreverse]
  simp

theorem findsNumber_endNumber? : FindsNumber endNumber? := by
  intro name n
  constructor
  · intro h
    by_cases hdot : '.' ∈ name.toList
    · obtain ⟨stem, suffix, hname, hsuffix⟩ := exists_split hdot
      rw [endNumber?_of_split hname hsuffix] at h
      cases hread : Number.readUnsigned 10 suffix with
      | error fault => simp [hread, Except.toOption] at h
      | ok k =>
        obtain rfl : k = n := by simpa [hread, Except.toOption] using h
        exact ⟨stem, suffix, hname, hsuffix, Number.readUnsigned_eq_ok_iff.1 hread⟩
    · rw [endNumber?_of_not_mem hdot] at h
      cases h
  · rintro ⟨stem, suffix, hname, hdot, hnumber⟩
    rw [endNumber?_of_split hname hdot, Number.readUnsigned_eq_ok_iff.2 hnumber]
    rfl

/-! ### Link maps -/

/-- Every section places what its rules take, one rule after the other and each in its order. -/
structure LinkMap.Arranged {κ : Type} [LE κ] [DecidableEq κ] (rank : String → κ) (m : LinkMap)
    (d : Layout) (inputs : List Input) (collect : Bool) : Prop where
  names : m.sections.map (·.name) = d.sections.map (·.name)
  placed : ∀ (k : Nat) (s : Section) (t : MappedSection), d.sections[k]? = some s →
    m.sections[k]? = some t → ∃ groups,
      List.Forall₂ (fun (rule, j) group =>
        rule.order.Arranges rank (d.taken collect inputs k s j) group) s.rules.zipIdx groups ∧
      t.placed.map (·.label) = groups.flatten.map (·.label)

/-- Every successful link arranges the inputs, where a name without a number counts as if it ended
    in the largest of 64 bits. -/
theorem Layout.arranged_of_link {d : Layout} {inputs : List Input} {collect : Bool} {m : LinkMap}
    (h : d.link inputs collect = .ok m) : ∃ number?, FindsNumber number? ∧
      m.Arranged (fun name => (number? name).getD (2 ^ 64 - 1)) d inputs collect := by
  have hlinked := linked_of_link h
  refine ⟨endNumber?, findsNumber_endNumber?, hlinked.map_name_sections, ?_⟩
  intro k s t hs ht
  obtain ⟨s', hs', c, hmapped⟩ := exists_getElem?_of_forall₂ hlinked.sections ht
  obtain rfl : s = s' := Option.some.inj (hs.symm.trans hs')
  refine ⟨s.rules.zipIdx.map fun (rule, j) =>
    rule.order.arrange (d.taken collect inputs k s j), ?_, ?_⟩
  · rw [List.forall₂_map_right_iff, List.forall₂_same]
    rintro ⟨rule, j⟩ -
    refine rule.order.arranges_arrange (fun a b => ?_) _
    rw [UInt64.le_iff_toNat_le, toNat_priority, toNat_priority]
  · rw [t.map_label_placed, hmapped.inputs_eq,
      d.inputs_steps_routing collect inputs hlinked.sound.names_nodup hs, List.flatMap_def]

/-- Two hooks that priority does not tell apart, the one without a number first. -/
def Standard.tiedHooks : List Input :=
  [⟨".crt0", 0x40, 4, true⟩, ⟨".init_array.late", 4, 4, true⟩,
    ⟨".init_array.18446744073709551615", 8, 4, true⟩]

/-- They are placed as they were listed. -/
theorem Standard.exists_link_tiedHooks :
    ∃ m t, Standard.layout.link Standard.tiedHooks false = .ok m ∧ m.sections[6]? = some t ∧
      t.placed.map (·.label) =
        [(".init_array.late", 4), (".init_array.18446744073709551615", 8)] := by
  have hlabels : (Standard.layout.link Standard.tiedHooks false).toOption.bind (fun m =>
      m.sections[6]?.map fun t => t.placed.map (·.label)) =
        some [(".init_array.late", 4), (".init_array.18446744073709551615", 8)] := by
    cbv
  obtain ⟨m, hm, ht⟩ := Option.bind_eq_some_iff.1 hlabels
  obtain ⟨t, ht, hplaced⟩ := Option.map_eq_some_iff.1 ht
  exact ⟨m, t, eq_ok_of_toOption hm, ht, hplaced⟩

/-- The two hooks are arranged by ranks that are the same. -/
theorem Layout.arranged_of_link_tiedHooks :
    ∃ m t, Standard.layout.link Standard.tiedHooks false = .ok m ∧ m.sections[6]? = some t ∧
      t.placed.map (·.label) =
        [(".init_array.late", 4), (".init_array.18446744073709551615", 8)] ∧
      ∃ number?, FindsNumber number? ∧ m.Arranged (fun name => (number? name).getD (2 ^ 64 - 1))
        Standard.layout Standard.tiedHooks false := by
  obtain ⟨m, t, hlink, ht, hplaced⟩ := Standard.exists_link_tiedHooks
  exact ⟨m, t, hlink, ht, hplaced, arranged_of_link hlink⟩

/-- The rank that puts names without a number behind all that have one. -/
def lastRank (number? : String → Option Nat) (name : String) : WithTop Nat :=
  (number? name).elim ⊤ fun n => n

theorem FindsNumber.eq {number? : String → Option Nat} (h : FindsNumber number?) :
    number? = endNumber? := by
  funext name
  refine Option.ext fun n => ?_
  rw [h name n, findsNumber_endNumber? name n]

/-- A name without a number does not always come behind those that have one: the largest number of
    64 bits does not go before it. -/
theorem Layout.not_arranged_lastRank : ¬ ∀ (d : Layout) (inputs : List Input) (collect : Bool)
    (m : LinkMap), d.link inputs collect = .ok m →
      ∃ number?, FindsNumber number? ∧ m.Arranged (lastRank number?) d inputs collect := by
  intro h
  obtain ⟨m, t, hlink, ht, hplaced⟩ := Standard.exists_link_tiedHooks
  obtain ⟨number?, hnumber, -, harranged⟩ := h _ _ _ m hlink
  obtain rfl := hnumber.eq
  obtain ⟨groups, hgroups, heq⟩ := harranged 6 _ t rfl ht
  -- the section has two rules, and the first takes both inputs
  obtain ⟨first, _, hfirst, hrest, rfl⟩ := List.forall₂_cons_left_iff.1 hgroups
  obtain ⟨second, _, -, hnil, rfl⟩ := List.forall₂_cons_left_iff.1 hrest
  have hlength : first.length = 2 := hfirst.perm.length_eq.trans (by decide +kernel)
  obtain ⟨a, b, rfl⟩ := List.length_eq_two.1 hlength
  obtain ⟨hfst, htail⟩ := List.cons.inj (hplaced.symm.trans heq)
  obtain ⟨hsnd, -⟩ := List.cons.inj htail
  have ha : ".init_array.late" = a.name := congrArg Prod.fst hfst
  have hb : ".init_array.18446744073709551615" = b.name := congrArg Prod.fst hsnd
  have hordered := List.pairwise_pair.1 hfirst.ordered
  rw [← ha, ← hb] at hordered
  exact absurd hordered (by decide)

end BootImage
