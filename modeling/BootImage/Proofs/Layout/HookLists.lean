import BootImage.Proofs.Layout.Standard
import BootImage.Proofs.LinkMap.Entry
import BootImage.Proofs.LinkMap.Order

/-! The hook lists.

    The runtime takes every pointer between the two bounds of a hook list for a function and calls
    it. So no hook may be lost, and nothing else may lie between the bounds. No rule of the standard
    layout accepts a hook before its list does, and both rules of the list keep what they accept. If
    all hooks are made of whole pointers, nothing has to be aligned, and they lie side by side. The
    main statement is `Standard.hookLists_of_link`.

        __init_array_start                                        __init_array_end
        |== .init_array.100 ==|== .init_array.200 ==|== .init_array ==|
           by number                                   as listed                   -/

namespace BootImage

open Word Cursor

/-! ### What a rule accepts -/

/-- A rule with one pattern, of which only the end is a wildcard, accepts the names that start with
    the rest. -/
theorem InputRule.accepts_iff_of_run {rule : InputRule} {start : String}
    (hpatterns : rule.patterns = [start ++ "*"]) (hrun : '*' ∉ start.toList)
    (hsingle : '?' ∉ start.toList) (name : String) :
    rule.accepts name = true ↔ start.toList <+: name.toList := by
  have hrun' : '*'.toUInt8 ∉ Text.encode start := fun h =>
    hrun (Text.mem_toList_of_mem_encode (by decide) h)
  have hsingle' : '?'.toUInt8 ∉ Text.encode start := fun h =>
    hsingle (Text.mem_toList_of_mem_encode (by decide) h)
  have hbyte : Text.encode "*" = ['*'.toUInt8] := by decide
  rw [accepts, hpatterns, List.any_cons, List.any_nil, Bool.or_false, Wildcard.ofString,
    Wildcard.accepts_iff_matches, Wildcard.matches_map_ofByte_iff, Text.encode_append, hbyte,
    Wildcard.denotes_append_run_iff hrun' hsingle', Text.encode_prefix_encode_iff]

/-- No pattern of the rule stands for a name that starts so. -/
def InputRule.avoids (rule : InputRule) (start : String) : Bool :=
  rule.patterns.all fun p => !(Wildcard.ofString p).mayStart (Text.encode start)

theorem InputRule.not_accepts_of_avoids {rule : InputRule} {start name : String}
    (h : rule.avoids start = true) (hstart : start.toList <+: name.toList) :
    rule.accepts name = false := by
  rw [accepts, List.any_eq_false]
  intro p hp haccepts
  have hmay := (Wildcard.accepts_iff_matches.1 haccepts).mayStart
    (Text.encode_prefix_encode_iff.2 hstart)
  have hnot := List.all_eq_true.1 h p hp
  rw [hmay] at hnot
  cases hnot

namespace Standard

/-! ### What a hook list is to be -/

/-- The name is that of a hook whose place is ordered: it starts with the name of the list and a
    dot. -/
def IsPrioritized (list name : String) : Bool := (list ++ ".").toList.isPrefixOf name.toList

/-- The name is that of a hook of the list. -/
def IsHook (list name : String) : Prop := name = list ∨ IsPrioritized list name = true

/-- Every hook of the list is made of whole pointers, and aligned no higher. -/
def FitsPointers (list : String) (inputs : List Input) : Prop :=
  ∀ i ∈ inputs, IsHook list i.name → i.align ≤ pointerSize ∧ pointerSize.toNat ∣ i.size.toNat

/-- The hook lists, with their bounds. -/
def hookLists : List (String × Bounds) := [(".preinit_array", .preinit), (".init_array", .init)]

/-- The section `t` of a link map is the hook list: it places all hooks of the list, first those
    that are ordered, stably by rank, then the others as they were listed, and drops none. Hooks
    that are made of whole pointers lie side by side from the first bound to the last. -/
structure HookList {κ : Type} [LE κ] [DecidableEq κ] (rank : String → κ) (m : LinkMap)
    (inputs : List Input) (list : String) (b : Bounds) (t : MappedSection) (ordered : List Input)
    (first last : UInt64) : Prop where
  found : m.section? list = some t
  sorted : StablySorted (rank ·.name) (inputs.filter (IsPrioritized list ·.name)) ordered
  placed : t.placed.map (·.label) =
    (ordered ++ inputs.filter (·.name == list)).map (·.label)
  kept : ∀ i ∈ m.discarded, ¬ IsHook list i.name
  lower : m.symbols.get? b.first = some first
  upper : m.symbols.get? b.last = some last
  packed : FitsPointers list inputs →
    (∀ (k : Nat) (p : Placed), t.placed[k]? = some p →
      p.address.toNat = first.toNat + ((t.placed.take k).map (·.size.toNat)).sum) ∧
    last.toNat = first.toNat + (t.placed.map (·.size.toNat)).sum

/-! ### The rules of a hook list -/

/-- The rule for the hooks that are ordered. -/
def prioritizedRule (list : String) : InputRule where
  patterns := [list ++ ".*"]
  keep := true
  order := .byPriority

/-- The rule for the hooks that are not. -/
def listedRule (list : String) : InputRule where
  patterns := [list]
  keep := true

/-- The section of the hook list of this name, between its bounds. -/
def boundedList (list : String) (b : Bounds) : Section :=
  hookList list (list ++ ".*") b.first b.last

theorem rules_boundedList (list : String) (b : Bounds) :
    (boundedList list b).rules = [prioritizedRule list, listedRule list] := rfl

/-- Such a section is made of symbols and rules. -/
theorem mem_statements_boundedList {list : String} {b : Bounds} {statement : Statement}
    (h : statement ∈ (boundedList list b).statements) :
    (∃ name, statement = .symbol name) ∨ ∃ rule, statement = .input rule := by
  simp only [boundedList, hookList, keep, List.mem_cons, List.not_mem_nil, or_false] at h
  rcases h with rfl | rfl | rfl | rfl
  · exact .inl ⟨_, rfl⟩
  · exact .inr ⟨_, rfl⟩
  · exact .inr ⟨_, rfl⟩
  · exact .inl ⟨_, rfl⟩

/-- The section at position `k` of the standard layout is the hook list of this name, and no rule
    before it accepts a name that starts with that of the list. -/
structure HookSection (k : Nat) (list : String) (b : Bounds) : Prop where
  position : layout.loaded[k]? = some (boundedList list b)
  noRun : '*' ∉ list.toList
  noSingle : '?' ∉ list.toList
  avoided : ∀ t ∈ layout.sections.take k, ∀ rule ∈ t.rules, rule.avoids list = true
  entry : layout.entry ∉ [b.first, b.last]

theorem hookSection_preinit : HookSection 5 ".preinit_array" .preinit := by
  constructor <;> decide +kernel

theorem hookSection_init : HookSection 6 ".init_array" .init := by
  constructor <;> decide +kernel

/-- Ordering by priority sorts stably by the number that ends a name. -/
theorem stablySorted_byPriority (inputs : List Input) :
    StablySorted (fun i : Input => (endNumber? i.name).getD (2 ^ 64 - 1)) inputs
      (Order.byPriority.arrange inputs) := by
  have hrank : ∀ a b : String, priority a ≤ priority b ↔
      (endNumber? a).getD (2 ^ 64 - 1) ≤ (endNumber? b).getD (2 ^ 64 - 1) := fun a b => by
    rw [UInt64.le_iff_toNat_le, toNat_priority, toNat_priority]
  exact Order.byPriority.arranges_arrange hrank inputs

namespace HookSection

variable {k : Nat} {list : String} {b : Bounds} {inputs : List Input} {collect : Bool} {m : LinkMap}

theorem getElem?_sections (h : HookSection k list b) :
    layout.sections[k]? = some (boundedList list b) := by
  rw [Layout.sections, List.getElem?_append_left (List.getElem?_eq_some_iff.1 h.position).1]
  exact h.position

/-- The first rule accepts the hooks that are ordered. -/
theorem accepts_prioritizedRule (h : HookSection k list b) (name : String) :
    (prioritizedRule list).accepts name = IsPrioritized list name := by
  have hpatterns : (prioritizedRule list).patterns = [(list ++ ".") ++ "*"] := by
    rw [String.append_assoc]
    rfl
  have hrun : '*' ∉ (list ++ ".").toList := by
    rw [String.toList_append, List.mem_append, not_or]
    exact ⟨h.noRun, by decide⟩
  have hsingle : '?' ∉ (list ++ ".").toList := by
    rw [String.toList_append, List.mem_append, not_or]
    exact ⟨h.noSingle, by decide⟩
  rw [Bool.eq_iff_iff, InputRule.accepts_iff_of_run hpatterns hrun hsingle, IsPrioritized,
    List.isPrefixOf_iff_prefix]

/-- The second rule accepts the others. -/
theorem accepts_listedRule (h : HookSection k list b) (name : String) :
    (listedRule list).accepts name = (name == list) := by
  rw [Bool.eq_iff_iff, InputRule.accepts_iff_of_literal rfl h.noRun h.noSingle name, beq_iff_eq]

/-- No rule of a section before the list accepts a hook, since none accepts what starts so. -/
theorem not_accepts_before (h : HookSection k list b) {name : String} (hhook : IsHook list name) :
    ∀ t ∈ layout.sections.take k, ∀ rule ∈ t.rules, rule.accepts name = false := by
  intro t ht rule hrule
  refine InputRule.not_accepts_of_avoids (h.avoided t ht rule hrule) ?_
  rcases hhook with rfl | hprioritized
  · exact List.prefix_refl _
  · rw [IsPrioritized, List.isPrefixOf_iff_prefix, String.toList_append] at hprioritized
    exact (List.prefix_append _ _).trans hprioritized

/-- The name of the list is not ordered. -/
theorem not_isPrioritized_self (list : String) : IsPrioritized list list = false := by
  rw [← Bool.not_eq_true, IsPrioritized, List.isPrefixOf_iff_prefix]
  intro hprefix
  have hlength := hprefix.length_le
  rw [String.toList_append, List.length_append] at hlength
  exact absurd hlength (Nat.not_le.2 (Nat.lt_add_of_pos_right (by decide)))

/-- The first rule takes all hooks that are ordered. -/
theorem taken_prioritized (h : HookSection k list b) (collect : Bool) (inputs : List Input) :
    layout.taken collect inputs k (boundedList list b) 0 =
      inputs.filter (IsPrioritized list ·.name) := by
  have hrule : (boundedList list b).rules[0]? = some (prioritizedRule list) := rfl
  have htaken := layout.taken_eq_filter collect inputs h.getElem?_sections hrule rfl
    (fun name haccepts => h.not_accepts_before (.inr (h.accepts_prioritizedRule name ▸ haccepts)))
    (by simp)
  simpa only [h.accepts_prioritizedRule] using htaken

/-- The second rule takes all others. -/
theorem taken_listed (h : HookSection k list b) (collect : Bool) (inputs : List Input) :
    layout.taken collect inputs k (boundedList list b) 1 =
      inputs.filter (·.name == list) := by
  have hrule : (boundedList list b).rules[1]? = some (listedRule list) := rfl
  have hname {name : String} (haccepts : (listedRule list).accepts name = true) : name = list :=
    eq_of_beq (h.accepts_listedRule name ▸ haccepts)
  have htaken := layout.taken_eq_filter collect inputs h.getElem?_sections hrule rfl
    (fun name haccepts => h.not_accepts_before (.inl (hname haccepts)))
    (fun name haccepts => by
      rw [hname haccepts]
      simpa [rules_boundedList, h.accepts_prioritizedRule] using not_isPrioritized_self list)
  simpa only [h.accepts_listedRule] using htaken

/-- No hook is dropped, since one of the rules takes it. -/
theorem drops_eq_false (h : HookSection k list b) (collect : Bool) {i : Input}
    (hhook : IsHook list i.name) : layout.drops collect i = false := by
  have htaken : ∃ j, i ∈ layout.taken collect [i] k (boundedList list b) j := by
    rcases hhook with hname | hprioritized
    · exact ⟨1, by rw [h.taken_listed]; simp [hname]⟩
    · exact ⟨0, by rw [h.taken_prioritized]; simp [hprioritized]⟩
  obtain ⟨j, hj⟩ := htaken
  have hstays := (List.mem_filter.1 hj).2
  simp only [Bool.and_eq_true, Bool.not_eq_true'] at hstays
  exact hstays.1.1

/-! ### The list in a link map -/

/-- The list was placed in a segment. -/
theorem exists_mapped (h : HookSection k list b) (hlinked : layout.Linked inputs collect m) :
    ∃ t ∈ m.segments.flatMap (·.sections), ∃ c,
      (boundedList list b).Mapped (layout.routing collect inputs) c t := by
  obtain ⟨t, ht, c, hmapped⟩ := exists_getElem?_of_forall₂ hlinked.loaded.flip h.position
  exact ⟨t, List.mem_of_getElem? ht, c, hmapped⟩

variable {t : MappedSection} {c : UInt64}

/-- It places all hooks that are ordered, in order, and then the others. -/
theorem inputs_eq (h : HookSection k list b) (hlinked : layout.Linked inputs collect m)
    (hmapped : (boundedList list b).Mapped (layout.routing collect inputs) c t) :
    t.inputs = Order.byPriority.arrange (inputs.filter (IsPrioritized list ·.name)) ++
      inputs.filter (·.name == list) := by
  rw [hmapped.inputs_eq, layout.inputs_steps_routing collect inputs hlinked.sound.names_nodup
    h.getElem?_sections, rules_boundedList]
  simp [h.taken_prioritized, h.taken_listed, prioritizedRule, listedRule, Order.arrange]

/-- What it places are hooks that were listed. -/
theorem isHook_of_mem_inputs (h : HookSection k list b) (hlinked : layout.Linked inputs collect m)
    (hmapped : (boundedList list b).Mapped (layout.routing collect inputs) c t) {i : Input} (hi : i ∈ t.inputs) :
    i ∈ inputs ∧ IsHook list i.name := by
  rw [h.inputs_eq hlinked hmapped, List.mem_append, (Order.arrange_perm _ _).mem_iff,
    List.mem_filter, List.mem_filter, beq_iff_eq] at hi
  rcases hi with ⟨hi, hprioritized⟩ | ⟨hi, hname⟩
  · exact ⟨hi, .inr hprioritized⟩
  · exact ⟨hi, .inl hname⟩

/-- Hooks that are made of whole pointers lie side by side. -/
theorem contiguous (h : HookSection k list b) (hlinked : layout.Linked inputs collect m)
    (hmapped : (boundedList list b).Mapped (layout.routing collect inputs) c t)
    (hr : (boundedList list b).IsRegular (layout.routing collect inputs))
    (hfits : FitsPointers list inputs) :
    Contiguous t.address.toNat t.placed t.stop.toNat := by
  refine Step.contiguous_of_swept hr.steps (fun step hstep => ?_) (hmapped.fits hr).aligned
    hmapped.swept
  obtain ⟨statement, hstatement, hgives⟩ := Statement.exists_of_mem_stepsFrom _ hstep
  rcases mem_statements_boundedList hstatement with ⟨name, rfl⟩ | ⟨rule, rfl⟩
  · cases hgives
    trivial
  · obtain ⟨i, rfl⟩ := hgives
    have hi : i ∈ t.inputs := hmapped.inputs_eq ▸ List.mem_filterMap.2 ⟨_, hstep, rfl⟩
    obtain ⟨hlisted, hhook⟩ := h.isHook_of_mem_inputs hlinked hmapped hi
    obtain ⟨halign, hsize⟩ := hfits i hlisted hhook
    have hunit : isPowerOfTwo pointerSize = true := by decide
    exact ⟨dvd_of_le (hr.steps _ hstep) hunit halign, hsize⟩

/-- The section is the hook list, with names ranked by the number that ends them. -/
theorem exists_hookList_of_linked (h : HookSection k list b)
    (hlinked : layout.Linked inputs collect m) : ∃ t ordered first last,
      HookList (fun name => (endNumber? name).getD (2 ^ 64 - 1)) m inputs list b t ordered first
        last := by
  obtain ⟨t, ht, c, hmapped⟩ := h.exists_mapped hlinked
  have hmem : t ∈ m.sections := List.mem_append_left _ ht
  have hname : t.name = list := hmapped.name
  have hr := hlinked.isRegular.sections _ (List.mem_of_getElem? h.getElem?_sections)
  have hentry := h.entry
  simp only [List.mem_cons, List.not_mem_nil, or_false, not_or] at hentry
  refine ⟨t, Order.byPriority.arrange (inputs.filter (IsPrioritized list ·.name)), t.address,
    t.stop, ?_⟩
  exact
    { found := hname ▸ hlinked.section?_name hmem
      sorted := stablySorted_byPriority _
      placed := by rw [t.map_label_placed, h.inputs_eq hlinked hmapped]
      kept := by
        intro i hi hhook
        rw [hlinked.discarded, Layout.discarded_routing, List.mem_filter,
          h.drops_eq_false collect hhook] at hi
        exact Bool.false_ne_true hi.2
      lower := hlinked.get?_of_mem_symbols ht
        (hmapped.symbol_at_address (k := 0) rfl (by simp)) (Ne.symm hentry.1)
      upper := hlinked.get?_of_mem_symbols ht
        (hmapped.symbol_at_stop (k := 3) rfl (by simp [boundedList, hookList])) (Ne.symm hentry.2)
      packed := fun hfits => by
        have hcontiguous := h.contiguous hlinked hmapped hr hfits
        exact ⟨fun k p hk => hcontiguous.address_eq hk, hcontiguous.last_eq⟩ }

end HookSection

/-! ### Every image -/

/-- Every image that is linked by the standard layout has its hook lists, where a hook without a
    number counts as if it ended in the largest of 64 bits. -/
theorem hookLists_of_link {inputs : List Input} {collect : Bool} {m : LinkMap}
    (h : layout.link inputs collect = .ok m) : ∃ number?, FindsNumber number? ∧
      ∀ list ∈ hookLists, ∃ t ordered first last,
        HookList (fun name => (number? name).getD (2 ^ 64 - 1)) m inputs list.1 list.2 t ordered
          first last := by
  refine ⟨endNumber?, findsNumber_endNumber?, fun list hlist => ?_⟩
  have hlinked := Layout.linked_of_link h
  simp only [hookLists, List.mem_cons, List.not_mem_nil, or_false] at hlist
  rcases hlist with rfl | rfl
  · exact hookSection_preinit.exists_hookList_of_linked hlinked
  · exact hookSection_init.exists_hookList_of_linked hlinked

/-- Hooks of both lists are placed, although nothing refers to them. -/
theorem hookLists_of_link_hooks :
    let inputs : List Input := [⟨".crt0", 0x40, 4, true⟩, ⟨".preinit_array.5", 4, 4, false⟩,
      ⟨".init_array", 4, 4, false⟩, ⟨".init_array.100", 8, 4, false⟩]
    ∃ m, layout.link inputs true = .ok m ∧
      m.symbols.get? "__init_array_start" = some 0x101004 ∧
      m.symbols.get? "__init_array_end" = some 0x101010 ∧
      (∀ list ∈ hookLists, FitsPointers list.1 inputs) ∧
      ∃ number?, FindsNumber number? ∧ ∀ list ∈ hookLists, ∃ t ordered first last,
        HookList (fun name => (number? name).getD (2 ^ 64 - 1)) m inputs list.1 list.2 t ordered
          first last := by
  intro inputs
  have hvalues : (layout.link inputs true).toOption.map (fun m =>
      (m.symbols.get? "__init_array_start", m.symbols.get? "__init_array_end")) =
        some (some 0x101004, some 0x101010) := by
    decide +kernel
  obtain ⟨m, hm, hvalues⟩ := Option.map_eq_some_iff.1 hvalues
  obtain ⟨hfirst, hlast⟩ := Prod.mk.inj hvalues
  have hwhole : ∀ i ∈ inputs, i.align ≤ pointerSize ∧ pointerSize.toNat ∣ i.size.toNat := by decide
  have hlink := eq_ok_of_toOption hm
  exact ⟨m, hlink, hfirst, hlast, fun _ _ i hi _ => hwhole i hi, hookLists_of_link hlink⟩

/-- A hook without a number does not always come behind those that have one, also if all hooks are
    made of whole pointers. -/
theorem not_forall_hookList_lastRank : ¬ ∀ (inputs : List Input) (collect : Bool) (m : LinkMap),
    layout.link inputs collect = .ok m → ∃ number?, FindsNumber number? ∧
      ∀ list ∈ hookLists, FitsPointers list.1 inputs → ∃ t ordered first last,
        HookList (lastRank number?) m inputs list.1 list.2 t ordered first last := by
  intro h
  obtain ⟨m, t, hlink, ht, hplaced⟩ := exists_link_tiedHooks
  obtain ⟨number?, hnumber, hlists⟩ := h _ _ m hlink
  obtain rfl := hnumber.eq
  have hwhole : ∀ i ∈ tiedHooks, i.align ≤ pointerSize ∧ pointerSize.toNat ∣ i.size.toNat := by
    decide
  obtain ⟨u, ordered, first, last, hlist⟩ :=
    hlists (".init_array", .init) (by simp [hookLists]) fun i hi _ => hwhole i hi
  -- the hook list is the section in which the two hooks were found
  have hlinked := Layout.linked_of_link hlink
  have hname : t.name = ".init_array" := by
    have hnames : (m.sections.map (·.name))[6]? = some ".init_array" :=
      hlinked.map_name_sections ▸ rfl
    simpa [List.getElem?_map, ht] using hnames
  have hfound := hlinked.section?_name (List.mem_of_getElem? ht)
  rw [hname] at hfound
  obtain rfl : t = u := Option.some.inj (hfound.symm.trans hlist.found)
  have hnone : tiedHooks.filter (·.name == ".init_array") = [] := by decide
  have hlabels := hlist.placed
  rw [hplaced, hnone, List.append_nil] at hlabels
  obtain ⟨a, rest, rfl, ha, hrest⟩ := List.map_eq_cons_iff.1 hlabels.symm
  obtain ⟨b, _, rfl, hb, -⟩ := List.map_eq_cons_iff.1 hrest
  have hle := (List.pairwise_cons.1 hlist.sorted.ordered).1 b List.mem_cons_self
  have haname : a.name = ".init_array.late" := congrArg Prod.fst ha
  have hbname : b.name = ".init_array.18446744073709551615" := congrArg Prod.fst hb
  rw [haname, hbname] at hle
  exact absurd hle (by decide)

end Standard

end BootImage
