import BootImage.Proofs.LinkMap.Steps
import Mathlib.Data.List.Perm.Basic
import Mathlib.Data.List.Nodup

/-! What routing does with the inputs.

    Routing splits the inputs three ways and loses none: those dropped, those without a statement,
    and the pool. A name belongs to the first section that accepts it, and there to the first rule
    that does; a section takes from the pool what its rules take, one rule after the other, and the
    order of a rule only rearranges what it takes.

        inputs ~ pool ++ orphans ++ discarded
        inputs of a section = taken by rule 0 ++ taken by rule 1 ++ ... -/

namespace BootImage

/-! ### Lists with keys -/

/-- A list is split by a key: each element stands under its own key, whatever other keys there
    are. -/
theorem perm_flatMap_filter {α κ : Type} [BEq κ] [LawfulBEq κ] (key : α → κ) :
    ∀ {keys : List κ} {l : List α}, keys.Nodup → (∀ a ∈ l, key a ∈ keys) →
      (keys.flatMap fun k => l.filter (key · == k)).Perm l
  | [], l, _, hmem => by
    rw [List.eq_nil_iff_forall_not_mem.2 fun a ha => List.not_mem_nil (hmem a ha)]
    exact .nil
  | k :: keys, l, hnodup, hmem => by
    obtain ⟨hk, hnodup⟩ := List.nodup_cons.1 hnodup
    have hrest : ∀ a ∈ l.filter (fun a => !(key a == k)), key a ∈ keys := by
      intro a ha
      obtain ⟨ha, hne⟩ := List.mem_filter.1 ha
      exact (List.mem_cons.1 (hmem a ha)).resolve_left (by simpa using hne)
    -- under the other keys stands the same as if the elements of `k` were not there
    have hsame : (keys.flatMap fun k' => l.filter (key · == k')) =
        keys.flatMap fun k' => (l.filter fun a => !(key a == k)).filter (key · == k') := by
      refine List.flatMap_congr fun k' hk' => ?_
      rw [List.filter_filter]
      refine List.filter_congr fun a _ => ?_
      have hne : k' ≠ k := fun h => hk (h ▸ hk')
      rcases eq_or_ne (key a) k' with rfl | ha
      · simp [hne]
      · simp [ha]
    rw [List.flatMap_cons, hsame]
    exact ((perm_flatMap_filter key hnodup hrest).append_left _).trans
      (List.filter_append_perm (key · == k) l)

/-- A list is split by the positions that its elements have below a bound. -/
theorem perm_flatMap_range_filter {α : Type} {position? : α → Option Nat} {n : Nat} {l : List α}
    (h : ∀ a ∈ l, ∃ k < n, position? a = some k) :
    ((List.range n).flatMap fun k => l.filter (position? · == some k)).Perm l := by
  have hnodup : ((List.range n).map some).Nodup :=
    List.nodup_range.map fun _ _ => Option.some.inj
  have hkeys : ∀ a ∈ l, position? a ∈ (List.range n).map some := by
    intro a ha
    obtain ⟨k, hk, hposition⟩ := h a ha
    rw [hposition]
    exact List.mem_map_of_mem (List.mem_range.2 hk)
  have hsplit := perm_flatMap_filter position? hnodup hkeys
  rwa [List.flatMap_map] at hsplit

/-- A list is made of what its positions hold. -/
theorem perm_flatMap_range {α β : Type} {l : List α} {f : α × Nat → List β} {g : Nat → List β}
    (h : ∀ (k : Nat) (a : α), l[k]? = some a → (f (a, k)).Perm (g k)) :
    (l.zipIdx.flatMap f).Perm ((List.range l.length).flatMap g) := by
  rw [List.range_eq_range', ← List.zipIdx_map_snd 0 l, List.flatMap_map]
  exact List.Perm.flatMap_left _ fun p hp => h p.2 p.1 (List.mem_zipIdx_iff_getElem?.1 hp)

/-- Where keys do not repeat, what is found first is known by its key. -/
theorem any_find?_eq_findIdx? {α κ : Type} [BEq κ] [LawfulBEq κ] {key : α → κ} {p : α → Bool}
    {l : List α} (hnodup : (l.map key).Nodup) {j : Nat} {a : α} (ha : l[j]? = some a) :
    (l.find? p).any (key · == key a) = (l.findIdx? p == some j) := by
  obtain ⟨hj, rfl⟩ := List.getElem?_eq_some_iff.1 ha
  cases hidx : l.findIdx? p with
  | none =>
    have hfind : l.find? p = none :=
      List.find?_eq_none.2 fun b hb => by simpa using List.findIdx?_eq_none_iff.1 hidx b hb
    rw [hfind]
    rfl
  | some i =>
    obtain ⟨hi, hp, hbefore⟩ := List.findIdx?_eq_some_iff_getElem.1 hidx
    have hfind : l.find? p = some l[i] :=
      List.find?_eq_some_iff_getElem.2 ⟨hp, i, hi, rfl, fun k hk => by simpa using hbefore k hk⟩
    have hkey : key l[i] = key l[j] ↔ i = j := by
      refine ⟨fun h => (List.getElem?_inj (by simpa using hi) hnodup).1 (by simp [hi, hj, h]), ?_⟩
      rintro rfl
      rfl
    rw [hfind, Bool.eq_iff_iff]
    simp [hkey]

/-! ### What a section takes -/

/-- An order rearranges. -/
theorem Order.arrange_perm (o : Order) (inputs : List Input) :
    (o.arrange inputs).Perm inputs := by
  cases o with
  | listed => exact .refl _
  | byName => exact List.mergeSort_perm _ _
  | byPriority => exact List.mergeSort_perm _ _

namespace Section

theorem map_snd_slots (s : Section) : s.slots.map (·.2) = s.rules := by
  have hfst : s.statements = s.statements.zipIdx.map (·.1) := (List.zipIdx_map_fst 0 _).symm
  rw [slots, rules]
  conv_rhs => rw [hfst]
  rw [List.map_filterMap, List.filterMap_map]
  refine List.filterMap_congr fun p _ => ?_
  obtain ⟨statement, i⟩ := p
  cases statement <;> rfl

theorem sectionName_of_mem_slots {s : Section} {x : Slot × InputRule} (h : x ∈ s.slots) :
    x.1.sectionName = s.name := by
  obtain ⟨⟨statement, i⟩, -, heq⟩ := List.mem_filterMap.1 h
  cases statement with
  | input rule =>
    simp only [Option.some.injEq] at heq
    rw [← heq]
  | _ => cases heq

/-- No two slots of a section are the same. -/
theorem nodup_slots (s : Section) : (s.slots.map (·.1)).Nodup := by
  have hidx : (s.statements.zipIdx.map (·.2)).Nodup := by
    rw [List.zipIdx_map_snd]
    exact List.nodup_range'
  rw [slots, List.Nodup, List.pairwise_map]
  refine (List.pairwise_map.1 hidx).filterMap _ ?_
  rintro ⟨a, i⟩ ⟨b, j⟩ hne x hx y hy heq
  cases a with
  | input rule =>
    cases b with
    | input rule' =>
      simp only [Option.some.injEq] at hx hy
      rw [← hx, ← hy] at heq
      exact hne (congrArg Slot.statement heq)
    | _ => cases hy
  | _ => cases hx

/-- The position, among the rules of a section, of the first that accepts a name. -/
def rulePosition? (s : Section) (name : String) : Option Nat :=
  s.rules.findIdx? (·.accepts name)

theorem isSome_route?_slots (s : Section) (name : String) :
    (route? s.slots name).isSome = s.rules.any (·.accepts name) := by
  rw [← map_snd_slots, List.any_map, route?, List.isSome_find?]
  rfl

/-- In a section, a name is routed to the slot of the first rule that accepts it. -/
theorem any_route?_slots (s : Section) {j : Nat} {x : Slot × InputRule} (hx : s.slots[j]? = some x)
    (name : String) :
    (route? s.slots name).any (·.1 == x.1) = (s.rulePosition? name == some j) := by
  rw [rulePosition?, ← map_snd_slots, List.findIdx?_map]
  exact any_find?_eq_findIdx? s.nodup_slots hx

/-- A slot of a section with another name is not where a section routes. -/
theorem any_route?_slots_of_ne {s t : Section} (hne : t.name ≠ s.name) {x : Slot × InputRule}
    (hx : x ∈ s.slots) (name : String) : (route? t.slots name).any (·.1 == x.1) = false := by
  cases hroute : route? t.slots name with
  | none => rfl
  | some y =>
    refine beq_false_of_ne fun heq => hne ?_
    rw [← sectionName_of_mem_slots (List.mem_of_find?_eq_some hroute), heq,
      sectionName_of_mem_slots hx]

end Section

/-! ### Where a name is routed -/

namespace Layout

/-- The first rule that accepts a name: sections in order, the loaded ones first, and statements in
    order. -/
def firstRule? (d : Layout) (name : String) : Option InputRule :=
  (d.sections.flatMap (·.rules)).find? (·.accepts name)

/-- The position of the section in which that rule stands. -/
def owner? (d : Layout) (name : String) : Option Nat :=
  d.sections.findIdx? fun s => s.rules.any (·.accepts name)

/-- Collection drops the input: nothing refers to it, and its first rule, if any, does not keep
    it. -/
def drops (d : Layout) (collect : Bool) (i : Input) : Bool :=
  collect && !i.retained && !(d.firstRule? i.name).any (·.keep)

theorem map_snd_slots (d : Layout) : d.slots.map (·.2) = d.sections.flatMap (·.rules) := by
  rw [slots, List.map_flatMap]
  exact List.flatMap_congr fun s _ => s.map_snd_slots

/-- An input is routed to the first rule that accepts its name. -/
theorem map_snd_route? (d : Layout) (name : String) :
    (route? d.slots name).map (·.2) = d.firstRule? name := by
  rw [firstRule?, ← map_snd_slots, List.find?_map]
  rfl

theorem isUnreferenced_route? (d : Layout) (collect : Bool) (i : Input) :
    (collect && isUnreferenced i (route? d.slots i.name)) = d.drops collect i := by
  rw [drops, isUnreferenced, ← map_snd_route?, Option.any_map, Bool.and_assoc]

theorem isNone_route? (d : Layout) (name : String) :
    (route? d.slots name).isNone = (d.firstRule? name).isNone := by
  rw [← map_snd_route?, Option.isNone_map]

/-- A name is routed within the first section that accepts it. -/
theorem route?_flatMap_slots (name : String) : ∀ sections : List Section,
    route? (sections.flatMap (·.slots)) name =
      (sections.findIdx? fun s => s.rules.any (·.accepts name)).bind fun k =>
        sections[k]?.bind fun s => route? s.slots name
  | [] => rfl
  | s :: rest => by
    have happend : route? (s.slots ++ rest.flatMap (·.slots)) name =
        (route? s.slots name).or (route? (rest.flatMap (·.slots)) name) := List.find?_append
    rw [List.flatMap_cons, happend, route?_flatMap_slots name rest, List.findIdx?_cons,
      ← s.isSome_route?_slots]
    cases hs : route? s.slots name with
    | some x => simp [hs]
    | none =>
      rw [Option.none_or, Option.isSome_none, if_neg Bool.false_ne_true, Option.bind_map]
      rfl

/-- Where names differ, a name is routed to a slot of a section exactly if the section owns it and
    the slot is that of the first rule there that accepts it. -/
theorem any_route? {d : Layout} (hnodup : (d.sections.map (·.name)).Nodup) {k : Nat} {s : Section}
    (hk : d.sections[k]? = some s) {j : Nat} {x : Slot × InputRule} (hx : s.slots[j]? = some x)
    (name : String) :
    (route? d.slots name).any (·.1 == x.1) =
      (d.owner? name == some k && s.rulePosition? name == some j) := by
  have hroute : route? d.slots name = (d.owner? name).bind fun k =>
      d.sections[k]?.bind fun s => route? s.slots name := route?_flatMap_slots name d.sections
  rw [hroute]
  cases howner : d.owner? name with
  | none => simp
  | some k' =>
    obtain ⟨hlt, -⟩ := List.findIdx?_eq_some_iff_getElem.1 howner
    rw [Option.bind_some, List.getElem?_eq_getElem hlt, Option.bind_some]
    rcases eq_or_ne k' k with rfl | hne
    · obtain rfl : d.sections[k'] = s := by simpa [hlt] using hk
      simp [Section.any_route?_slots _ hx]
    · have hname : d.sections[k'].name ≠ s.name := fun h =>
        hne ((List.getElem?_inj (by simpa using hlt) hnodup).1 (by simp [hlt, hk, h]))
      simp [Section.any_route?_slots_of_ne hname (List.mem_of_getElem? hx), hne]

/-! ### The three parts of a routing -/

variable (d : Layout) (collect : Bool) (inputs : List Input)

theorem discarded_routing :
    (d.routing collect inputs).discarded = inputs.filter (d.drops collect) := by
  simp only [routing, List.filter_map, List.map_map, Function.comp_def, isUnreferenced_route?,
    List.map_id']

theorem orphans_routing :
    (d.routing collect inputs).orphans =
      inputs.filter fun i => !d.drops collect i && (d.firstRule? i.name).isNone := by
  simp only [routing, List.filter_map, List.map_map, Function.comp_def, isUnreferenced_route?,
    isNone_route?, List.filter_filter, List.map_id', Bool.and_comm]

theorem pool_routing :
    (d.routing collect inputs).pool = (inputs.filter fun i => !d.drops collect i).filterMap fun i =>
      (route? d.slots i.name).map fun route => (route.1, i) := by
  simp only [routing, List.filter_map, List.filterMap_map, Function.comp_def,
    isUnreferenced_route?]

/-- The inputs that the rule at position `j` of section `k` takes, as they were listed: those that
    stay and that no other rule accepts earlier. -/
def taken (k : Nat) (s : Section) (j : Nat) : List Input :=
  inputs.filter fun i =>
    !d.drops collect i && d.owner? i.name == some k && s.rulePosition? i.name == some j

/-- A rule that accepts a name which no rule before it accepts is the one that takes it. -/
theorem owner?_of_first {k : Nat} {s : Section} (hk : d.sections[k]? = some s) {j : Nat}
    {rule : InputRule} (hj : s.rules[j]? = some rule) {name : String}
    (haccepts : rule.accepts name = true)
    (hsections : ∀ t ∈ d.sections.take k, ∀ other ∈ t.rules, other.accepts name = false)
    (hrules : ∀ other ∈ s.rules.take j, other.accepts name = false) :
    d.owner? name = some k ∧ s.rulePosition? name = some j ∧ d.firstRule? name = some rule := by
  obtain ⟨hklt, rfl⟩ := List.getElem?_eq_some_iff.1 hk
  obtain ⟨hjlt, rfl⟩ := List.getElem?_eq_some_iff.1 hj
  have hearlier : ∀ i (hi : i < j), d.sections[k].rules[i].accepts name = false := fun i hi =>
    hrules _ (List.mem_take_iff_getElem.2 ⟨i, by omega, rfl⟩)
  refine ⟨?_, ?_, ?_⟩
  · rw [owner?, List.findIdx?_eq_some_iff_getElem]
    refine ⟨hklt, List.any_eq_true.2 ⟨_, List.getElem_mem hjlt, haccepts⟩, fun i hi => ?_⟩
    rw [Bool.not_eq_true, List.any_eq_false]
    intro other hother
    have hmem : d.sections[i] ∈ d.sections.take k :=
      List.mem_take_iff_getElem.2 ⟨i, by omega, rfl⟩
    exact Bool.eq_false_iff.1 (hsections _ hmem other hother)
  · rw [Section.rulePosition?, List.findIdx?_eq_some_iff_getElem]
    exact ⟨hjlt, haccepts, fun i hi => Bool.eq_false_iff.1 (hearlier i hi)⟩
  · have hcut : d.sections = d.sections.take k ++ d.sections[k] :: d.sections.drop (k + 1) := by
      rw [← List.drop_eq_getElem_cons hklt, List.take_append_drop]
    have hbefore : ((d.sections.take k).flatMap (·.rules)).find? (·.accepts name) = none := by
      refine List.find?_eq_none.2 fun other hother => ?_
      obtain ⟨t, ht, hother⟩ := List.mem_flatMap.1 hother
      exact Bool.eq_false_iff.1 (hsections t ht other hother)
    have hown : d.sections[k].rules.find? (·.accepts name) = some d.sections[k].rules[j] := by
      rw [List.find?_eq_some_iff_getElem]
      exact ⟨haccepts, j, hjlt, rfl, fun i hi => by rw [hearlier i hi]; rfl⟩
    rw [firstRule?]
    conv_lhs => rw [hcut]
    rw [List.flatMap_append, List.flatMap_cons, List.find?_append, hbefore, Option.none_or,
      List.find?_append, hown, Option.some_or]

/-- A rule that keeps what it accepts, and accepts no name that a rule before it does, takes all
    that it accepts. -/
theorem taken_eq_filter {k : Nat} {s : Section} (hk : d.sections[k]? = some s) {j : Nat}
    {rule : InputRule} (hj : s.rules[j]? = some rule) (hkeep : rule.keep = true)
    (hsections : ∀ name, rule.accepts name = true →
      ∀ t ∈ d.sections.take k, ∀ other ∈ t.rules, other.accepts name = false)
    (hrules : ∀ name, rule.accepts name = true →
      ∀ other ∈ s.rules.take j, other.accepts name = false) :
    d.taken collect inputs k s j = inputs.filter (rule.accepts ·.name) := by
  refine List.filter_congr fun i _ => ?_
  cases haccepts : rule.accepts i.name with
  | true =>
    obtain ⟨howner, hposition, hfirst⟩ := d.owner?_of_first hk hj haccepts
      (hsections _ haccepts) (hrules _ haccepts)
    simp [drops, howner, hposition, hfirst, hkeep]
  | false =>
    have hposition : s.rulePosition? i.name ≠ some j := by
      intro h
      obtain ⟨hlt, h, -⟩ := List.findIdx?_eq_some_iff_getElem.1 h
      obtain rfl : s.rules[j] = rule := by simpa [hlt] using hj
      exact Bool.false_ne_true (haccepts.symm.trans h)
    simp [hposition]

/-- The pool has for a slot what its rule takes. -/
theorem pool_filter_routing (hnodup : (d.sections.map (·.name)).Nodup) {k : Nat} {s : Section}
    (hk : d.sections[k]? = some s) {j : Nat} {x : Slot × InputRule} (hx : s.slots[j]? = some x) :
    ((d.routing collect inputs).pool.filter (·.1 == x.1)).map (·.2) =
      d.taken collect inputs k s j := by
  have hguard : ∀ i : Input, (((route? d.slots i.name).map fun route => (route.1, i)).filter
      (·.1 == x.1)).map (·.2) =
        Option.guard (fun i => d.owner? i.name == some k && s.rulePosition? i.name == some j) i := by
    intro i
    rw [Option.guard, ← any_route? hnodup hk hx]
    cases route? d.slots i.name with
    | none => rfl
    | some route => cases h : route.1 == x.1 <;> simp [Option.filter, h]
  rw [pool_routing, List.filter_filterMap, List.map_filterMap,
    List.filterMap_congr fun i _ => hguard i, List.filterMap_eq_filter, List.filter_filter, taken]
  refine List.filter_congr fun i _ => ?_
  rw [Bool.and_comm, Bool.and_assoc]

/-- A section takes what its rules take, one rule after the other. -/
theorem inputs_steps_routing (hnodup : (d.sections.map (·.name)).Nodup) {k : Nat} {s : Section}
    (hk : d.sections[k]? = some s) :
    (s.steps (d.routing collect inputs)).filterMap (·.input?) =
      s.rules.zipIdx.flatMap fun (rule, j) => rule.order.arrange (d.taken collect inputs k s j) := by
  have hfst : s.slots = s.slots.zipIdx.map (·.1) := (List.zipIdx_map_fst 0 _).symm
  rw [Section.inputs_steps, ← s.map_snd_slots, List.zipIdx_map, List.flatMap_map]
  conv_lhs => rw [hfst]
  rw [List.flatMap_map]
  refine List.flatMap_congr fun p hp => ?_
  rw [Routing.inputsOf,
    pool_filter_routing d collect inputs hnodup hk (List.mem_zipIdx_iff_getElem?.1 hp)]
  rfl

/-- A section takes exactly the inputs that stay and have it as their owner. -/
theorem inputs_steps_perm (hnodup : (d.sections.map (·.name)).Nodup) {k : Nat} {s : Section}
    (hk : d.sections[k]? = some s) :
    ((s.steps (d.routing collect inputs)).filterMap (·.input?)).Perm
      (inputs.filter fun i => !d.drops collect i && d.owner? i.name == some k) := by
  let owned := inputs.filter fun i => !d.drops collect i && d.owner? i.name == some k
  have hposition : ∀ i ∈ owned, ∃ j < s.rules.length, s.rulePosition? i.name = some j := by
    intro i hi
    have howner : d.owner? i.name = some k := by
      have := (List.mem_filter.1 hi).2
      rw [Bool.and_eq_true, beq_iff_eq] at this
      exact this.2
    obtain ⟨hlt, haccepts, -⟩ := List.findIdx?_eq_some_iff_getElem.1 howner
    obtain rfl : d.sections[k] = s := by simpa [hlt] using hk
    rw [← List.findIdx?_isSome] at haccepts
    obtain ⟨j, hj⟩ := Option.isSome_iff_exists.1 haccepts
    obtain ⟨hlt, -⟩ := List.findIdx?_eq_some_iff_getElem.1 hj
    exact ⟨j, hlt, hj⟩
  have htaken (j : Nat) : d.taken collect inputs k s j =
      owned.filter (s.rulePosition? ·.name == some j) := by
    rw [taken, List.filter_filter]
    exact List.filter_congr fun i _ => Bool.and_comm _ _
  rw [inputs_steps_routing d collect inputs hnodup hk]
  refine (perm_flatMap_range fun j rule _ => ?_).trans (perm_flatMap_range_filter hposition)
  rw [← htaken]
  exact rule.order.arrange_perm _

/-- A section takes what was listed. -/
theorem inputs_steps_subset (hnodup : (d.sections.map (·.name)).Nodup) {s : Section}
    (hs : s ∈ d.sections) :
    (s.steps (d.routing collect inputs)).filterMap (·.input?) ⊆ inputs := by
  obtain ⟨k, hk⟩ := List.mem_iff_getElem?.1 hs
  intro i hi
  exact (List.mem_filter.1 ((inputs_steps_perm d collect inputs hnodup hk).mem_iff.1 hi)).1

end Layout

end BootImage
