import BootImage.Proofs.LinkMap.Outcome
import Mathlib.Data.List.Flatten

/-! Two links of one layout.

    Of its inputs linking uses only what each rule takes, in the order of the rule. So where the
    rules take the same from two lists, both links end alike: with the same fault, or with everything
    in the same places. The first use of this is collection: what it drops leaves no trace. The main
    statement is `Layout.link_survivors`.

        inputs    ──┐
                    ├── taken by each rule ── steps of each section ── where everything goes
        survivors ──┘ -/

namespace BootImage

open Word Cursor

/-- Two links end alike: with the same fault, or with maps that are related. -/
inductive EndAlike (R : LinkMap → LinkMap → Prop) :
    Except Fault LinkMap → Except Fault LinkMap → Prop
  | fault (f : Fault) : EndAlike R (.error f) (.error f)
  | linked {m n : LinkMap} (h : R m n) : EndAlike R (.ok m) (.ok n)

/-- Both succeed, or neither does. -/
theorem EndAlike.isOk_eq {R : LinkMap → LinkMap → Prop} {x y : Except Fault LinkMap}
    (h : EndAlike R x y) : x.isOk = y.isOk := by
  cases h <;> rfl

/-- What is known of the maps of both links may be added to their relation. -/
theorem EndAlike.imp {R S : LinkMap → LinkMap → Prop} {x y : Except Fault LinkMap}
    (h : EndAlike R x y) (himp : ∀ m n, x = .ok m → y = .ok n → R m n → S m n) :
    EndAlike S x y := by
  cases h with
  | fault f => exact .fault f
  | linked h => exact .linked (himp _ _ rfl rfl h)

/-- Two link maps have everything in the same places. -/
structure LinkMap.Coincides (m n : LinkMap) : Prop where
  entry : m.entry = n.entry
  segments : m.segments = n.segments
  unloaded : m.unloaded = n.unloaded
  symbols : m.symbols = n.symbols

/-! ### Sections with the same steps -/

theorem Cursor.sweep?_congr {α β : Type} {move move' : α → UInt64 → Option (β × UInt64)} :
    ∀ {as : List α} (_ : ∀ a ∈ as, move a = move' a) (c : UInt64),
      sweep? move as c = sweep? move' as c
  | [], _, _ => rfl
  | a :: as, h, c => by
    have hrest := sweep?_congr fun b hb => h b (List.mem_cons_of_mem a hb)
    simp only [sweep?, h a List.mem_cons_self, hrest]

theorem mapM_congr {α β : Type} {f g : α → Option β} :
    ∀ {as : List α}, (∀ a ∈ as, f a = g a) → as.mapM f = as.mapM g
  | [], _ => rfl
  | a :: as, h => by
    rw [List.mapM_cons, List.mapM_cons, h a List.mem_cons_self,
      mapM_congr fun b hb => h b (List.mem_cons_of_mem a hb)]

theorem Section.move?_congr {r r' : Routing} {s : Section} (h : s.steps r = s.steps r') :
    s.move? r = s.move? r' := by
  funext c
  simp only [move?, h]

namespace Layout

variable {d : Layout} {r r' : Routing}

/-- The segments are swept alike if their sections have the same steps. -/
theorem sweep?_segments_congr (h : ∀ s ∈ d.loaded, s.steps r = s.steps r') (c : UInt64) :
    sweep? (·.move? r d.pageSize) d.segments c = sweep? (·.move? r' d.pageSize) d.segments c := by
  refine sweep?_congr (fun g hg => ?_) c
  have hsections : ∀ c, sweep? (·.move? r) g.sections c = sweep? (·.move? r') g.sections c :=
    sweep?_congr fun s hs => Section.move?_congr (h s (List.mem_flatMap.2 ⟨g, hg, hs⟩))
  funext c
  simp only [Segment.move?, hsections]

/-- Everything is placed alike if all sections have the same steps. -/
theorem map?_congr (h : ∀ s ∈ d.sections, s.steps r = s.steps r') : d.map? r = d.map? r' := by
  have hsegments := sweep?_segments_congr fun s hs => h s (List.mem_append_left _ hs)
  have hunloaded : d.unloaded.mapM (·.mapUnloaded? r) = d.unloaded.mapM (·.mapUnloaded? r') :=
    mapM_congr fun s hs => by
      rw [Section.mapUnloaded?, Section.mapUnloaded?,
        Section.move?_congr (h s (List.mem_append_right _ hs))]
  simp only [map?, hsegments, hunloaded]

end Layout

/-! ### What the rules take -/

namespace Layout

variable {d : Layout} {collect collect' : Bool} {inputs inputs' : List Input}

/-- If each rule takes a part of what it took, in its order, the steps are a part of the steps. -/
theorem steps_routing_sublist (hnodup : (d.sections.map (·.name)).Nodup) {k : Nat} {s : Section}
    (hk : d.sections[k]? = some s)
    (h : ∀ (j : Nat) (rule : InputRule), s.rules[j]? = some rule →
      (rule.order.arrange (d.taken collect' inputs' k s j)).Sublist
        (rule.order.arrange (d.taken collect inputs k s j))) :
    (s.steps (d.routing collect' inputs')).Sublist (s.steps (d.routing collect inputs)) := by
  refine List.Sublist.flatMap_right _ ?_
  rintro ⟨statement, i⟩ hstatement
  cases statement with
  | input rule =>
    have hslot : (⟨s.name, i⟩, rule) ∈ s.slots := List.mem_filterMap.2 ⟨_, hstatement, rfl⟩
    obtain ⟨j, hj⟩ := List.mem_iff_getElem?.1 hslot
    have hrule : s.rules[j]? = some rule := by
      rw [← s.map_snd_slots, List.getElem?_map, hj, Option.map_some]
    simp only [Statement.steps, Routing.inputsOf, pool_filter_routing d _ _ hnodup hk hj]
    exact (h j rule hrule).map _
  | _ => exact List.Sublist.refl _

/-- If each rule takes the same, in its order, the steps are the same. -/
theorem steps_routing_congr (hnodup : (d.sections.map (·.name)).Nodup) {k : Nat} {s : Section}
    (hk : d.sections[k]? = some s)
    (h : ∀ (j : Nat) (rule : InputRule), s.rules[j]? = some rule →
      rule.order.arrange (d.taken collect inputs k s j) =
        rule.order.arrange (d.taken collect' inputs' k s j)) :
    s.steps (d.routing collect inputs) = s.steps (d.routing collect' inputs') := by
  refine List.Sublist.antisymm (steps_routing_sublist hnodup hk fun j rule hj => ?_)
    (steps_routing_sublist hnodup hk fun j rule hj => ?_)
  · rw [h j rule hj]
  · rw [h j rule hj]

/-- What each rule takes, in its order, is the same of both lists. -/
def TakesAlike (d : Layout) (collect collect' : Bool) (inputs inputs' : List Input) : Prop :=
  ∀ (k : Nat) (s : Section) (j : Nat) (rule : InputRule),
    d.sections[k]? = some s → s.rules[j]? = some rule →
      rule.order.arrange (d.taken collect inputs k s j) =
        rule.order.arrange (d.taken collect' inputs' k s j)

/-- Where the rules take the same, both links end alike. -/
theorem link_alike (h : d.TakesAlike collect collect' inputs inputs')
    (hinputs : ∀ i ∈ inputs, i.align.toNat.isPowerOfTwo)
    (hinputs' : ∀ i ∈ inputs', i.align.toNat.isPowerOfTwo) :
    EndAlike LinkMap.Coincides (d.link inputs collect) (d.link inputs' collect') := by
  cases hfault : d.fault? with
  | some f =>
    simp only [link, hfault]
    exact .fault f
  | none =>
    have hnodup := (sound_of_fault? hfault).names_nodup
    have hmap : d.map? (d.routing collect inputs) = d.map? (d.routing collect' inputs') := by
      refine map?_congr fun s hs => ?_
      obtain ⟨k, hk⟩ := List.mem_iff_getElem?.1 hs
      exact steps_routing_congr hnodup hk fun j rule hj => h k s j rule hk hj
    have haligned := Ready.misaligned?_eq_none ⟨hfault, hinputs⟩
    have haligned' := Ready.misaligned?_eq_none ⟨hfault, hinputs'⟩
    simp only [link, hfault, haligned, haligned', hmap]
    cases d.map? (d.routing collect' inputs') with
    | none => exact .fault _
    | some mapped =>
      cases hentry : entryAddress? d.entrySection mapped.1 with
      | none =>
        simp only [hentry]
        exact .fault _
      | some entry =>
        simp only [hentry]
        exact .linked ⟨rfl, rfl, rfl, rfl⟩

/-! ### Collection -/

/-- Collection spares the input: something refers to it, or its first rule keeps it. -/
def survives (d : Layout) (i : Input) : Bool :=
  i.retained || (d.firstRule? i.name).any (·.keep)

theorem drops_true (d : Layout) (i : Input) : d.drops true i = !d.survives i := by
  rw [drops, survives, Bool.true_and, Bool.not_or]

theorem drops_false (d : Layout) (i : Input) : d.drops false i = false := by
  rw [drops, Bool.false_and, Bool.false_and]

/-- The rules take of all inputs, with collection, what they take of those that survive. -/
theorem takesAlike_survivors (d : Layout) (inputs : List Input) :
    d.TakesAlike true false inputs (inputs.filter d.survives) := by
  intro k s j rule _ _
  have htaken : d.taken true inputs k s j = d.taken false (inputs.filter d.survives) k s j := by
    rw [taken, taken, List.filter_filter]
    refine List.filter_congr fun i _ => ?_
    rw [drops_true, drops_false]
    cases d.survives i <;> simp
  rw [htaken]

/-- Linking with collection ends as linking the survivors does: what is dropped leaves no trace but
    in the list of what was dropped. -/
theorem link_survivors {d : Layout} {inputs : List Input}
    (h : ∀ i ∈ inputs, i.align.toNat.isPowerOfTwo) :
    EndAlike (fun m n => m.Coincides n ∧ m.orphans = n.orphans ∧
        m.discarded = inputs.filter (fun i => !d.survives i) ∧ n.discarded = [])
      (d.link inputs true) (d.link (inputs.filter d.survives) false) := by
  have hsurvivors : ∀ i ∈ inputs.filter d.survives, i.align.toNat.isPowerOfTwo :=
    fun i hi => h i (List.mem_filter.1 hi).1
  refine (link_alike (d.takesAlike_survivors inputs) h hsurvivors).imp fun m n hm hn hsame => ?_
  have hm := linked_of_link hm
  have hn := linked_of_link hn
  refine ⟨hsame, ?_, ?_, ?_⟩
  · rw [hm.orphans, hn.orphans, orphans_routing, orphans_routing, List.filter_filter]
    refine List.filter_congr fun i _ => ?_
    rw [drops_true, drops_false]
    cases d.survives i <;> simp
  · rw [hm.discarded, discarded_routing]
    exact List.filter_congr fun i _ => d.drops_true i
  · rw [hn.discarded, discarded_routing]
    exact List.filter_eq_nil_iff.2 fun i _ => by simp [drops_false]

/-- The alignments of a list can be checked as words. -/
theorem isPowerOfTwo_of_all {inputs : List Input}
    (h : (inputs.all fun i => isPowerOfTwo i.align) = true) :
    ∀ i ∈ inputs, i.align.toNat.isPowerOfTwo := fun i hi =>
  (isPowerOfTwo_iff_toNat _).1 (List.all_eq_true.1 h i hi)

/-- One input is kept by its rule, one is referred to, and one is dropped. -/
theorem link_survivors_unreferenced :
    let inputs : List Input := [⟨".text.b", 0x10, 0x80, false⟩, ⟨".crt0", 0x40, 4, false⟩,
      ⟨".text.a", 8, 4, true⟩]
    (∀ i ∈ inputs, i.align.toNat.isPowerOfTwo) ∧
      inputs.filter Standard.layout.survives =
        [⟨".crt0", 0x40, 4, false⟩, ⟨".text.a", 8, 4, true⟩] ∧
      (Standard.layout.link inputs true).isOk = true ∧
      EndAlike (fun m n => m.Coincides n ∧ m.orphans = n.orphans ∧
          m.discarded = inputs.filter (fun i => !Standard.layout.survives i) ∧ n.discarded = [])
        (Standard.layout.link inputs true)
        (Standard.layout.link (inputs.filter Standard.layout.survives) false) := by
  intro inputs
  have haligned : ∀ i ∈ inputs, i.align.toNat.isPowerOfTwo := isPowerOfTwo_of_all (by decide)
  exact ⟨haligned, by decide +kernel, by decide +kernel, link_survivors haligned⟩

end Layout

end BootImage
