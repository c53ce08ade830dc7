import BootImage.Proofs.LinkMap.Exchange
import BootImage.Proofs.LinkMap.Growth

/-! Inputs that do not matter to the image.

    Orphans are placed nowhere, and what unloaded sections take is placed beside the image. If any
    of these are removed from the list, linking still succeeds: the loaded sections have the same
    steps, and the unloaded ones have less to place. The image stays as it was, and of what collection
    drops only removed inputs are missing. The main statement is `Layout.link_removed`.

        inputs     .crt0   .debug_info   .text.a   .note   .debug_line
        kept       .crt0                 .text.a           .debug_line
        removed            .debug_info             .note                -/

namespace BootImage

open Word Cursor

/-- A list is split into the elements that are kept and those that are removed, both in order. -/
inductive Splits {α : Type} : List α → List α → List α → Prop
  | nil : Splits [] [] []
  | keep (a : α) {l kept removed : List α} (h : Splits l kept removed) :
    Splits (a :: l) (a :: kept) removed
  | remove (a : α) {l kept removed : List α} (h : Splits l kept removed) :
    Splits (a :: l) kept (a :: removed)

namespace Splits

variable {α : Type} {l kept removed : List α}

theorem sublist (h : Splits l kept removed) : kept.Sublist l := by
  induction h with
  | nil => exact .slnil
  | keep a _ ih => exact ih.cons_cons a
  | remove a _ ih => exact ih.cons a

/-- What is chosen of a list is split as the list is. -/
theorem filter (h : Splits l kept removed) (p : α → Bool) :
    Splits (l.filter p) (kept.filter p) (removed.filter p) := by
  induction h with
  | nil => exact .nil
  | keep a _ ih =>
    cases ha : p a with
    | false => simpa [ha] using ih
    | true => simpa [ha] using ih.keep a
  | remove a _ ih =>
    cases ha : p a with
    | false => simpa [ha] using ih
    | true => simpa [ha] using ih.remove a

theorem eq_of_nil (h : Splits l kept []) : kept = l := by
  generalize hnil : ([] : List α) = removed at h
  induction h with
  | nil => rfl
  | keep a _ ih => rw [ih hnil]
  | remove a _ _ => cases hnil

/-- Where nothing that is chosen is removed, the same is chosen of what is kept. -/
theorem filter_eq (h : Splits l kept removed) {p : α → Bool} (hp : ∀ a ∈ removed, p a = false) :
    kept.filter p = l.filter p := by
  have hnone : removed.filter p = [] := List.filter_eq_nil_iff.2 fun a ha => by simp [hp a ha]
  exact eq_of_nil (hnone ▸ h.filter p)

end Splits

/-! ### Unloaded sections -/

/-- An unloaded section that could be placed can be placed with a part of its steps. -/
theorem Section.exists_mapUnloaded? {r r' : Routing} {s : Section} {m : MappedSection}
    (h : s.Mapped r 0 m) (hr : s.IsRegular r) (hr' : s.IsRegular r')
    (hsub : (s.steps r').Sublist (s.steps r)) : ∃ m', s.mapUnloaded? r' = some m' := by
  have hzero (a : UInt64) : a.toNat ∣ (0 : UInt64).toNat := Nat.dvd_zero _
  have haddress : m.address = 0 := eq_of_align? (dvd_startAlign hr).1 h.aligned (hzero _)
  -- the alignments that are asked for have no influence at zero
  have haligned : align? 0 (s.startAlign (s.steps r')) = some 0 := by
    rcases align?_cases (dvd_startAlign hr').1 (by decide : (0 : UInt64) ≤ addressLimit)
      with ⟨start, hstart⟩ | ⟨-, hlt⟩
    · rw [hstart, eq_of_align? (dvd_startAlign hr').1 hstart (hzero _)]
    · rw [roundUp_of_dvd (pos_of_isPowerOfTwo (dvd_startAlign hr').1) (hzero _)] at hlt
      exact absurd hlt (Nat.not_lt_zero _)
  have hlow : (0 : UInt64) ≤ m.address := UInt64.le_of_eq haddress.symm
  obtain ⟨swept, hswept⟩ : ∃ swept, sweep? Step.move? (s.steps r') 0 = some swept := by
    refine h.swept.exists_sweep?_of_sublist hsub hlow ?_ ?_
    · intro step hstep c e next hmove
      obtain ⟨hstart, hstop, rfl⟩ := Step.bounds_of_move? (hr.steps step hstep) hmove
      exact UInt64.le_trans hstart hstop
    · intro step hstep c e next c' hmove hc
      obtain ⟨e', next', hmove', -, hle⟩ := step.alike_self.exists_move? (hr.steps step hstep) hc hmove
      exact ⟨e', next', hmove', hle⟩
  refine ⟨⟨s.name, s.contents, 0, swept.2, swept.1⟩, ?_⟩
  simp only [mapUnloaded?, move?, haligned, Option.bind_eq_bind, Option.bind_some, hswept,
    Option.map_some]

namespace Layout

variable {d : Layout} {collect : Bool} {inputs kept removed : List Input} {m : LinkMap}

/-- The input is an orphan, or its first rule stands in an unloaded section. -/
def IsSpare (d : Layout) (collect : Bool) (i : Input) : Prop :=
  (d.drops collect i = false ∧ d.firstRule? i.name = none) ∨
    ∃ k, d.owner? i.name = some k ∧ d.loaded.length ≤ k

/-- Loaded sections do not own spare inputs. -/
theorem IsSpare.owner?_ne {i : Input} (h : d.IsSpare collect i) {k : Nat}
    (hk : k < d.loaded.length) : d.owner? i.name ≠ some k := by
  intro howner
  rcases h with ⟨-, hnone⟩ | ⟨k', hk', hle⟩
  · have hsome := d.isSome_owner? i.name
    rw [howner, hnone] at hsome
    cases hsome
  · rw [howner, Option.some.injEq] at hk'
    omega

/-- The rules of a loaded section take the same without the spare inputs. -/
theorem taken_of_splits (hsplit : Splits inputs kept removed)
    (hspare : ∀ i ∈ removed, d.IsSpare collect i) {k : Nat} (hk : k < d.loaded.length) (s : Section)
    (j : Nat) : d.taken collect kept k s j = d.taken collect inputs k s j := by
  refine hsplit.filter_eq fun i hi => ?_
  rw [beq_false_of_ne ((hspare i hi).owner?_ne hk), Bool.and_false, Bool.false_and]

end Layout

namespace Layout.Linked

variable {d : Layout} {collect : Bool} {inputs kept removed : List Input} {m : LinkMap}

/-- Without spare inputs everything can still be placed, the segments as before. -/
theorem exists_map?_of_splits (h : d.Linked inputs collect m) (hsplit : Splits inputs kept removed)
    (hspare : ∀ i ∈ removed, d.IsSpare collect i) :
    ∃ unloaded, d.map? (d.routing collect kept) = some (m.segments, unloaded) := by
  have hkept : ∀ i ∈ kept, isPowerOfTwo i.align = true := fun i hi =>
    h.inputs_aligned i (hsplit.sublist.subset hi)
  have hregular := isRegular_of_sound h.sound hkept collect
  have hnodup := h.sound.names_nodup
  have hloaded : ∀ s ∈ d.loaded,
      s.steps (d.routing collect kept) = s.steps (d.routing collect inputs) := by
    intro s hs
    obtain ⟨k, hk⟩ := List.mem_iff_getElem?.1 hs
    obtain ⟨hlt, -⟩ := List.getElem?_eq_some_iff.1 hk
    refine steps_routing_congr hnodup ((List.getElem?_append_left hlt).trans hk) fun j rule _ => ?_
    rw [taken_of_splits hsplit hspare hlt]
  obtain ⟨unloaded, hunloaded, -⟩ := exists_mapM_of_forall₂ (T := fun _ _ => True)
    (f := (·.mapUnloaded? (d.routing collect kept))) h.unloaded fun s hs t hmapped => by
      obtain ⟨k, hk⟩ := List.mem_iff_getElem?.1 (List.mem_append_right d.loaded hs)
      obtain ⟨m', hm'⟩ := Section.exists_mapUnloaded? hmapped (h.isRegular.unloaded s hs)
        (hregular.unloaded s hs) (steps_routing_sublist hnodup hk fun j rule _ =>
          rule.order.arrange_sublist (hsplit.sublist.filter _))
      exact ⟨m', hm', trivial⟩
  obtain ⟨stop, hsegments⟩ := h.segments
  refine ⟨unloaded, ?_⟩
  simp only [map?, sweep?_segments_congr hloaded, hsegments.sweep?_eq, hunloaded]
  rfl

end Layout.Linked

namespace Layout

variable {d : Layout} {collect : Bool} {inputs kept removed : List Input} {m : LinkMap}

/-- Without spare inputs linking succeeds with the same image. What collection drops is the same but
    for those of the removed inputs that it had dropped. -/
theorem link_removed (h : d.link inputs collect = .ok m) (hsplit : Splits inputs kept removed)
    (hspare : ∀ i ∈ removed, d.IsSpare collect i) :
    ∃ m', d.link kept collect = .ok m' ∧ m'.entry = m.entry ∧ m'.segments = m.segments ∧
      m'.symbols = m.symbols ∧
      Splits m.discarded m'.discarded (removed.filter (d.drops collect)) ∧
      ((∀ i ∈ removed, d.drops collect i = false) → m'.discarded = m.discarded) := by
  have hlinked := linked_of_link h
  obtain ⟨unloaded, hmap⟩ := hlinked.exists_map?_of_splits hsplit hspare
  have hfault : d.fault? = none := by
    cases hfault : d.fault? with
    | none => rfl
    | some f => simp [link, hfault] at h
  have hready : d.Ready kept := ⟨hfault, fun i hi =>
    (isPowerOfTwo_iff_toNat _).1 (hlinked.inputs_aligned i (hsplit.sublist.subset hi))⟩
  rcases hready.link_eq_of_map? hmap with ⟨hnone, -⟩ | ⟨-, m', hlink, hsegments, -⟩
  · rw [hlinked.entry] at hnone
    cases hnone
  · have hlinked' := linked_of_link hlink
    have hentry : m'.entry = m.entry := by
      have h := hlinked'.entry
      rw [hsegments, hlinked.entry, Option.some.injEq] at h
      exact h.symm
    have hdiscarded : Splits m.discarded m'.discarded (removed.filter (d.drops collect)) := by
      rw [hlinked.discarded, hlinked'.discarded, discarded_routing, discarded_routing]
      exact hsplit.filter (d.drops collect)
    refine ⟨m', hlink, hentry, hsegments, ?_, hdiscarded, fun hstay => ?_⟩
    · rw [hlinked.symbols, hlinked'.symbols, hsegments, hentry]
    · rw [hlinked.discarded, hlinked'.discarded, discarded_routing, discarded_routing]
      exact hsplit.filter_eq hstay

/-- Collection spares some debug data and drops other; all of it is removed, and an orphan. -/
theorem link_removed_debug :
    let a : Input := ⟨".crt0", 0x40, 4, true⟩
    let b : Input := ⟨".debug_info", 0x500, 1, true⟩
    let c : Input := ⟨".debug_line", 0x80, 1, false⟩
    let e : Input := ⟨".note", 0x24, 4, true⟩
    let f : Input := ⟨".text.unused", 8, 4, false⟩
    ∃ m, Standard.layout.link [b, c, a, e, f] true = .ok m ∧
      Splits [b, c, a, e, f] [a, f] [b, c, e] ∧
      (∀ i ∈ [b, c, e], Standard.layout.IsSpare true i) ∧
      ∃ m', Standard.layout.link [a, f] true = .ok m' ∧ m'.entry = m.entry ∧
        m'.segments = m.segments ∧ m'.symbols = m.symbols ∧
        Splits m.discarded m'.discarded [c] := by
  intro a b c e f
  obtain ⟨m, hm⟩ := exists_of_isOk (e := Standard.layout.link [b, c, a, e, f] true)
    (by decide +kernel)
  have hsplit : Splits [b, c, a, e, f] [a, f] [b, c, e] :=
    .remove b (.remove c (.keep a (.remove e (.keep f .nil))))
  have hspare : ∀ i ∈ [b, c, e], Standard.layout.IsSpare true i := by
    simp only [List.forall_mem_cons]
    exact ⟨.inr ⟨17, by decide +kernel, by decide +kernel⟩,
      .inr ⟨19, by decide +kernel, by decide +kernel⟩,
      .inl ⟨by decide +kernel, by decide +kernel⟩, fun _ h => by cases h⟩
  have hdropped : [b, c, e].filter (Standard.layout.drops true) = [c] := by decide +kernel
  obtain ⟨m', hlink, hentry, hsegments, hsymbols, hdiscarded, -⟩ := link_removed hm hsplit hspare
  exact ⟨m, hm, hsplit, hspare, m', hlink, hentry, hsegments, hsymbols, hdropped ▸ hdiscarded⟩

/-- The list of what was dropped does not stay the same if dropped inputs are removed. -/
theorem not_forall_discarded_eq : ¬ ∀ (d : Layout) (collect : Bool)
    (inputs kept removed : List Input) (m : LinkMap), d.link inputs collect = .ok m →
      Splits inputs kept removed → (∀ i ∈ removed, d.IsSpare collect i) →
        ∃ m', d.link kept collect = .ok m' ∧ m'.entry = m.entry ∧ m'.segments = m.segments ∧
          m'.symbols = m.symbols ∧ m'.discarded = m.discarded := by
  intro h
  let a : Input := ⟨".crt0", 0x40, 4, true⟩
  let b : Input := ⟨".debug_info", 0x500, 1, false⟩
  have hspare : ∀ i ∈ [b], Standard.layout.IsSpare true i := by
    simp only [List.forall_mem_singleton]
    exact .inr ⟨17, by decide +kernel, by decide +kernel⟩
  obtain ⟨m, hm⟩ := exists_of_isOk (e := Standard.layout.link [a, b] true) (by decide +kernel)
  obtain ⟨m', hm', -, -, -, hdiscarded⟩ :=
    h _ _ _ _ _ m hm (.keep a (.remove b .nil)) hspare
  have hdropped := (linked_of_link hm).discarded
  have hdropped' := (linked_of_link hm').discarded
  rw [discarded_routing] at hdropped hdropped'
  rw [hdropped, hdropped'] at hdiscarded
  exact absurd hdiscarded (by decide +kernel)

end Layout

end BootImage
