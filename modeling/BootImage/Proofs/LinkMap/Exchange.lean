import BootImage.Proofs.LinkMap.Order
import BootImage.Proofs.LinkMap.Relinked
import Mathlib.Logic.Relation

/-! The order in which inputs are listed.

    Two neighbours in the list may change places if no rule takes both, or if the order of the rule
    that does tells them apart. No rule notices such an exchange: it takes the same inputs in the same
    order, or sorts them into the same order again. So after any number of exchanges the image is
    the same. The main statement is `Layout.link_exchanged`.

        listed    .text.a  .data.x  .text.b        .data.x  .text.a  .text.b
        taken     .text.a  .text.b │ .data.x       .text.a  .text.b │ .data.x -/

namespace BootImage

open Word

/-- The order tells two inputs apart. -/
def Order.TellsApart : Order → Input → Input → Prop
  | .listed, _, _ => False
  | .byName, a, b => a.name ≠ b.name
  | .byPriority, a, b => priority a.name ≠ priority b.name

/-- Where not both of two neighbours are chosen, it does not matter which is listed first. -/
theorem filter_exchange {α : Type} {p : α → Bool} {a b : α} (h : ¬ (p a = true ∧ p b = true))
    (before after : List α) :
    (before ++ a :: b :: after).filter p = (before ++ b :: a :: after).filter p := by
  simp only [List.filter_append, List.filter_cons]
  cases ha : p a <;> cases hb : p b <;> simp_all

namespace Order

/-- A part of some inputs, put in order, is a part of them, put in order. -/
theorem arrange_sublist (o : Order) {inputs part : List Input} (h : part.Sublist inputs) :
    (o.arrange part).Sublist (o.arrange inputs) := by
  have harranges : ∀ l, o.Arranges priority l (o.arrange l) :=
    o.arranges_arrange fun _ _ => Iff.rfl
  cases o with
  | listed => exact h
  | byName => exact (harranges inputs).sublist (harranges part) fun k => h.filter _
  | byPriority => exact (harranges inputs).sublist (harranges part) fun k => h.filter _

/-- Lists with the same inputs under every key are put in the same order. -/
theorem eq_of_stablySorted {κ : Type} [LE κ] [DecidableEq κ] [Std.IsLinearOrder κ] {key : Input → κ}
    {l l' after after' : List Input} (h : StablySorted key l after)
    (h' : StablySorted key l' after')
    (hkeys : ∀ k, (l.filter fun i => key i = k) = l'.filter fun i => key i = k) : after = after' :=
  List.Sublist.antisymm (h'.sublist h fun k => hkeys k ▸ List.Sublist.refl _)
    (h.sublist h' fun k => hkeys k ▸ List.Sublist.refl _)

/-- Inputs that the order tells apart may be listed either way. -/
theorem arrange_exchange (o : Order) {a b : Input} (h : o.TellsApart a b)
    (before after : List Input) :
    o.arrange (before ++ a :: b :: after) = o.arrange (before ++ b :: a :: after) := by
  have harranges : ∀ l, o.Arranges priority l (o.arrange l) :=
    o.arranges_arrange fun _ _ => Iff.rfl
  cases o with
  | listed => exact h.elim
  | byName =>
    refine eq_of_stablySorted (harranges _) (harranges _) fun k => filter_exchange ?_ _ _
    rintro ⟨ha, hb⟩
    rw [decide_eq_true_iff] at ha hb
    exact h (Text.encode_inj.1 (ha.trans hb.symm))
  | byPriority =>
    refine eq_of_stablySorted (harranges _) (harranges _) fun k => filter_exchange ?_ _ _
    rintro ⟨ha, hb⟩
    rw [decide_eq_true_iff] at ha hb
    exact h (ha.trans hb.symm)

end Order

namespace Layout

variable {d : Layout} {collect : Bool}

/-- The rule at position `j` of section `k` takes the input: it stays, and no other rule accepts it
    earlier. -/
def Takes (d : Layout) (collect : Bool) (k : Nat) (s : Section) (j : Nat) (i : Input) : Prop :=
  d.drops collect i = false ∧ d.owner? i.name = some k ∧ s.rulePosition? i.name = some j

/-- Two inputs may change places: a rule that takes both tells them apart by its order. -/
def Exchangeable (d : Layout) (collect : Bool) (a b : Input) : Prop :=
  ∀ (k : Nat) (s : Section) (j : Nat) (rule : InputRule),
    d.sections[k]? = some s → s.rules[j]? = some rule →
      d.Takes collect k s j a → d.Takes collect k s j b → rule.order.TellsApart a b

/-- Two neighbours in the list change places. -/
inductive Exchange (d : Layout) (collect : Bool) : List Input → List Input → Prop
  | swap (before after : List Input) {a b : Input} (h : d.Exchangeable collect a b) :
    Exchange d collect (before ++ a :: b :: after) (before ++ b :: a :: after)

theorem takes_iff {k : Nat} {s : Section} {j : Nat} {i : Input} :
    (!d.drops collect i && d.owner? i.name == some k && s.rulePosition? i.name == some j) = true ↔
      d.Takes collect k s j i := by
  simp [Takes, and_assoc]

/-- No rule notices that neighbours change places. -/
theorem Exchange.takesAlike {inputs inputs' : List Input} (h : d.Exchange collect inputs inputs') :
    d.TakesAlike collect collect inputs inputs' := by
  obtain ⟨before, after, hexchange⟩ := h
  rename_i a b
  intro k s j rule hk hj
  by_cases htakes : d.Takes collect k s j a ∧ d.Takes collect k s j b
  · obtain ⟨ha, hb⟩ := htakes
    simp only [taken, List.filter_append, List.filter_cons, takes_iff.2 ha, takes_iff.2 hb, if_true]
    exact rule.order.arrange_exchange (hexchange k s j rule hk hj ha hb) _ _
  · rw [taken, filter_exchange (by rwa [takes_iff, takes_iff]), ← taken]

theorem Exchange.perm {inputs inputs' : List Input} (h : d.Exchange collect inputs inputs') :
    inputs'.Perm inputs := by
  obtain ⟨before, after, -⟩ := h
  exact (List.Perm.swap _ _ after).append_left before

/-- Any number of exchanges leaves what the rules take, and the inputs but for their order. -/
theorem takesAlike_of_exchanges {inputs inputs' : List Input}
    (h : Relation.ReflTransGen (d.Exchange collect) inputs inputs') :
    d.TakesAlike collect collect inputs inputs' ∧ inputs'.Perm inputs := by
  induction h with
  | refl => exact ⟨fun _ _ _ _ _ _ => rfl, .refl _⟩
  | tail _ hlast ih =>
    obtain ⟨htakes, hperm⟩ := ih
    refine ⟨fun k s j rule hk hj => ?_, hlast.perm.trans hperm⟩
    exact (htakes k s j rule hk hj).trans (hlast.takesAlike k s j rule hk hj)

/-- Linking ends alike however often such neighbours change places. -/
theorem link_exchanged {inputs inputs' : List Input}
    (haligned : ∀ i ∈ inputs, i.align.toNat.isPowerOfTwo)
    (h : Relation.ReflTransGen (d.Exchange collect) inputs inputs') :
    EndAlike LinkMap.Coincides (d.link inputs collect) (d.link inputs' collect) := by
  obtain ⟨htakes, hperm⟩ := takesAlike_of_exchanges h
  exact link_alike htakes haligned fun i hi => haligned i (hperm.mem_iff.1 hi)

/-- The entry goes before a hook, and then a hook of a lower number does. -/
theorem link_exchanged_hooks :
    let a : Input := ⟨".init_array.200", 4, 4, true⟩
    let b : Input := ⟨".init_array.100", 4, 4, true⟩
    let c : Input := ⟨".crt0", 0x40, 4, true⟩
    (∀ i ∈ [a, c, b], i.align.toNat.isPowerOfTwo) ∧
      Relation.ReflTransGen (Standard.layout.Exchange false) [a, c, b] [c, b, a] ∧
      (Standard.layout.link [a, c, b] false).isOk = true ∧
      (Standard.layout.link [c, b, a] false).isOk = true ∧
      EndAlike LinkMap.Coincides (Standard.layout.link [a, c, b] false)
        (Standard.layout.link [c, b, a] false) := by
  intro a b c
  have haligned : ∀ i ∈ [a, c, b], i.align.toNat.isPowerOfTwo := isPowerOfTwo_of_all (by decide)
  have hentry : Standard.layout.Exchangeable false a c := by
    rintro k s j rule - - ⟨-, hka, -⟩ ⟨-, hkc, -⟩
    have hne : Standard.layout.owner? a.name ≠ Standard.layout.owner? c.name := by decide +kernel
    exact absurd (hka.trans hkc.symm) hne
  have hhooks : Standard.layout.Exchangeable false a b := by
    rintro k s j rule hk hj ⟨-, hka, hja⟩ -
    obtain rfl : 6 = k := Option.some.inj ((by decide +kernel : _ = some 6).symm.trans hka)
    obtain rfl := Option.some.inj hk
    obtain rfl : 0 = j := Option.some.inj ((by decide +kernel : _ = some 0).symm.trans hja)
    obtain rfl := Option.some.inj hj
    show priority a.name ≠ priority b.name
    decide +kernel
  have hexchanged : Relation.ReflTransGen (Standard.layout.Exchange false) [a, c, b] [c, b, a] :=
    .tail (.tail .refl (.swap [] [b] hentry)) (.swap [c] [] hhooks)
  have halike := link_exchanged haligned hexchanged
  -- the hooks of this list are in order already, so there is nothing to sort
  have hlinked : (Standard.layout.link [c, b, a] false).isOk = true := by cbv
  exact ⟨haligned, hexchanged, halike.isOk_eq.trans hlinked, hlinked, halike⟩

end Layout

end BootImage
