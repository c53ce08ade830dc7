import BootImage.Cursor
import BootImage.Proofs.Word
import Mathlib.Data.List.Forall2

/-! Sweeps of the cursor.

    A move that is answered ends where the natural numbers say, and not past the limit. A sweep is a
    list of moves, each from where the one before ended; what holds of one move is carried over a
    whole sweep by induction on it. What a sweep gives lies in order:

        first                                              last
        |    |== b₀ ==|   |= b₁ =||===== b₂ =====|  |= b₃ =|
             start    stop -/

namespace BootImage.Cursor

open Word

theorem within?_eq_some {c r : UInt64} (h : within? c = some r) : r = c ∧ r ≤ addressLimit := by
  simp only [within?, Option.ite_none_right_eq_some, Option.some.injEq] at h
  obtain ⟨hle, rfl⟩ := h
  exact ⟨rfl, hle⟩

/-- An alignment that is answered rounds up, and stays within the limit. -/
theorem toNat_of_align? {c a r : UInt64} (ha : isPowerOfTwo a = true) (h : align? c a = some r) :
    r.toNat = roundUp c.toNat a.toNat ∧ r ≤ addressLimit := by
  obtain ⟨w, hw, hr⟩ := Option.bind_eq_some_iff.1 h
  obtain ⟨rfl, hlim⟩ := within?_eq_some hr
  exact ⟨toNat_of_alignUp? ha hw, hlim⟩

/-- A size that is answered is added, and stays within the limit. -/
theorem toNat_of_advance? {c n r : UInt64} (h : advance? c n = some r) :
    r.toNat = c.toNat + n.toNat ∧ r ≤ addressLimit := by
  obtain ⟨w, hw, hr⟩ := Option.bind_eq_some_iff.1 h
  obtain ⟨rfl, hlim⟩ := within?_eq_some hr
  exact ⟨toNat_of_add?_eq_some hw, hlim⟩

/-- Up to the limit, an alignment is answered exactly if it stays within the limit. -/
theorem align?_cases {c a : UInt64} (ha : isPowerOfTwo a = true) (hc : c ≤ addressLimit) :
    (∃ r, align? c a = some r) ∨
      (align? c a = none ∧ addressLimit.toNat < roundUp c.toNat a.toNat) := by
  have hlow : c.toNat ≤ 2 ^ 63 :=
    Nat.le_trans (UInt64.le_iff_toNat_le.1 hc) (by decide)
  obtain ⟨r, hr⟩ := (exists_alignUp? ha hlow).2
  rw [align?, hr, Option.bind_some, within?, ← toNat_of_alignUp? ha hr]
  split
  · exact .inl ⟨r, rfl⟩
  · next hlimit => exact .inr ⟨rfl, UInt64.lt_iff_toNat_lt.1 (UInt64.not_le.1 hlimit)⟩

/-- A size is answered exactly if the sum stays within the limit. -/
theorem advance?_cases (c n : UInt64) :
    (∃ r, advance? c n = some r) ∨
      (advance? c n = none ∧ addressLimit.toNat < c.toNat + n.toNat) := by
  rw [advance?, add?]
  split
  · next hlt =>
    rw [Option.bind_some, within?]
    split
    · exact .inl ⟨_, rfl⟩
    · next hlimit =>
      have hsum : (c + n).toNat = c.toNat + n.toNat := by
        rw [UInt64.toNat_add]
        exact Nat.mod_eq_of_lt hlt
      exact .inr ⟨rfl, hsum ▸ UInt64.lt_iff_toNat_lt.1 (UInt64.not_le.1 hlimit)⟩
  · next hsize =>
    have hlimit : addressLimit.toNat < UInt64.size := addressLimit.toNat_lt
    exact .inr ⟨rfl, by omega⟩

theorem le_of_align? {c a r : UInt64} (ha : isPowerOfTwo a = true) (h : align? c a = some r) :
    c ≤ r := by
  rw [UInt64.le_iff_toNat_le, (toNat_of_align? ha h).1]
  exact le_roundUp _ (pos_of_isPowerOfTwo ha)

theorem dvd_of_align? {c a r : UInt64} (ha : isPowerOfTwo a = true) (h : align? c a = some r) :
    a.toNat ∣ r.toNat := by
  rw [(toNat_of_align? ha h).1]
  exact dvd_roundUp _ _

/-- Aligning keeps what divided the cursor, as far as it is a power of two. -/
theorem dvd_of_align?_of_dvd {b c a r : UInt64} (hb : isPowerOfTwo b = true)
    (ha : isPowerOfTwo a = true) (h : align? c a = some r) (hdvd : b.toNat ∣ c.toNat) :
    b.toNat ∣ r.toNat := by
  rw [(toNat_of_align? ha h).1]
  exact dvd_roundUp_of_dvd (pos_of_isPowerOfTwo ha) (dvd_or_dvd ha hb) hdvd

/-- A cursor that is aligned already stays. -/
theorem eq_of_align? {c a r : UInt64} (ha : isPowerOfTwo a = true) (h : align? c a = some r)
    (hdvd : a.toNat ∣ c.toNat) : r = c := by
  rw [← UInt64.toNat_inj, (toNat_of_align? ha h).1, roundUp_of_dvd (pos_of_isPowerOfTwo ha) hdvd]

theorem le_of_advance? {c n r : UInt64} (h : advance? c n = some r) : c ≤ r := by
  rw [UInt64.le_iff_toNat_le, (toNat_of_advance? h).1]
  omega

/-- From a lower cursor an alignment is answered too, and no higher. -/
theorem align?_of_le {c c' a r : UInt64} (ha : isPowerOfTwo a = true) (hc : c' ≤ c)
    (h : align? c a = some r) : ∃ r', align? c' a = some r' ∧ r' ≤ r := by
  obtain ⟨hround, hlimit⟩ := toNat_of_align? ha h
  have hle : roundUp c'.toNat a.toNat ≤ r.toNat :=
    hround ▸ roundUp_le_roundUp (UInt64.le_iff_toNat_le.1 hc) a.toNat
  have hc' : c' ≤ addressLimit := UInt64.le_trans hc (UInt64.le_trans (le_of_align? ha h) hlimit)
  rcases align?_cases ha hc' with ⟨r', hr'⟩ | ⟨-, hlt⟩
  · exact ⟨r', hr', UInt64.le_iff_toNat_le.2 ((toNat_of_align? ha hr').1 ▸ hle)⟩
  · exact absurd (Nat.le_trans hle (UInt64.le_iff_toNat_le.1 hlimit)) (Nat.not_le.2 hlt)

/-- From a lower cursor a size that is no larger is answered too, and no higher. -/
theorem advance?_of_le {c c' n n' r : UInt64} (hc : c' ≤ c) (hn : n' ≤ n)
    (h : advance? c n = some r) : ∃ r', advance? c' n' = some r' ∧ r' ≤ r := by
  obtain ⟨hsum, hlimit⟩ := toNat_of_advance? h
  have hle : c'.toNat + n'.toNat ≤ r.toNat :=
    hsum ▸ Nat.add_le_add (UInt64.le_iff_toNat_le.1 hc) (UInt64.le_iff_toNat_le.1 hn)
  rcases advance?_cases c' n' with ⟨r', hr'⟩ | ⟨-, hlt⟩
  · exact ⟨r', hr', UInt64.le_iff_toNat_le.2 ((toNat_of_advance? hr').1 ▸ hle)⟩
  · exact absurd (Nat.le_trans hle (UInt64.le_iff_toNat_le.1 hlimit)) (Nat.not_le.2 hlt)

/-! ### Sweeps as derivations -/

variable {α β : Type} {move : α → UInt64 → Option (β × UInt64)}

/-- The moves of a sweep, one after the other. -/
inductive Swept (move : α → UInt64 → Option (β × UInt64)) :
    List α → UInt64 → List β → UInt64 → Prop
  | nil (c : UInt64) : Swept move [] c [] c
  | cons {a : α} {as : List α} {b : β} {bs : List β} {c next stop : UInt64}
      (head : move a c = some (b, next)) (tail : Swept move as next bs stop) :
      Swept move (a :: as) c (b :: bs) stop

theorem swept_of_sweep? : ∀ {as : List α} {c stop : UInt64} {bs : List β},
    sweep? move as c = some (bs, stop) → Swept move as c bs stop
  | [], c, stop, bs, h => by
    simp only [sweep?, Option.some.injEq, Prod.mk.injEq] at h
    obtain ⟨rfl, rfl⟩ := h
    exact .nil c
  | a :: as, c, stop, bs, h => by
    simp only [sweep?, Option.bind_eq_bind, Option.bind_eq_some_iff] at h
    obtain ⟨⟨b, next⟩, hmove, ⟨rest, last⟩, hrest, h⟩ := h
    simp only [Option.some.injEq, Prod.mk.injEq] at h
    obtain ⟨rfl, rfl⟩ := h
    exact .cons hmove (swept_of_sweep? hrest)

namespace Swept

variable {as : List α} {bs : List β} {c stop : UInt64}

theorem sweep?_eq (h : Swept move as c bs stop) : sweep? move as c = some (bs, stop) := by
  induction h with
  | nil c => rfl
  | cons head tail ih => simp [sweep?, head, ih]

/-- What every move gives, the sweep gives element by element. -/
theorem forall₂ {R : α → β → Prop}
    (hstep : ∀ a ∈ as, ∀ c b next, move a c = some (b, next) → R a b)
    (h : Swept move as c bs stop) : List.Forall₂ R as bs := by
  induction h with
  | nil c => exact .nil
  | cons head tail ih =>
    exact .cons (hstep _ List.mem_cons_self _ _ _ head)
      (ih fun a ha => hstep a (List.mem_cons_of_mem _ ha))

/-- All that a sweep gives was given by one of its moves. -/
theorem exists_move (h : Swept move as c bs stop) {b : β} (hb : b ∈ bs) :
    ∃ a ∈ as, ∃ c next, move a c = some (b, next) := by
  induction h with
  | nil c => cases hb
  | cons head tail ih =>
    rcases List.mem_cons.1 hb with rfl | hb
    · exact ⟨_, List.mem_cons_self, _, _, head⟩
    · obtain ⟨a, ha, hmove⟩ := ih hb
      exact ⟨a, List.mem_cons_of_mem _ ha, hmove⟩

/-- What every move keeps of the cursor, the sweep keeps. -/
theorem preserves {P : UInt64 → Prop}
    (hstep : ∀ a ∈ as, ∀ c b next, P c → move a c = some (b, next) → P next)
    (h : Swept move as c bs stop) (hc : P c) : P stop := by
  induction h with
  | nil c => exact hc
  | cons head tail ih =>
    exact ih (fun a ha => hstep a (List.mem_cons_of_mem _ ha))
      (hstep _ List.mem_cons_self _ _ _ hc head)

/-- What two moves in a row give stands side by side in what the sweep gives. -/
theorem isChain {R : β → β → Prop}
    (hstep : ∀ a ∈ as, ∀ a' ∈ as, ∀ c b next b' next',
      move a c = some (b, next) → move a' next = some (b', next') → R b b')
    (h : Swept move as c bs stop) : bs.IsChain R := by
  induction h with
  | nil c => exact .nil
  | cons head tail ih =>
    have htail := ih fun a ha a' ha' =>
      hstep a (List.mem_cons_of_mem _ ha) a' (List.mem_cons_of_mem _ ha')
    cases tail with
    | nil next => exact .singleton _
    | cons head' tail' =>
      exact .cons_cons (hstep _ List.mem_cons_self _ (List.mem_cons_of_mem _ List.mem_cons_self)
        _ _ _ _ _ head head') htail

/-- A sweep over one element is its move. -/
theorem exists_of_singleton {a : α} (h : Swept move [a] c bs stop) :
    ∃ b, bs = [b] ∧ move a c = some (b, stop) := by
  cases h with
  | cons head tail =>
    cases tail
    exact ⟨_, rfl, head⟩

/-- A sweep over a list with a first element starts with its move. -/
theorem exists_of_cons {a : α} (h : Swept move (a :: as) c bs stop) :
    ∃ b next rest, bs = b :: rest ∧ move a c = some (b, next) := by
  cases h with
  | cons head tail => exact ⟨_, _, _, rfl, head⟩

/-- A sweep over two lists is a sweep over the first and then one over the second. -/
theorem of_append : ∀ {as as' : List α} {c stop : UInt64} {bs : List β},
    Swept move (as ++ as') c bs stop → ∃ mid bs₁ bs₂,
      bs = bs₁ ++ bs₂ ∧ Swept move as c bs₁ mid ∧ Swept move as' mid bs₂ stop
  | [], _, c, _, bs, h => ⟨c, [], bs, rfl, .nil c, h⟩
  | _ :: _, _, _, _, _, .cons (b := b) head tail => by
    obtain ⟨mid, bs₁, bs₂, rfl, h₁, h₂⟩ := of_append tail
    exact ⟨mid, b :: bs₁, bs₂, rfl, .cons head h₁, h₂⟩

/-- Where moves go upwards and can also be made from lower cursors, a part of what was swept can be
    swept from a lower cursor. -/
theorem exists_sweep?_of_sublist {as' : List α} (hsub : as'.Sublist as) {c' : UInt64} (hc : c' ≤ c)
    (hup : ∀ a ∈ as, ∀ c b next, move a c = some (b, next) → c ≤ next)
    (hlow : ∀ a ∈ as, ∀ c b next c', move a c = some (b, next) → c' ≤ c →
      ∃ b' next', move a c' = some (b', next') ∧ next' ≤ next)
    (h : Swept move as c bs stop) : ∃ swept, sweep? move as' c' = some swept := by
  induction hsub generalizing c c' bs with
  | slnil => exact ⟨([], c'), rfl⟩
  | cons a _ ih =>
    cases h with
    | cons head tail =>
      have hnext := hup a List.mem_cons_self _ _ _ head
      exact ih (UInt64.le_trans hc hnext) (fun b hb => hup b (List.mem_cons_of_mem a hb))
        (fun b hb => hlow b (List.mem_cons_of_mem a hb)) tail
  | cons_cons a _ ih =>
    cases h with
    | cons head tail =>
      obtain ⟨b', next', hmove, hnext⟩ := hlow a List.mem_cons_self _ _ _ c' head hc
      obtain ⟨swept, hswept⟩ := ih hnext (fun b hb => hup b (List.mem_cons_of_mem a hb))
        (fun b hb => hlow b (List.mem_cons_of_mem a hb)) tail
      exact ⟨(b' :: swept.1, swept.2), by simp [sweep?, hmove, hswept]⟩

/-- Where each move can also be made by a related one from lower cursors, and that goes no higher,
    what was swept can be swept by related elements from a lower cursor. -/
theorem exists_of_le {α' β' : Type} {move' : α' → UInt64 → Option (β' × UInt64)}
    {S : α' → α → Prop} {T : β' → β → Prop}
    (hstep : ∀ a' a, a ∈ as → S a' a → ∀ c' c b next, c' ≤ c → move a c = some (b, next) →
      ∃ b' next', move' a' c' = some (b', next') ∧ T b' b ∧ next' ≤ next)
    (h : Swept move as c bs stop) {as' : List α'} (hS : List.Forall₂ S as' as) {c' : UInt64}
    (hc : c' ≤ c) :
    ∃ bs' stop', Swept move' as' c' bs' stop' ∧ List.Forall₂ T bs' bs ∧ stop' ≤ stop := by
  induction h generalizing as' c' with
  | nil c =>
    cases hS
    exact ⟨[], c', .nil c', .nil, hc⟩
  | cons head tail ih =>
    obtain ⟨a', rest, ha, hrest, rfl⟩ := List.forall₂_cons_right_iff.1 hS
    obtain ⟨b', next', hmove, hT, hnext⟩ := hstep _ _ List.mem_cons_self ha _ _ _ _ hc head
    obtain ⟨bs', stop', hswept, hTs, hstop⟩ :=
      ih (fun x' x hx => hstep x' x (List.mem_cons_of_mem _ hx)) hrest hnext
    exact ⟨b' :: bs', stop', .cons hmove hswept, .cons hT hTs, hstop⟩

end Swept

/-! ### Regions in order -/

/-- Regions from `first` to `last`: each starts at or above the end of the one before, and the last
    ends at `last` exactly. -/
def InOrder (start stop : β → UInt64) : UInt64 → List β → UInt64 → Prop
  | first, [], last => first = last
  | first, b :: rest, last =>
    first ≤ start b ∧ start b ≤ stop b ∧ InOrder start stop (stop b) rest last

variable {start stop : β → UInt64}

/-- A sweep of moves that go upwards gives regions in order. -/
theorem Swept.inOrder {as : List α} {bs : List β} {c last : UInt64}
    (hstep : ∀ a ∈ as, ∀ c b next, move a c = some (b, next) →
      c ≤ start b ∧ start b ≤ stop b ∧ stop b = next)
    (h : Swept move as c bs last) : InOrder start stop c bs last := by
  induction h with
  | nil c => rfl
  | cons head tail ih =>
    obtain ⟨hstart, hstop, rfl⟩ := hstep _ List.mem_cons_self _ _ _ head
    exact ⟨hstart, hstop, ih fun a ha => hstep a (List.mem_cons_of_mem _ ha)⟩

namespace InOrder

theorem le : ∀ {bs : List β} {first last : UInt64}, InOrder start stop first bs last → first ≤ last
  | [], _, _, h => UInt64.le_of_eq h
  | _ :: _, _, _, ⟨hstart, hstop, hrest⟩ =>
    UInt64.le_trans hstart (UInt64.le_trans hstop hrest.le)

/-- Every region lies between the two ends. -/
theorem bounds : ∀ {bs : List β} {first last : UInt64}, InOrder start stop first bs last →
    ∀ b ∈ bs, first ≤ start b ∧ start b ≤ stop b ∧ stop b ≤ last
  | b :: rest, first, last, ⟨hstart, hstop, hrest⟩, x, hx => by
    rcases List.mem_cons.1 hx with rfl | hx
    · exact ⟨hstart, hstop, hrest.le⟩
    · obtain ⟨h₁, h₂, h₃⟩ := hrest.bounds x hx
      exact ⟨UInt64.le_trans hstart (UInt64.le_trans hstop h₁), h₂, h₃⟩

/-- Of two regions, the one listed first ends before the other starts. -/
theorem pairwise : ∀ {bs : List β} {first last : UInt64}, InOrder start stop first bs last →
    bs.Pairwise fun a b => stop a ≤ start b
  | [], _, _, _ => .nil
  | _ :: _, _, _, ⟨_, _, hrest⟩ => .cons (fun x hx => (hrest.bounds x hx).1) hrest.pairwise

/-- What lies in order inside each of some regions in order lies in order altogether. -/
theorem flatMap {γ : Type} {inner : β → List γ} {low high : γ → Nat} {bs : List β}
    {first last : UInt64} (h : InOrder start stop first bs last)
    (hin : ∀ b ∈ bs, (∀ x ∈ inner b, (start b).toNat ≤ low x ∧ high x ≤ (stop b).toNat) ∧
      (inner b).Pairwise fun x y => high x ≤ low y) :
    (∀ x ∈ bs.flatMap inner, first.toNat ≤ low x ∧ high x ≤ last.toNat) ∧
      (bs.flatMap inner).Pairwise fun x y => high x ≤ low y := by
  constructor
  · intro x hx
    obtain ⟨b, hb, hx⟩ := List.mem_flatMap.1 hx
    obtain ⟨hlow, hhigh⟩ := (hin b hb).1 x hx
    obtain ⟨hstart, -, hstop⟩ := h.bounds b hb
    exact ⟨Nat.le_trans (UInt64.le_iff_toNat_le.1 hstart) hlow,
      Nat.le_trans hhigh (UInt64.le_iff_toNat_le.1 hstop)⟩
  · refine List.pairwise_flatMap.2 ⟨fun b hb => (hin b hb).2, ?_⟩
    refine h.pairwise.imp_of_mem fun {a b} ha hb hle x hx y hy => ?_
    calc high x ≤ (stop a).toNat := ((hin a ha).1 x hx).2
      _ ≤ (start b).toNat := UInt64.le_iff_toNat_le.1 hle
      _ ≤ low y := ((hin b hb).1 y hy).1

end InOrder

end BootImage.Cursor
