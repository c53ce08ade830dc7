import BootImage.Proofs.Boot.Arguments

/-! Runs of readers.

    A reader is asked for the next argument or for one after some others, and so are its copies.
    Whatever is asked in whatever order, every reader at hand holds the bytes of some arguments and
    how many they are. So it can tell how many it will still give, it gives nothing only when none
    are left, and from then on it gives nothing. The main statement is `Arguments.intact_of_run`.

        3  61 00 62 00 63 00        a reader of three arguments
           a                        next
        2        62 00 63 00
                       c            the one after another
        0                           it gives nothing any more -/

namespace BootImage.Boot.Arguments

/-- The bytes are those of the arguments that are left: each has its terminator, and nothing
    follows the last. -/
structure Intact (a : Arguments) : Prop where
  terminators : a.strings.count 0 = a.remaining
  ended : a.strings = [] ∨ a.strings.getLast? = some 0

/-- What a reader can be asked for. -/
inductive Call where
  /-- The next argument. -/
  | next
  /-- The argument after so many others. -/
  | nth (skipped : Nat)

/-- So many arguments are passed over. -/
def Call.skipped : Call → Nat
  | .next => 0
  | .nth skipped => skipped

/-- The answer to a call, and the reader after it. -/
def ask (a : Arguments) : Call → Option (List UInt8) × Arguments
  | .next => a.next
  | .nth skipped => a.nth skipped

/-- The reader after some calls. -/
def after (a : Arguments) (calls : List Call) : Arguments :=
  calls.foldl (fun b c => (b.ask c).2) a

/-- The answers to some calls. -/
def answers (a : Arguments) : List Call → List (Option (List UInt8))
  | [] => []
  | c :: calls => (a.ask c).1 :: answers (a.ask c).2 calls

/-- What is done with the readers at hand, which are numbered. -/
inductive Action where
  | ask (reader : Nat) (call : Call)
  /-- The copy comes last. -/
  | copy (reader : Nat)

/-- The readers after an action. It has no effect where there is no reader of its number. -/
def act (readers : List Arguments) : Action → List Arguments
  | .ask i c => readers.modify i fun a => (a.ask c).2
  | .copy i => readers ++ readers[i]?.toList

/-- The readers after some actions. -/
def run (readers : List Arguments) (actions : List Action) : List Arguments :=
  actions.foldl act readers

variable {a b : Arguments} {arguments : List (List UInt8)}

/-! ### Intact readers -/

theorem count_terminated (h : ZeroFree arguments) :
    (terminated arguments).count 0 = arguments.length := by
  induction arguments with
  | nil => rfl
  | cons x xs ih =>
    obtain ⟨hx, hxs⟩ := List.forall_mem_cons.1 h
    rw [terminated_cons, List.count_append, List.count_eq_zero.2 hx, List.count_cons_self, ih hxs]
    simp

/-- Where there are arguments, the terminator of the last ends their bytes. -/
theorem terminated_ended (arguments : List (List UInt8)) :
    terminated arguments = [] ∨ (terminated arguments).getLast? = some 0 := by
  rcases List.eq_nil_or_concat arguments with rfl | ⟨xs, x, rfl⟩
  · exact .inl rfl
  · right
    simp [terminated, List.flatMap_append]

/-- A reader is intact if it is the reader of some arguments. -/
theorem intact_iff : a.Intact ↔ ∃ arguments, ZeroFree arguments ∧ a = of arguments := by
  constructor
  · rintro ⟨hcount, hended⟩
    obtain ⟨xs, rest, hfree, hlength, hstrings⟩ := exists_terminated (Nat.le_of_eq hcount.symm)
    -- no terminator is left for what follows, and the last byte is one
    have hzero : 0 ∉ rest := by
      rw [hstrings, List.count_append, count_terminated hfree] at hcount
      exact List.count_eq_zero.1 (by omega)
    have hrest : rest = [] := by
      rcases List.eq_nil_or_concat rest with hnil | ⟨front, last, rfl⟩
      · exact hnil
      · rcases hended with hnil | hlast
        · simp [hstrings] at hnil
        · have hzeroLast : last = 0 := by simpa [hstrings, List.getLast?_append] using hlast
          exact absurd (by simp [hzeroLast]) hzero
    refine ⟨xs, hfree, ?_⟩
    rw [hrest, List.append_nil] at hstrings
    rw [of, hlength, ← hstrings]
  · rintro ⟨xs, hfree, rfl⟩
    exact ⟨count_terminated hfree, terminated_ended xs⟩

/-! ### What the reader of some arguments answers -/

theorem nth_of_next? (h : a.next? = none) (k : Nat) : a.nth k = (none, a) := by
  cases k <;> simp [nth, h]

/-- Passing over arguments is the same as taking them. -/
theorem nth_eq_next (a : Arguments) (k : Nat) :
    a.nth k = (a.after (List.replicate k .next)).next := by
  induction k generalizing a with
  | zero => rfl
  | succ k ih =>
    have hafter : a.after (List.replicate (k + 1) .next) =
        a.next.2.after (List.replicate k .next) := rfl
    rw [hafter, ← ih]
    cases hnext : a.next? with
    | none => simp [next, nth_of_next? hnext]
    | some taken => simp [next, nth, hnext]

theorem nth_of (h : ZeroFree arguments) (k : Nat) :
    (of arguments).nth k = (arguments[k]?, of (arguments.drop (k + 1))) := by
  induction arguments generalizing k with
  | nil => simpa using nth_of_next? (a := of []) rfl k
  | cons x xs ih =>
    obtain ⟨hx, hxs⟩ := List.forall_mem_cons.1 h
    cases k with
    | zero => simp [nth, next?_of_cons hx]
    | succ k => simp [nth, next?_of_cons hx, ih hxs]

theorem ask_of (h : ZeroFree arguments) (c : Call) :
    (of arguments).ask c = (arguments[c.skipped]?, of (arguments.drop (c.skipped + 1))) := by
  cases c with
  | next => exact nth_of h 0
  | nth k => exact nth_of h k

theorem toList_of (h : ZeroFree arguments) : (of arguments).toList = arguments := by
  have htake : take arguments.length (of arguments) = arguments := by
    induction arguments with
    | nil => rfl
    | cons x xs ih =>
      obtain ⟨hx, hxs⟩ := List.forall_mem_cons.1 h
      simp [take, next?_of_cons hx, ih hxs]
  exact htake

/-- The reader of no arguments has none to give. -/
theorem answers_of_nil (calls : List Call) : ∀ x ∈ (of []).answers calls, x = none := by
  induction calls with
  | nil => simp [answers]
  | cons c calls ih =>
    have hask : (of []).ask c = (none, of []) := by simpa using ask_of (List.forall_mem_nil _) c
    simpa [answers, hask] using ih

/-! ### Runs -/

theorem Intact.ask (h : a.Intact) (c : Call) : (a.ask c).2.Intact := by
  obtain ⟨xs, hfree, rfl⟩ := intact_iff.1 h
  rw [ask_of hfree]
  exact intact_iff.2 ⟨_, fun x hx => hfree x (List.mem_of_mem_drop hx), rfl⟩

/-- A reader after an action is a reader before it, or one that was asked. -/
theorem exists_of_mem_act {readers : List Arguments} {action : Action}
    (h : b ∈ act readers action) : ∃ a ∈ readers, b = a ∨ ∃ c, b = (a.ask c).2 := by
  cases action with
  | ask i c =>
    obtain ⟨j, hj⟩ := List.mem_iff_getElem?.1 h
    rw [act, List.getElem?_modify] at hj
    obtain ⟨a, ha, hb⟩ := Option.map_eq_some_iff.1 hj
    refine ⟨a, List.mem_of_getElem? ha, ?_⟩
    split at hb
    · exact .inr ⟨c, hb.symm⟩
    · exact .inl hb.symm
  | copy i =>
    rcases List.mem_append.1 h with hb | hb
    · exact ⟨b, hb, .inl rfl⟩
    · exact ⟨b, List.mem_of_getElem? (Option.mem_toList.1 hb), .inl rfl⟩

/-- An action keeps all readers intact. -/
theorem intact_act {readers : List Arguments} (h : ∀ a ∈ readers, a.Intact) (action : Action) :
    ∀ b ∈ act readers action, b.Intact := by
  intro b hb
  obtain ⟨a, ha, rfl | ⟨c, rfl⟩⟩ := exists_of_mem_act hb
  · exact h b ha
  · exact (h a ha).ask c

theorem intact_actions {readers : List Arguments} (h : ∀ a ∈ readers, a.Intact)
    (actions : List Action) : ∀ b ∈ run readers actions, b.Intact := by
  induction actions generalizing readers with
  | nil => exact h
  | cons action actions ih => exact ih (intact_act h action)

/-- Whatever is asked of the reader of a block and of its copies, each of them stays intact; it
    tells how many arguments it yields; it gives nothing exactly when none are left, and nothing
    ever after; and passing over arguments is the same as taking them. -/
theorem intact_of_run {bytes : List UInt8} (h : parse? bytes = some a) (actions : List Action)
    (hb : b ∈ run [a] actions) :
    b.Intact ∧
    (b.Yields b.toList ∧ b.len = b.toList.length ∧
      b.sizeHint = (b.toList.length, some b.toList.length)) ∧
    (b.next.1 = none ↔ b.remaining = 0) ∧
    (b.next.1 = none → ∀ calls, ∀ x ∈ b.answers calls, x = none) ∧
    ∀ k, b.nth k = (b.after (List.replicate k .next)).next := by
  obtain ⟨arguments, rfl, hfree, -⟩ := exists_of_parse? h
  have hstart : ∀ a ∈ [of arguments], a.Intact := by simpa using intact_iff.2 ⟨_, hfree, rfl⟩
  have hintact := intact_actions hstart actions b hb
  obtain ⟨xs, hxs, rfl⟩ := intact_iff.1 hintact
  have hnext : (of xs).next.1 = none ↔ xs = [] := by
    rw [next, nth_of hxs]
    cases xs <;> simp
  refine ⟨hintact, ?_, ?_, ?_, nth_eq_next _⟩
  · rw [toList_of hxs]
    exact ⟨yields_of hxs, rfl, rfl⟩
  · rw [hnext]
    exact List.length_eq_zero_iff.symm
  · intro hnone
    rw [hnext.1 hnone]
    exact answers_of_nil

/-- A copy that was asked for one argument, after the reader itself was asked for too many. -/
theorem intact_of_run_copy :
    parse? [2, 0, 0, 0, 0x61, 0x62, 0, 0, 0x63] = some ⟨2, [0x61, 0x62, 0, 0]⟩ ∧
    ⟨1, [0]⟩ ∈ run [⟨2, [0x61, 0x62, 0, 0]⟩] [.copy 0, .ask 0 (.nth 3), .ask 1 .next] ∧
    (⟨1, [0]⟩ : Arguments).Yields [[]] := by
  have hparse : parse? [2, 0, 0, 0, 0x61, 0x62, 0, 0, 0x63] = some ⟨2, [0x61, 0x62, 0, 0]⟩ := by
    decide
  have hmem : ⟨1, [0]⟩ ∈
      run [⟨2, [0x61, 0x62, 0, 0]⟩] [.copy 0, .ask 0 (.nth 3), .ask 1 .next] := by decide
  exact ⟨hparse, hmem, (intact_of_run hparse _ hmem).2.1.1⟩

end BootImage.Boot.Arguments
