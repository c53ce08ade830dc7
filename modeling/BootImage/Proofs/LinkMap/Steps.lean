import BootImage.LinkMap.Link
import Mathlib.Data.List.Basic

/-! The steps of a section.

    Statements become steps one by one, so what holds of a section is read off its statements: which
    steps it can have, which inputs it places, which symbols it defines. A section can be cut at any
    of its statements, and its steps are cut there too.

        statements   symbol a   input ["*"]             symbol b
        steps        symbol a   place x  place y  ...   symbol b -/

namespace BootImage

/-- The statement can give this step. -/
def Statement.Gives (step : Step) : Statement → Prop
  | .symbol name => step = .symbol name
  | .align a => step = .align a
  | .reserve n => step = .reserve n
  | .input _ => ∃ i, step = .place i

/-- The symbol that a step defines. -/
def Step.defines? : Step → Option String
  | .symbol name => some name
  | _ => none

namespace Statement

variable (r : Routing)

theorem gives_of_mem_steps {slot : Slot} {statement : Statement} {step : Step}
    (h : step ∈ statement.steps r slot) : statement.Gives step := by
  cases statement with
  | input rule =>
    obtain ⟨i, -, rfl⟩ := List.mem_map.1 h
    exact ⟨i, rfl⟩
  | _ => exact List.mem_singleton.1 h

theorem inputs_steps (slot : Slot) (statement : Statement) :
    (statement.steps r slot).filterMap (·.input?) =
      match statement with
      | .input rule => r.inputsOf slot rule.order
      | _ => [] := by
  cases statement with
  | input rule => simp [steps, List.filterMap_map, Step.input?]
  | _ => rfl

theorem defines_steps (slot : Slot) (statement : Statement) :
    (statement.steps r slot).filterMap (·.defines?) =
      match statement with
      | .symbol name => [name]
      | _ => [] := by
  cases statement with
  | input rule => simp [steps, List.filterMap_map, Step.defines?]
  | _ => rfl

/-- The steps of statements that stand in a section from a position on. -/
def stepsFrom (name : String) (position : Nat) (statements : List Statement) : List Step :=
  (statements.zipIdx position).flatMap fun (statement, i) => statement.steps r ⟨name, i⟩

theorem stepsFrom_append (name : String) (position : Nat) (before after : List Statement) :
    stepsFrom r name position (before ++ after) =
      stepsFrom r name position before ++ stepsFrom r name (position + before.length) after := by
  rw [stepsFrom, List.zipIdx_append, List.flatMap_append]
  rfl

theorem stepsFrom_cons (name : String) (position : Nat) (statement : Statement)
    (after : List Statement) :
    stepsFrom r name position (statement :: after) =
      statement.steps r ⟨name, position⟩ ++ stepsFrom r name (position + 1) after := by
  rw [stepsFrom, List.zipIdx_cons, List.flatMap_cons]
  rfl

/-- Every step is given by a statement. -/
theorem exists_of_mem_stepsFrom {name : String} {position : Nat} {statements : List Statement}
    {step : Step} (h : step ∈ stepsFrom r name position statements) :
    ∃ statement ∈ statements, statement.Gives step := by
  obtain ⟨⟨statement, i⟩, hmem, hstep⟩ := List.mem_flatMap.1 h
  have hstatement : statement ∈ (statements.zipIdx position).map (·.1) :=
    List.mem_map_of_mem hmem
  rw [List.zipIdx_map_fst] at hstatement
  exact ⟨statement, hstatement, gives_of_mem_steps r hstep⟩

/-- A step that a statement gives at every slot is one of the steps. -/
theorem mem_stepsFrom {name : String} {position : Nat} {statements : List Statement}
    {statement : Statement} (h : statement ∈ statements) {step : Step}
    (hstep : ∀ slot, step ∈ statement.steps r slot) :
    step ∈ stepsFrom r name position statements := by
  rw [← List.zipIdx_map_fst position statements] at h
  obtain ⟨x, hx, rfl⟩ := List.mem_map.1 h
  exact List.mem_flatMap.2 ⟨x, hx, hstep _⟩

end Statement

namespace Section

variable (r : Routing) (s : Section)

/-- The steps of a section that is cut at one of its statements. -/
theorem steps_of_getElem? {k : Nat} {statement : Statement}
    (h : s.statements[k]? = some statement) :
    s.steps r = Statement.stepsFrom r s.name 0 (s.statements.take k) ++
      (statement.steps r ⟨s.name, k⟩ ++
        Statement.stepsFrom r s.name (k + 1) (s.statements.drop (k + 1))) := by
  obtain ⟨hk, rfl⟩ := List.getElem?_eq_some_iff.1 h
  have hcut : s.statements =
      s.statements.take k ++ s.statements[k] :: s.statements.drop (k + 1) := by
    rw [← List.drop_eq_getElem_cons hk, List.take_append_drop]
  have hlength : (s.statements.take k).length = k := List.length_take_of_le (Nat.le_of_lt hk)
  have hsteps : s.steps r = Statement.stepsFrom r s.name 0 s.statements := rfl
  conv at hsteps => rhs; rw [hcut]
  rw [hsteps, Statement.stepsFrom_append, Statement.stepsFrom_cons, hlength, Nat.zero_add]

/-- The inputs of a section are those of its slots, in order. -/
theorem inputs_steps :
    (s.steps r).filterMap (·.input?) = s.slots.flatMap fun x => r.inputsOf x.1 x.2.order := by
  rw [steps, slots, List.filterMap_flatMap]
  induction s.statements.zipIdx with
  | nil => rfl
  | cons p rest ih =>
    obtain ⟨statement, i⟩ := p
    rw [List.flatMap_cons, ih, Statement.inputs_steps]
    cases statement <;> rfl

/-- The steps of a section define its symbols, in order. -/
theorem defines_steps : (s.steps r).filterMap (·.defines?) = s.symbols := by
  have hfst : s.statements = s.statements.zipIdx.map (·.1) := (List.zipIdx_map_fst 0 _).symm
  rw [steps, symbols, List.filterMap_flatMap]
  conv_rhs => rw [hfst]
  induction s.statements.zipIdx with
  | nil => rfl
  | cons p rest ih =>
    obtain ⟨statement, i⟩ := p
    rw [List.flatMap_cons, ih, Statement.defines_steps]
    cases statement <;> rfl

end Section

end BootImage
