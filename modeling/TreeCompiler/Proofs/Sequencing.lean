import Mathlib.Computability.StateTransition
import TreeCompiler.Code.Flattening
import TreeCompiler.Proofs.CodeNodes

set_option autoImplicit false

namespace TreeCompiler.Code

namespace Flattening

variable {before after : Flattening}

-- The stack grows and shrinks from turn to turn; the list that a state leads to stays the same.
def outcome (state : Flattening) : List Stm :=
  state.listed.reverse ++ state.pending.flatMap Stm.linear

theorem outcome_step (stepped : before.step = some after) : after.outcome = before.outcome := by
  rcases step_cases stepped with
    ⟨first, second, rest, onTop, rfl⟩ | ⟨statement, rest, onTop, single, -, rfl⟩
  · simp [outcome, onTop, Stm.linear]
  · simp [outcome, onTop, single]

theorem run_eq_outcome (state : Flattening) : state.run = state.outcome := by
  fun_induction run state with
  | case1 state stopped => simp [outcome, pending_of_step_eq_none stopped]
  | case2 state next stepped ih => rw [ih, outcome_step stepped]

theorem eval_step (state : Flattening) :
    StateTransition.eval step state = Part.some ⟨[], state.run.reverse⟩ := by
  fun_induction run state with
  | case1 state stopped =>
      have emptied : state = ⟨[], state.listed⟩ := by
        rw [← pending_of_step_eq_none stopped]
      rw [List.reverse_reverse, ← emptied]
      exact Part.eq_some_iff.mpr (StateTransition.mem_eval.mpr ⟨.refl, stopped⟩)
  | case2 state next stepped ih =>
      have onward : StateTransition.Reaches step state next := .single stepped
      rw [StateTransition.reaches_eval onward, ih]

end Flattening

namespace Stm

theorem flatten_eq_linear : flatten = linear := by
  funext statement
  rw [flatten, Flattening.run_eq_outcome]
  simp [Flattening.outcome]

theorem linear_congr {one other : Stm} (same : one.lines = other.lines) :
    one.linear = other.linear := by
  rw [linear_eq_lines, linear_eq_lines, same]

/-- The statement sequences the given ones in their order, in whatever brackets. -/
inductive Brackets : List Stm → Stm → Prop
  | none : Brackets [] nop
  | one (statement : Stm) : Brackets [statement] statement
  | join {front back : List Stm} {first second : Stm} (left : Brackets front first)
      (right : Brackets back second) : Brackets (front ++ back) (first.followedBy second)

theorem brackets_block (statements : List Stm) : Brackets statements (block statements) := by
  induction statements with
  | nil => exact .none
  | cons first rest ih => exact .join (.one first) ih

theorem Brackets.lines_eq {statements : List Stm} {whole : Stm}
    (brackets : Brackets statements whole) : whole.lines = statements.flatMap lines := by
  induction brackets with
  | none => rfl
  | one statement => simp
  | join _ _ frontLines backLines =>
      rw [lines_followedBy, frontLines, backLines, List.flatMap_append]

theorem flatten_forgets_brackets :
    (∀ statement : Stm,
      StateTransition.eval Flattening.step { pending := [statement], listed := [] } =
        Part.some { pending := [], listed := statement.linear.reverse } ∧
      statement.flatten = statement.linear) ∧
    (∀ statements : List Stm, (block statements).flatten =
      if statements.all isNop then [nop]
      else (statements.filter fun statement => !statement.isNop).flatMap flatten) ∧
    (∀ first second third : Stm,
      ((first.followedBy second).followedBy third).flatten =
        (first.followedBy (second.followedBy third)).flatten) ∧
    (∀ statement : Stm,
      nop.followedBy statement = statement ∧ statement.followedBy nop = statement) ∧
    ∀ statements : List Stm, Brackets statements (block statements) ∧
      ∀ one other : Stm, Brackets statements one → Brackets statements other →
        one.flatten = other.flatten := by
  refine ⟨fun statement => ⟨?_, congrFun flatten_eq_linear statement⟩, ?_, ?_, ?_, ?_⟩
  · rw [Flattening.eval_step, ← flatten_eq_linear]
    rfl
  · rw [flatten_eq_linear]
    exact linear_block
  · intro first second third
    rw [flatten_eq_linear]
    exact linear_congr (by simp only [lines_followedBy, List.append_assoc])
  · exact fun statement => ⟨nop_followedBy statement, followedBy_nop statement⟩
  · intro statements
    refine ⟨brackets_block statements, fun one other inOne inOther => ?_⟩
    rw [flatten_eq_linear]
    exact linear_congr (inOne.lines_eq.trans inOther.lines_eq.symm)

-- The second statement has nothing but empty parts, but is not empty itself.
def emptyParts : List Stm := [label ⟨"L0"⟩, seq nop nop, nop, jump ⟨"L0"⟩]

theorem flatten_forgets_brackets_emptyParts :
    Brackets emptyParts (emptyParts.foldl followedBy nop) ∧
      Brackets emptyParts (block emptyParts) ∧
      (emptyParts.foldl followedBy nop).flatten = (block emptyParts).flatten ∧
      (block emptyParts).flatten = [label ⟨"L0"⟩, nop, nop, jump ⟨"L0"⟩] := by
  have toTheLeft : Brackets emptyParts (emptyParts.foldl followedBy nop) :=
    .join (.join (.join (.join .none (.one _)) (.one _)) (.one _)) (.one _)
  obtain ⟨lists, -, -, -, forgets⟩ := flatten_forgets_brackets
  obtain ⟨toTheRight, same⟩ := forgets emptyParts
  exact ⟨toTheLeft, toTheRight, same _ _ toTheLeft toTheRight, (lists (block emptyParts)).2⟩

end Stm

end TreeCompiler.Code
