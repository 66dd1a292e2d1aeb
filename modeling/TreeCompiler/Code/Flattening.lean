import TreeCompiler.Code.Tree

set_option autoImplicit false

namespace TreeCompiler.Code

-- One turn for each sequence of the tree, which is taken apart, and one for each other statement.
def Stm.turns : Stm → Nat
  | seq first second => first.turns + second.turns + 1
  | _ => 1

structure Flattening where
  pending : List Stm
  listed : List Stm := []

namespace Flattening

variable {before after : Flattening}

def step : Flattening → Option Flattening
  | ⟨[], _⟩ => none
  -- A sequence puts its two parts back, the first on top.
  | ⟨.seq first second :: rest, listed⟩ => some ⟨first :: second :: rest, listed⟩
  | ⟨statement :: rest, listed⟩ => some ⟨rest, statement :: listed⟩

theorem step_cases (stepped : before.step = some after) :
    (∃ first second rest, before.pending = .seq first second :: rest ∧
      after = ⟨first :: second :: rest, before.listed⟩) ∨
    ∃ statement rest, before.pending = statement :: rest ∧
      statement.linear = [statement] ∧ statement.turns = 1 ∧
      after = ⟨rest, statement :: before.listed⟩ := by
  obtain ⟨pending, listed⟩ := before
  cases pending with
  | nil => cases stepped
  | cons statement rest =>
      cases statement with
      | seq first second =>
          cases stepped
          exact .inl ⟨first, second, rest, rfl, rfl⟩
      | _ =>
          cases stepped
          exact .inr ⟨_, rest, rfl, rfl, rfl, rfl⟩

theorem pending_of_step_eq_none {state : Flattening} (stopped : state.step = none) :
    state.pending = [] := by
  obtain ⟨pending, listed⟩ := state
  cases pending with
  | nil => rfl
  | cons statement rest => cases statement <;> cases stopped

def turns (state : Flattening) : Nat :=
  state.pending.foldr (fun statement later => statement.turns + later) 0

theorem turns_step (stepped : before.step = some after) : before.turns = after.turns + 1 := by
  rcases step_cases stepped with
    ⟨first, second, rest, onTop, rfl⟩ | ⟨statement, rest, onTop, -, one, rfl⟩
  · simp only [turns, onTop, List.foldr_cons, Stm.turns]
    omega
  · simp only [turns, onTop, List.foldr_cons, one]
    omega

def run (state : Flattening) : List Stm :=
  match _ : state.step with
  | none => state.listed.reverse
  | some next => next.run
termination_by state.turns
decreasing_by
  have fewer := turns_step ‹state.step = some next›
  omega

end Flattening

def Stm.flatten (statement : Stm) : List Stm := Flattening.run { pending := [statement] }

end TreeCompiler.Code
