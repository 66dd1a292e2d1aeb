import TreeCompiler.Lower.Basic
import TreeCompiler.Proofs.Machine

set_option autoImplicit false

namespace TreeCompiler

open Code

namespace Code

variable {calls : Calls} {code rest : List Stm} {exp : Exp} {value : Value} {state final : State}

theorem Evaluates.state_eq (isPure : exp.isPure = true)
    (evaluated : Evaluates calls exp state value final) : final = state := by
  fun_induction Exp.isPure exp generalizing value state final with
  | case1 | case2 | case3 =>
      cases evaluated
      rfl
  | case4 op left right leftKeeps rightKeeps =>
      obtain ⟨leftPure, rightPure⟩ := Bool.and_eq_true_iff.mp isPure
      cases evaluated with
      | binop leftDone rightDone applied =>
          have afterRight := rightKeeps rightPure rightDone
          rw [afterRight, leftKeeps leftPure leftDone]
  | case5 address keeps =>
      cases evaluated with
      | mem addressDone held => exact keeps isPure addressDone
  | case6 | case7 => cases isPure

end Code

namespace Lowered

variable {calls : Calls} {code rest : List Stm} {exp : Exp} {state final : State}

def Discards (calls : Calls) (exp : Exp) (code rest : List Stm) (state final : State) : Prop :=
  ∃ value middle, Evaluates calls exp state value middle ∧ Executes calls code rest middle final

theorem discards_of_isPure (isPure : exp.isPure = true) {value : Code.Value} {after : State}
    (evaluates : Evaluates calls exp state value after) :
    Discards calls exp code rest state final ↔ Executes calls code rest state final := by
  constructor
  · rintro ⟨_, middle, done, next⟩
    rwa [← done.state_eq isPure]
  · intro next
    rw [evaluates.state_eq isPure] at evaluates
    exact ⟨value, state, evaluates, next⟩

theorem executes_toStm {lowered : Lowered} (isValue : lowered.toExp = .ok exp)
    {value : Code.Value} {after : State} (evaluates : Evaluates calls exp state value after) :
    Executes calls code (lowered.toStm.linear ++ rest) state final ↔
      Discards calls exp code rest state final := by
  cases lowered with
  | effect => cases isValue
  | value =>
      cases isValue
      simp only [toStm]
      split
      next isPure =>
        rw [discards_of_isPure isPure evaluates]
        exact executes_nop
      next => exact executes_exp

theorem toStm_discards_value (calls : Calls) :
    (∀ exp state value final, exp.isPure = true → Evaluates calls exp state value final →
      final = state) ∧
    ∀ (lowered : Lowered) exp, lowered.toExp = .ok exp →
      ∀ state, (∃ value after, Evaluates calls exp state value after) →
        (∀ final, Executes calls lowered.toStm.linear lowered.toStm.linear state final ↔
          ∃ value, Evaluates calls exp state value final) ∧
        ∀ code rest final, Executes calls code (lowered.toStm.linear ++ rest) state final ↔
          Discards calls exp code rest state final := by
  constructor
  · intro exp state value final isPure evaluated
    exact evaluated.state_eq isPure
  · intro lowered exp isValue state ⟨result, after, evaluates⟩
    constructor
    · intro final
      have alone : Executes calls lowered.toStm.linear (lowered.toStm.linear ++ []) state final ↔
          Discards calls exp lowered.toStm.linear [] state final :=
        executes_toStm isValue evaluates
      simpa [Discards] using alone
    · intro code rest final
      exact executes_toStm isValue evaluates

def oneWord : State where
  -- Static data hold one word under every label, and nothing else is known.
  temps := fun _ => none
  words := fun _ => none
  world := { data := fun _ => some (.word 5) }

theorem toStm_discards_value_oneWord :
    (∃ final, Evaluates RuntimeCall (.mem (.name Label.main)) oneWord (.word 5) final ∧
        final = oneWord) ∧
      (∀ final, Executes RuntimeCall [.nop] [.nop] oneWord final ↔
        ∃ value, Evaluates RuntimeCall (.mem (.name Label.main)) oneWord value final) ∧
      (∀ final, Executes RuntimeCall [.exp (.call Label.print [.const 3])]
          [.exp (.call Label.print [.const 3])] oneWord final ↔
        ∃ value, Evaluates RuntimeCall (.call Label.print [.const 3]) oneWord value final) := by
  have reads : Evaluates RuntimeCall (.mem (.name Label.main)) oneWord (.word 5) oneWord :=
    .mem .name rfl
  have prints : Evaluates RuntimeCall (.call Label.print [.const 3]) oneWord (.word 0)
      { oneWord with world.output := [3] } :=
    .call (.cons .const .nil) .print
  obtain ⟨unchanged, sound⟩ := toStm_discards_value RuntimeCall
  refine ⟨⟨oneWord, reads, unchanged _ _ _ _ rfl reads⟩, ?_, ?_⟩
  · exact (sound (.value (.mem (.name Label.main))) _ rfl oneWord ⟨_, _, reads⟩).1
  · exact (sound (.value (.call Label.print [.const 3])) _ rfl oneWord ⟨_, _, prints⟩).1

end Lowered

end TreeCompiler
