import TreeCompiler.Proofs.Emissions

set_option autoImplicit false

namespace TreeCompiler.Lower

open Code Source Resolve

variable {layout : StackLayout} {supply final : Supply} {fragments : List (Fragment StackFrame)}

structure MainShape (program : Program) (main : Procedure StackFrame) : Prop where
  label : Frame.label main.frame = Label.main
  formals : Frame.formals main.frame = []
  body : ∃ moves exp, main.body.linear = moves ++ [.exp (.call Label.print [exp])] ∧
    List.Forall₂ MovesValue (program.assigns.filter fun assign => !assign.value.isLiteral) moves ∧
    IsCodeFor program.print.exp exp

theorem ProgramTo.shape {resolved : Resolved}
    (lowered : ProgramTo layout resolved supply fragments final) :
    ∃ emissions main, fragments = emissions.flatMap Emission.fragments ++ [.procedure main] ∧
      List.Forall₂ (Emits layout) resolved.program.statements emissions ∧
      MainShape resolved.program main := by
  obtain ⟨statementsLowered, printLowered⟩ := lowered
  obtain ⟨emissions, emitted, _⟩ := statementsLowered.emitted
  have thread := statementsLowered.threadTo printLowered
  have moves := thread.movesValues
  simp only [Expr.isNone_literal?] at moves
  refine ⟨emissions, _, by rw [emitted.fragments], emitted.each, ?_⟩
  exact {
    label := rfl
    formals := rfl
    body := by
      rw [← Stm.block_filter_append]
      exact ⟨_, _, thread.linear_body rfl (by simp), moves, thread.ending_isCodeFor⟩ }

theorem lowerProgram_shape {program : Program} {queue : Diagnostic.Queue} {resolved : Resolved}
    (accepted : (resolve program queue).1 = .ok resolved) (layout : StackLayout)
    (supply : Supply) :
    ∃ fragments final emissions main,
      (lowerProgram layout.maker resolved).run supply = .ok fragments final ∧
      fragments = emissions.flatMap Emission.fragments ++ [.procedure main] ∧
      List.Forall₂ (Emits layout) program.statements emissions ∧ MainShape program main ∧
      (procedureLabels fragments).Nodup ∧ findProcedure? Label.main fragments = some main ∧
      ∀ declaration emission, (.declare declaration, emission) ∈ program.statements.zip emissions →
        ∃ procedure, emission.fragments = [.procedure procedure] ∧
          findProcedure? (Label.function declaration.name) fragments = some procedure := by
  obtain ⟨wellScoped, rfl⟩ := wellScoped_of_resolve accepted
  obtain ⟨fragments, final, done⟩ := lowerProgram_stack_ok wellScoped layout supply
  have lowered := programTo_of_run done
  obtain ⟨emissions, main, split, each, shape⟩ := lowered.shape
  have distinct := lowered.nodup_procedureLabels wellScoped.functions
  refine ⟨fragments, final, emissions, main, done, split, each, shape, distinct, ?_, ?_⟩
  · rw [← shape.label]
    exact findProcedure?_of_mem distinct (by simp [split])
  · intro declaration emission member
    cases (List.forall₂_iff_zip.mp each).2 member with
    | declare functionShape =>
        refine ⟨_, rfl, ?_⟩
        rw [← functionShape.label]
        apply findProcedure?_of_mem distinct
        rw [split, List.mem_append, List.mem_flatMap]
        exact .inl ⟨_, (List.of_mem_zip member).2, List.mem_singleton_self _⟩

theorem lowerProgram_shape_rebinding :
    let wordSize : WordSize := ⟨8, by decide, by decide⟩
    let (layout, supply) := (StackLayout.reserve wordSize).run {}
    (resolve rebinding {}).1 = .ok (resolution rebinding) ∧
      ∃ fragments final emissions main,
        (lowerProgram layout.maker (resolution rebinding)).run supply = .ok fragments final ∧
        fragments = emissions.flatMap Emission.fragments ++ [.procedure main] ∧
        List.Forall₂ (Emits layout) rebinding.statements emissions ∧ MainShape rebinding main ∧
        (procedureLabels fragments).Nodup ∧ findProcedure? Label.main fragments = some main ∧
        ∀ declaration emission,
          (.declare declaration, emission) ∈ rebinding.statements.zip emissions →
            ∃ procedure, emission.fragments = [.procedure procedure] ∧
              findProcedure? (Label.function declaration.name) fragments = some procedure := by
  intro wordSize
  have accepted : (resolve rebinding {}).1 = .ok (resolution rebinding) := rfl
  exact ⟨accepted, lowerProgram_shape accepted _ _⟩

end TreeCompiler.Lower
