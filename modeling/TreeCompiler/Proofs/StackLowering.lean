import TreeCompiler.Proofs.Lowering

set_option autoImplicit false

namespace TreeCompiler.Lower

open Code Source Resolve LowerM

inductive AssignsTo (functions : FunctionTable) :
    Context StackFrame → List Assign → Supply → Context StackFrame → List Stm → Supply → Prop
  | nil {context supply} : AssignsTo functions context [] supply context [] supply
  -- Every value goes to a temporary of its own, which is drawn after the value is lowered.
  | cons {context assign rest supply exp middle last statements final}
      (valueLowered : LowersTo (context.scope functions) assign.value supply exp middle)
      (restLowered : AssignsTo functions (context.bindLocal assign.name (.inReg middle.nextTemp))
        rest middle.afterTemp last statements final) :
      AssignsTo functions context (assign :: rest) supply last
        (.move (.temp middle.nextTemp) exp :: statements) final

inductive DeclaresTo (functions : FunctionTable) (layout : StackLayout) (outer : Bindings Access)
    (declaration : Declaration) (supply : Supply) : Procedure StackFrame → Supply → Prop
  | intro {formals context statements middle exp final}
      (bound : bindFormals declaration.name 0 .empty declaration.params
        (layout.frame (Label.function declaration.name) declaration.params.length).formals =
          .ok formals)
      (bodyLowered : AssignsTo functions
        { frame := layout.frame (Label.function declaration.name) declaration.params.length
          locals := formals.overlay outer }
        declaration.body supply context statements middle)
      (resultLowered : LowersTo (context.scope functions) declaration.result middle exp final) :
      DeclaresTo functions layout outer declaration supply
        { frame := layout.frame (Label.function declaration.name) declaration.params.length
          body := Stm.block (statements ++ [.move (.temp layout.returnValue) exp]) } final

inductive StatementsTo (functions : FunctionTable) (layout : StackLayout) :
    Context StackFrame → List Stmt → Supply →
      Context StackFrame → List Stm → List (Fragment StackFrame) → Supply → Prop
  | nil {context supply} : StatementsTo functions layout context [] supply context [] [] supply
  | literal {context assign value rest supply last statements fragments final}
      (literal : assign.value.literal? = some value)
      (restLowered : StatementsTo functions layout
        (context.bindConstant assign.name (.mem (.name supply.nextLabel)))
        rest supply.afterLabel last statements fragments final) :
      StatementsTo functions layout context (.assign assign :: rest) supply last
        (.nop :: statements)
        (.data { label := supply.nextLabel, values := [value] } :: fragments) final
  | assign {context assign rest supply exp middle last statements fragments final}
      (computed : assign.value.literal? = none)
      (valueLowered : LowersTo (context.scope functions) assign.value supply exp middle)
      (restLowered : StatementsTo functions layout
        (context.bindLocal assign.name (.inReg middle.nextTemp))
        rest middle.afterTemp last statements fragments final) :
      StatementsTo functions layout context (.assign assign :: rest) supply last
        (.move (.temp middle.nextTemp) exp :: statements) fragments final
  | declare {context declaration rest supply procedure middle last statements fragments final}
      (declared : DeclaresTo functions layout context.locals declaration supply procedure middle)
      (restLowered : StatementsTo functions layout context rest middle last statements fragments
        final) :
      StatementsTo functions layout context (.declare declaration :: rest) supply last
        (.nop :: statements) (.procedure procedure :: fragments) final

inductive ProgramTo (layout : StackLayout) (resolved : Resolved) (supply : Supply) :
    List (Fragment StackFrame) → Supply → Prop
  | intro {context statements fragments middle exp final}
      (statementsLowered : StatementsTo resolved.functions layout
        { frame := layout.frame Label.main 0 } resolved.program.statements supply
        context statements fragments middle)
      (printLowered : LowersTo (context.scope resolved.functions) resolved.program.print.exp
        middle exp final) :
      ProgramTo layout resolved supply
        (fragments ++ [.procedure {
          frame := layout.frame Label.main 0
          body := Stm.block (statements ++ [.exp (.call Label.print [exp])]) }]) final

variable {functions : FunctionTable} {layout : StackLayout} {supply final : Supply}
  {context last : Context StackFrame}

theorem Context.value?_bindLocal (context : Context StackFrame) (name other : String) (temp : Temp) :
    (context.bindLocal name (.inReg temp)).value? other =
      if other = name then some (.temp temp) else context.value? other := by
  by_cases same : other = name <;> simp [Context.value?, Context.bindLocal, Access.exp, same]

theorem Context.value?_bindConstant (context : Context StackFrame) (name other : String)
    (exp : Exp) :
    (context.bindConstant name exp).value? other =
      if other = name then some exp else context.value? other := by
  by_cases same : other = name <;> simp [Context.value?, Context.bindConstant, same]

theorem AssignsTo.frame_eq {assigns : List Assign} {statements : List Stm}
    (lowered : AssignsTo functions context assigns supply last statements final) :
    last.frame = context.frame := by
  induction lowered with
  | nil => rfl
  | cons _ _ ih => exact ih

theorem StatementsTo.frame_eq {source : List Stmt} {statements : List Stm}
    {fragments : List (Fragment StackFrame)}
    (lowered : StatementsTo functions layout context source supply last statements fragments
      final) :
    last.frame = context.frame := by
  induction lowered with
  | nil => rfl
  | literal _ _ ih => exact ih
  | assign _ _ _ ih => exact ih
  | declare _ _ ih => exact ih

theorem AssignsTo.single {assigns : List Assign} {statements : List Stm}
    (lowered : AssignsTo functions context assigns supply last statements final) :
    ∀ statement ∈ statements, statement.linear = [statement] := by
  induction lowered with
  | nil => simp
  | cons _ _ ih => exact List.forall_mem_cons.mpr ⟨rfl, ih⟩

theorem StatementsTo.single {source : List Stmt} {statements : List Stm}
    {fragments : List (Fragment StackFrame)}
    (lowered : StatementsTo functions layout context source supply last statements fragments
      final) :
    ∀ statement ∈ statements, statement.linear = [statement] := by
  induction lowered with
  | nil => simp
  | literal _ _ ih => exact List.forall_mem_cons.mpr ⟨rfl, ih⟩
  | assign _ _ _ ih => exact List.forall_mem_cons.mpr ⟨rfl, ih⟩
  | declare _ _ ih => exact List.forall_mem_cons.mpr ⟨rfl, ih⟩

theorem AssignsTo.supply_le {assigns : List Assign} {statements : List Stm}
    (lowered : AssignsTo functions context assigns supply last statements final) :
    supply ≤ final := by
  induction lowered with
  | nil => exact le_refl _
  | cons valueLowered _ ih =>
      exact valueLowered.supply_le.trans ((Supply.le_afterTemp _).trans ih)

theorem DeclaresTo.supply_le {outer : Bindings Access} {declaration : Declaration}
    {procedure : Procedure StackFrame}
    (lowered : DeclaresTo functions layout outer declaration supply procedure final) :
    supply ≤ final := by
  obtain ⟨_, bodyLowered, resultLowered⟩ := lowered
  exact bodyLowered.supply_le.trans resultLowered.supply_le

theorem StatementsTo.supply_le {source : List Stmt} {statements : List Stm}
    {fragments : List (Fragment StackFrame)}
    (lowered : StatementsTo functions layout context source supply last statements fragments
      final) :
    supply ≤ final := by
  induction lowered with
  | nil => exact le_refl _
  | literal _ _ ih => exact (Supply.le_afterLabel _).trans ih
  | assign _ valueLowered _ ih =>
      exact valueLowered.supply_le.trans ((Supply.le_afterTemp _).trans ih)
  | declare declared _ ih => exact declared.supply_le.trans ih

theorem ProgramTo.supply_le {resolved : Resolved} {fragments : List (Fragment StackFrame)}
    (lowered : ProgramTo layout resolved supply fragments final) : supply ≤ final := by
  obtain ⟨statementsLowered, printLowered⟩ := lowered
  exact statementsLowered.supply_le.trans printLowered.supply_le

theorem lowerAssign_inverted {next : Context StackFrame} {assign : Assign} {lowered : Lowered}
    (done : (lowerAssign functions context assign).run supply = .ok (next, lowered) final) :
    ∃ exp middle, LowersTo (context.scope functions) assign.value supply exp middle ∧
      next = context.bindLocal assign.name (.inReg middle.nextTemp) ∧
      lowered.toStm = .move (.temp middle.nextTemp) exp ∧ final = middle.afterTemp := by
  obtain ⟨exp, middle, access, frame, lowers, drawn, rfl, rfl⟩ := run_lowerAssign_eq_ok.mp done
  cases drawn
  exact ⟨exp, middle, lowers, rfl, rfl, rfl⟩

theorem assignsTo_of_run {assigns : List Assign} {statements : List Stm}
    (done : (lowerAssigns functions context assigns).run supply = .ok (last, statements) final) :
    AssignsTo functions context assigns supply last statements final := by
  induction assigns generalizing context supply statements with
  | nil =>
      cases done
      exact .nil
  | cons assign rest ih =>
      obtain ⟨next, lowered, middle, others, first, second, rfl⟩ :=
        run_lowerAssigns_cons_eq_ok.mp done
      obtain ⟨exp, before, lowers, rfl, code, rfl⟩ := lowerAssign_inverted first
      rw [code]
      exact .cons lowers (ih second)

theorem declaresTo_of_run {outer : Bindings Access} {declaration : Declaration}
    {procedure : Procedure StackFrame}
    (done : (lowerDeclaration functions layout.maker outer declaration).run supply =
      .ok procedure final) :
    DeclaresTo functions layout outer declaration supply procedure final := by
  obtain ⟨formals, context, statements, middle, exp, bound, body, lowers, rfl⟩ :=
    run_lowerDeclaration_eq_ok.mp done
  have bodyLowered := assignsTo_of_run body
  have sameFrame : context.frame =
      layout.frame (Label.function declaration.name) declaration.params.length :=
    bodyLowered.frame_eq
  rw [sameFrame]
  exact .intro bound bodyLowered lowers

theorem statementsTo_of_run {source : List Stmt} {statements : List Stm}
    {fragments : List (Fragment StackFrame)}
    (done : (lowerStatements functions layout.maker context source).run supply =
      .ok (last, statements, fragments) final) :
    StatementsTo functions layout context source supply last statements fragments final := by
  induction source generalizing context supply statements fragments with
  | nil =>
      cases done
      exact .nil
  | cons statement rest ih =>
      rw [lowerStatements_cons] at done
      simp only [run_bind_eq_ok, run_pure_eq_ok] at done
      obtain ⟨⟨next, first, made⟩, middle, step, ⟨_, others, remaining⟩, _, second, same, rfl⟩ :=
        done
      cases same
      have restLowered := ih second
      cases statement with
      | declare declaration =>
          simp only [lowerStatement, run_bind_eq_ok, run_pure_eq_ok] at step
          obtain ⟨procedure, _, declared, same, rfl⟩ := step
          cases same
          exact .declare (declaresTo_of_run declared) restLowered
      | assign assign =>
          cases literal : assign.value.literal? with
          | some value =>
              rw [run_lowerStatement_literal literal] at step
              cases step
              exact .literal literal restLowered
          | none =>
              simp only [lowerStatement, literal, run_bind_eq_ok, run_pure_eq_ok] at step
              obtain ⟨⟨_, lowered⟩, _, assigned, same, rfl⟩ := step
              cases same
              obtain ⟨exp, before, lowers, rfl, code, rfl⟩ := lowerAssign_inverted assigned
              rw [code]
              exact .assign literal lowers restLowered

theorem programTo_of_run {resolved : Resolved} {fragments : List (Fragment StackFrame)}
    (done : (lowerProgram layout.maker resolved).run supply = .ok fragments final) :
    ProgramTo layout resolved supply fragments final := by
  obtain ⟨context, statements, others, middle, exp, body, lowers, rfl⟩ :=
    run_lowerProgram_eq_ok.mp done
  have bodyLowered := statementsTo_of_run body
  have sameFrame : context.frame = layout.frame Label.main 0 := bodyLowered.frame_eq
  rw [sameFrame]
  exact .intro bodyLowered lowers

end TreeCompiler.Lower
