import TreeCompiler.Proofs.Emissions

set_option autoImplicit false

namespace TreeCompiler.Lower

open Code Source Resolve
open LowerM (run_bind_eq_ok run_draw_eq_ok run_ofExcept_eq_ok run_pure_eq_ok)

section Runs

variable {F : Type} [Frame F] {functions : FunctionTable} {maker : FrameMaker F}

theorem lowerAssigns_append (context : Context F) (body others : List Assign) :
    lowerAssigns functions context (body ++ others) = (do
      let (between, first) ← lowerAssigns functions context body
      let (last, second) ← lowerAssigns functions between others
      return (last, first ++ second)) := by
  induction body generalizing context with
  | nil => simp [lowerAssigns]
  | cons assign rest ih => simp [lowerAssigns, ih]

theorem lowerStatements_append (context : Context F) (before after : List Stmt) :
    lowerStatements functions maker context (before ++ after) = (do
      let (between, first, made) ← lowerStatements functions maker context before
      let (last, second, others) ← lowerStatements functions maker between after
      return (last, first ++ second, made ++ others)) := by
  induction before generalizing context with
  | nil => simp [lowerStatements]
  | cons statement rest ih => simp [lowerStatements_cons, ih]

def lowerBody (functions : FunctionTable) (maker : FrameMaker F) (outer : Bindings Access)
    (declaration : Declaration) (assigns : List Assign) : LowerM (Context F × List Stm) := do
  let frame ← LowerM.draw (maker (Label.function declaration.name) declaration.params.length)
  let formals ← LowerM.ofExcept
    (bindFormals declaration.name 0 .empty declaration.params (Frame.formals frame))
  lowerAssigns functions { frame, locals := formals.overlay outer } assigns

theorem lowerDeclaration_eq (outer : Bindings Access) (declaration : Declaration) :
    lowerDeclaration functions maker outer declaration = (do
      let (context, statements) ←
        lowerBody functions maker outer declaration declaration.body
      let result ← LowerM.ofExcept (← lowerExpr (context.scope functions) declaration.result).toExp
      return {
        frame := context.frame
        body := Frame.enclose context.frame
          (Stm.block (statements ++ [.move (Frame.returnValue context.frame) result])) }) := by
  simp [lowerDeclaration, lowerBody]

theorem lowerBody_append (outer : Bindings Access) (declaration : Declaration)
    (body others : List Assign) :
    lowerBody functions maker outer declaration (body ++ others) = (do
      let (between, first) ← lowerBody functions maker outer declaration body
      let (last, second) ← lowerAssigns functions between others
      return (last, first ++ second)) := by
  simp [lowerBody, lowerAssigns_append]

end Runs

section Tables

variable {functions : FunctionTable} {layout : StackLayout} {supply final : Supply}
  {context last : Context StackFrame}

def Context.Exclusive (context : Context StackFrame) : Prop :=
  ∀ name, context.locals.get? name = none ∨ context.constants.get? name = none

theorem Context.Exclusive.bindLocal (exclusive : context.Exclusive) (name : String)
    (access : Access) : (context.bindLocal name access).Exclusive := by
  intro other
  by_cases same : other = name
  · simp [Context.bindLocal, same]
  · simpa [Context.bindLocal, same] using exclusive other

theorem Context.Exclusive.bindConstant (exclusive : context.Exclusive) (name : String)
    (exp : Exp) : (context.bindConstant name exp).Exclusive := by
  intro other
  by_cases same : other = name
  · simp [Context.bindConstant, same]
  · simpa [Context.bindConstant, same] using exclusive other

theorem AssignsTo.exclusive {assigns : List Assign} {statements : List Stm}
    (lowered : AssignsTo functions context assigns supply last statements final)
    (exclusive : context.Exclusive) : last.Exclusive := by
  induction lowered with
  | nil => exact exclusive
  | cons _ _ ih => exact ih (exclusive.bindLocal _ _)

theorem StatementsTo.exclusive {source : List Stmt} {statements : List Stm}
    {fragments : List (Fragment StackFrame)}
    (lowered :
      StatementsTo functions layout context source supply last statements fragments final)
    (exclusive : context.Exclusive) : last.Exclusive := by
  induction lowered with
  | nil => exact exclusive
  | literal _ _ ih => exact ih (exclusive.bindConstant _ _)
  | assign _ _ _ ih => exact ih (exclusive.bindLocal _ _)
  | declare _ _ ih => exact ih exclusive

end Tables

section Parameters

variable {function : String} {index : Nat} {bindings bound : Bindings Access}
  {params : List Param} {formals : List Access}

theorem get?_bindFormals_of_notMem
    (done : bindFormals function index bindings params formals = .ok bound) {name : String}
    (notParam : name ∉ params.map Param.name) : bound.get? name = bindings.get? name := by
  induction params generalizing index bindings formals with
  | nil =>
      cases done
      rfl
  | cons param rest ih =>
      cases formals with
      | nil => cases done
      | cons formal others =>
          rw [List.map_cons, List.mem_cons, not_or] at notParam
          rw [ih done notParam.2, Bindings.get?_insert, if_neg notParam.1]

theorem get?_bindFormals (done : bindFormals function index bindings params formals = .ok bound)
    (distinct : (params.map Param.name).Nodup) {position : Nat} {name : String}
    (isParam : (params.map Param.name)[position]? = some name) :
    bound.get? name = formals[position]? := by
  induction params generalizing index bindings formals position with
  | nil => simp at isParam
  | cons param rest ih =>
      cases formals with
      | nil => cases done
      | cons formal others =>
          rw [List.map_cons, List.nodup_cons] at distinct
          cases position with
          | zero =>
              obtain rfl : param.name = name := by simpa using isParam
              -- No later parameter has this name, so none takes its place.
              rw [bindFormals] at done
              rw [get?_bindFormals_of_notMem done distinct.1, Bindings.get?_insert, if_pos rfl]
              rfl
          | succ position => exact ih done distinct.2 (by simpa using isParam)

end Parameters

section Bodies

variable {functions : FunctionTable} {layout : StackLayout} {supply final : Supply}
  {context last : Context StackFrame} {outer : Bindings Access} {declaration : Declaration}
  {body others : List Assign} {statements : List Stm}

inductive ReadsMoved : Assign × Stm → Exp → Prop
  | moved {assign temp source} : ReadsMoved (assign, .move (.temp temp) source) (.temp temp)

theorem AssignsTo.standsAfter
    (lowered : AssignsTo functions context body supply last statements final) (name : String) :
    StandsAfter ReadsMoved (lastAssigned? name (body.zip statements)) (context.value? name)
      (last.value? name) := by
  induction lowered with
  | nil => rfl
  | cons _ _ ih =>
      rw [Context.value?_bindLocal] at ih
      exact ih.rebound .moved

/--
What the names of a function stand for after the first assignments of its body, of which these
moves were made: for where the last of them has put the name, or else for the parameter.
-/
structure ReadsInBody (layout : StackLayout) (declaration : Declaration) (body : List Assign)
    (context : Context StackFrame) (moves : List Stm) : Prop where
  code : List.Forall₂ MovesValue body moves
  assigned : ∀ name assign move, lastAssigned? name (body.zip moves) = some (assign, move) →
    ∃ temp source, move = .move (.temp temp) source ∧ context.value? name = some (.temp temp)
  param : ∀ name index, lastAssigned? name (body.zip moves) = none →
    declaration.paramNames[index]? = some name →
      ∃ offset, layout.PlacesFormal index offset ∧
        context.value? name =
          some (.mem (.binop .plus (.temp layout.framePointer) (.const offset)))
  exclusive : context.Exclusive

theorem lowerBody_inverted
    (done : (lowerBody functions layout.maker outer declaration body).run supply =
      .ok (last, statements) final) :
    ∃ formals, bindFormals declaration.name 0 .empty declaration.params
        (layout.frame (Label.function declaration.name) declaration.params.length).formals =
      .ok formals ∧
      AssignsTo functions
        { frame := layout.frame (Label.function declaration.name) declaration.params.length
          locals := formals.overlay outer }
        body supply last statements final := by
  simp only [lowerBody, run_bind_eq_ok, run_draw_eq_ok, run_ofExcept_eq_ok] at done
  obtain ⟨_, _, made, formals, _, ⟨bound, rfl⟩, assigned⟩ := done
  cases made
  exact ⟨formals, bound, assignsTo_of_run assigned⟩

theorem readsInBody_of_run (distinct : declaration.paramNames.Nodup)
    (done : (lowerBody functions layout.maker outer declaration body).run supply =
      .ok (last, statements) final) :
    ReadsInBody layout declaration body last statements := by
  obtain ⟨formals, bound, lowered⟩ := lowerBody_inverted done
  constructor
  case code => exact lowered.movesValues
  case assigned =>
    intro name assign move found
    have stands := lowered.standsAfter name
    rw [found] at stands
    obtain ⟨_, held, ⟨⟩⟩ := stands
    exact ⟨_, _, rfl, held⟩
  case param =>
    intro name index unassigned isParam
    have stands := lowered.standsAfter name
    rw [unassigned] at stands
    have within : index < declaration.params.length := by
      simpa [Declaration.paramNames] using (List.getElem?_eq_some_iff.mp isParam).1
    obtain ⟨offset, placed, places⟩ :=
      layout.formals_frame_get? (Label.function declaration.name) within
    have found := (get?_bindFormals bound distinct isParam).trans placed
    refine ⟨offset, places, stands.trans ?_⟩
    simp [Context.value?, found, Access.exp, Frame.framePointer, StackLayout.frame]
  case exclusive => exact lowered.exclusive fun name => .inr (Bindings.get?_empty name)

theorem lowerDeclaration_split {procedure : Procedure StackFrame}
    (done : (lowerDeclaration functions layout.maker outer declaration).run supply =
      .ok procedure final)
    (split : declaration.body = body ++ others) :
    ∃ inner moves middle,
      (lowerBody functions layout.maker outer declaration body).run supply =
        .ok (inner, moves) middle ∧
      moves <+: procedure.body.linear := by
  simp only [lowerDeclaration_eq, run_bind_eq_ok, run_lowerExpr_eq_ok, run_ofExcept_eq_ok,
    run_pure_eq_ok] at done
  obtain ⟨⟨context, statements⟩, middle, whole, _, _, ⟨exp, rfl, lowers⟩, _, _, ⟨value, rfl⟩,
    rfl, rfl⟩ := done
  cases value
  -- The whole body is in one list, which the moves of its first assignments begin.
  obtain ⟨_, _, lowered⟩ := lowerBody_inverted whole
  have thread := lowered.threadTo lowers
  rw [split, lowerBody_append] at whole
  simp only [run_bind_eq_ok, run_pure_eq_ok] at whole
  obtain ⟨⟨inner, moves⟩, later, first, ⟨_, rest⟩, _, _, same, rfl⟩ := whole
  cases same
  refine ⟨inner, moves, later, first, ?_⟩
  rw [lowered.frame_eq]
  change moves <+: (Stm.block (moves ++ rest ++ [.move (.temp layout.returnValue) exp])).linear
  rw [thread.linear_body rfl (by simp), List.append_assoc]
  exact List.prefix_append _ _

end Bodies

section Programs

variable {layout : StackLayout} {supply final : Supply} {resolved : Resolved}
  {fragments : List (Fragment StackFrame)} {before after : List Stmt}

structure ReadsAtTop (layout : StackLayout) (before : List Stmt) (context : Context StackFrame)
    (statements : List Stm) (fragments : List (Fragment StackFrame)) : Prop where
  -- Before the first statement no name stands for anything.
  names : ∃ emissions, Emitted layout before statements fragments emissions ∧
    ∀ name, StandsAfter ReadsBack (lastAssigned? name (assignments before emissions)) none
      (context.value? name)
  exclusive : context.Exclusive

theorem readsAtTop_of_run {functions : FunctionTable} {context : Context StackFrame}
    {statements : List Stm}
    (done : (lowerStatements functions layout.maker (mainContext layout.maker supply) before).run
      supply = .ok (context, statements, fragments) final) :
    ReadsAtTop layout before context statements fragments where
  names := (statementsTo_of_run done).emitted
  exclusive := (statementsTo_of_run done).exclusive fun name => .inl (Bindings.get?_empty name)

-- After the first statements comes the rest, in the context that they leave.
theorem lowerProgram_split
    (done : (lowerProgram layout.maker resolved).run supply = .ok fragments final)
    (split : resolved.program.statements = before ++ after) :
    ∃ context statements made middle last others rest later main,
      (lowerStatements resolved.functions layout.maker (mainContext layout.maker supply) before).run
          (afterMainFrame layout.maker supply) = .ok (context, statements, made) middle ∧
      (lowerStatements resolved.functions layout.maker context after).run middle =
        .ok (last, others, rest) later ∧
      fragments = made ++ rest ++ [.procedure main] ∧ Frame.label main.frame = Label.main ∧
      statements.filter (fun statement => !statement.isNop) <+: main.body.linear := by
  obtain ⟨last, whole, all, later, exp, body, lowers, rfl⟩ := run_lowerProgram_eq_ok.mp done
  have lowered := statementsTo_of_run body
  have thread := lowered.threadTo lowers
  rw [split, lowerStatements_append] at body
  simp only [run_bind_eq_ok, run_pure_eq_ok] at body
  obtain ⟨⟨context, statements, made⟩, middle, first, ⟨_, others, rest⟩, _, second, same, rfl⟩ :=
    body
  cases same
  refine ⟨context, statements, made, middle, _, others, rest, _, _, first, second, rfl, ?_, ?_⟩
  · rw [lowered.frame_eq]
    rfl
  · change _ <+: (Stm.block (statements ++ others ++ [.exp (.call Label.print [exp])])).linear
    rw [← Stm.block_filter_append, thread.linear_body rfl (by simp), List.filter_append,
      List.append_assoc]
    exact List.prefix_append _ _

theorem exists_declared {functions : FunctionTable} {context last : Context StackFrame}
    {declaration : Declaration} {rest : List Stmt} {statements : List Stm}
    (done : (lowerStatements functions layout.maker context (.declare declaration :: rest)).run
      supply = .ok (last, statements, fragments) final) :
    ∃ procedure middle,
      (lowerDeclaration functions layout.maker context.locals declaration).run supply =
        .ok procedure middle ∧
      .procedure procedure ∈ fragments := by
  simp only [lowerStatements, run_bind_eq_ok, run_pure_eq_ok] at done
  obtain ⟨procedure, middle, declared, _, _, _, same, _⟩ := done
  cases same
  exact ⟨procedure, middle, declared, List.mem_cons_self⟩

-- The function is declared where these are the locals around it and its names are drawn from here.
def ReadsWithin (layout : StackLayout) (functions : FunctionTable) (outer : Bindings Access)
    (begun : Supply) (fragments : List (Fragment StackFrame)) (declaration : Declaration) : Prop :=
  ∃ procedure, findProcedure? (Label.function declaration.name) fragments = some procedure ∧
    ∀ body others, declaration.body = body ++ others →
      ∃ context moves middle,
        (lowerBody functions layout.maker outer declaration body).run begun =
          .ok (context, moves) middle ∧
        ReadsInBody layout declaration body context moves ∧ moves <+: procedure.body.linear

/--
After any of the statements the names stand for what was last bound to them, and what was made so
far is what the output begins with.
-/
def ReadsLastBindings (layout : StackLayout) (supply : Supply) (functions : FunctionTable)
    (program : Program) (fragments : List (Fragment StackFrame)) : Prop :=
  ∀ before after, program.statements = before ++ after →
    ∃ context statements made middle main,
      (lowerStatements functions layout.maker (mainContext layout.maker supply) before).run
          (afterMainFrame layout.maker supply) = .ok (context, statements, made) middle ∧
      ReadsAtTop layout before context statements made ∧ made <+: fragments ∧
      findProcedure? Label.main fragments = some main ∧
      statements.filter (fun statement => !statement.isNop) <+: main.body.linear ∧
      ∀ declaration rest, after = .declare declaration :: rest →
        ReadsWithin layout functions context.locals middle fragments declaration

theorem readsWithin_of_run {functions : FunctionTable} {outer : Bindings Access}
    {declaration : Declaration} {procedure : Procedure StackFrame}
    (done : (lowerDeclaration functions layout.maker outer declaration).run supply =
      .ok procedure final)
    (params : declaration.paramNames.Nodup) (distinct : (procedureLabels fragments).Nodup)
    (member : .procedure procedure ∈ fragments) :
    ReadsWithin layout functions outer supply fragments declaration := by
  refine ⟨procedure, ?_, fun body others split => ?_⟩
  · rw [← (declaresTo_of_run done).frame_label]
    exact findProcedure?_of_mem distinct member
  · obtain ⟨context, moves, middle, begun, begins⟩ := lowerDeclaration_split done split
    exact ⟨context, moves, middle, begun, readsInBody_of_run params begun, begins⟩

theorem lowerProgram_reads_last_binding {program : Program} {queue : Diagnostic.Queue}
    {resolved : Resolved} (accepted : (resolve program queue).1 = .ok resolved)
    (layout : StackLayout) (supply : Supply) :
    ∃ fragments final, (lowerProgram layout.maker resolved).run supply = .ok fragments final ∧
      ReadsLastBindings layout supply resolved.functions program fragments := by
  obtain ⟨wellScoped, rfl⟩ := wellScoped_of_resolve accepted
  obtain ⟨fragments, final, done⟩ := lowerProgram_stack_ok wellScoped layout supply
  have distinct := (programTo_of_run done).nodup_procedureLabels wellScoped.functions
  refine ⟨fragments, final, done, fun before after split => ?_⟩
  obtain ⟨context, statements, made, middle, _, _, rest, _, main, first, second, divided, label,
    begins⟩ := lowerProgram_split done split
  have found : findProcedure? Label.main fragments = some main := by
    rw [← label]
    exact findProcedure?_of_mem distinct (by simp [divided])
  refine ⟨context, statements, made, middle, main, first, readsAtTop_of_run first, ?_, found,
    begins, ?_⟩
  · rw [divided, List.append_assoc]
    exact List.prefix_append _ _
  · rintro declaration remaining rfl
    obtain ⟨procedure, _, declared, member⟩ := exists_declared second
    have listed : .declare declaration ∈ program.statements := by simp [split]
    have isDeclared : declaration ∈ program.declarations :=
      List.mem_filterMap.mpr ⟨_, listed, rfl⟩
    exact readsWithin_of_run declared (wellScoped.declarations declaration isDeclared).params
      distinct (by simp [divided, member])

theorem lowerProgram_reads_last_binding_rebinding :
    let wordSize : WordSize := ⟨8, by decide, by decide⟩
    let (layout, supply) := (StackLayout.reserve wordSize).run {}
    (resolve rebinding {}).1 = .ok (resolution rebinding) ∧
      ∃ fragments final,
        (lowerProgram layout.maker (resolution rebinding)).run supply = .ok fragments final ∧
        ReadsLastBindings layout supply (resolution rebinding).functions rebinding fragments := by
  intro wordSize
  have accepted : (resolve rebinding {}).1 = .ok (resolution rebinding) := rfl
  exact ⟨accepted, lowerProgram_reads_last_binding accepted _ _⟩

end Programs

end TreeCompiler.Lower
