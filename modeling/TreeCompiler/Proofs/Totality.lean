import TreeCompiler.Frame.Tailored
import TreeCompiler.Proofs.Acceptance
import TreeCompiler.Proofs.Lowering

set_option autoImplicit false

namespace TreeCompiler.Lower

open Code Source Resolve LowerM

variable {F : Type} [Frame F]

mutual

theorem exists_lowersTo {scope : Scope} : (expr : Expr) →
    (∀ name ∈ expr.identifiers, (scope.value? name).isSome) →
    (∀ callee ∈ expr.callees, scope.declares callee) → (supply : Supply) →
      ∃ exp final, LowersTo scope expr supply exp final
  | .literal _ _, _, _, supply => ⟨_, _, .literal⟩
  | .ident name _, bound, _, supply => by
      obtain ⟨exp, found⟩ := Option.isSome_iff_exists.mp (bound name (by simp [Expr.identifiers]))
      exact ⟨exp, supply, .ident found⟩
  | .binary op left right _, bound, declared, supply => by
      simp only [Expr.identifiers, Expr.callees, List.forall_mem_append] at bound declared
      obtain ⟨leftExp, middle, leftLowered⟩ := exists_lowersTo left bound.1 declared.1 supply
      obtain ⟨rightExp, final, rightLowered⟩ := exists_lowersTo right bound.2 declared.2 middle
      cases op
      case lessThan => exact ⟨_, _, .comparison leftLowered rightLowered⟩
      all_goals exact ⟨_, _, .arithmetic rfl leftLowered rightLowered⟩
  | .negation operand _, bound, declared, supply => by
      obtain ⟨exp, final, lowered⟩ := exists_lowersTo operand bound declared supply
      exact ⟨_, _, .negation lowered⟩
  | .conditional guard thenBranch elseBranch _, bound, declared, supply => by
      simp only [Expr.identifiers, Expr.callees, List.forall_mem_append] at bound declared
      obtain ⟨_, middle, guardLowered⟩ :=
        exists_lowersTo guard bound.1.1 declared.1.1 supply.afterJoints.afterTemp
      obtain ⟨_, later, thenLowered⟩ := exists_lowersTo thenBranch bound.1.2 declared.1.2 middle
      obtain ⟨_, final, elseLowered⟩ := exists_lowersTo elseBranch bound.2 declared.2 later
      exact ⟨_, _, .conditional guardLowered thenLowered elseLowered⟩
  | .call callee args _, bound, declared, supply => by
      simp only [Expr.callees, List.forall_mem_cons] at declared
      obtain ⟨exps, final, lowered⟩ := exists_lowersAllTo args bound declared.2 supply
      exact ⟨_, _, .call declared.1 lowered⟩

theorem exists_lowersAllTo {scope : Scope} : (exprs : List Expr) →
    (∀ name ∈ Expr.identifiersOfAll exprs, (scope.value? name).isSome) →
    (∀ callee ∈ Expr.calleesOfAll exprs, scope.declares callee) → (supply : Supply) →
      ∃ exps final, LowersAllTo scope exprs supply exps final
  | [], _, _, supply => ⟨_, _, .nil⟩
  | first :: rest, bound, declared, supply => by
      simp only [Expr.identifiersOfAll, Expr.calleesOfAll, List.forall_mem_append] at bound declared
      obtain ⟨exp, middle, firstLowered⟩ := exists_lowersTo first bound.1 declared.1 supply
      obtain ⟨exps, final, restLowered⟩ := exists_lowersAllTo rest bound.2 declared.2 middle
      exact ⟨_, _, .cons firstLowered restLowered⟩

end

def Context.Knows (context : Context F) (names : List String) : Prop :=
  ∀ name ∈ names, (context.value? name).isSome

theorem Context.Knows.bindLocal {context : Context F} {names : List String}
    (knows : context.Knows names) (frame : F) (name : String) (access : Access) :
    ({ context with frame } : Context F).bindLocal name access |>.Knows (name :: names) := by
  intro other member
  by_cases same : other = name
  · simp [Context.bindLocal, Context.value?, same]
  · have known := knows other ((List.mem_cons.mp member).resolve_left same)
    simpa [Context.bindLocal, Context.value?, same] using known

theorem Context.Knows.bindConstant {context : Context F} {names : List String}
    (knows : context.Knows names) (name : String) (exp : Exp) :
    (context.bindConstant name exp).Knows (name :: names) := by
  intro other member
  by_cases same : other = name
  · simp [Context.bindConstant, Context.value?, same]
  · have known := knows other ((List.mem_cons.mp member).resolve_left same)
    simpa [Context.bindConstant, Context.value?, same] using known

variable {functions : FunctionTable} {context : Context F} {names : List String}

theorem exists_lowersTo_of_knows (knows : context.Knows names) {expr : Expr}
    (bound : ∀ name ∈ expr.identifiers, name ∈ names)
    (declared : ∀ callee ∈ expr.callees, functions.contains callee) (supply : Supply) :
    ∃ exp final, LowersTo (context.scope functions) expr supply exp final :=
  exists_lowersTo expr (fun name occurs => knows name (bound name occurs)) declared supply

theorem exists_lowerAssign (knows : context.Knows names) {assign : Assign}
    (bound : ∀ name ∈ assign.value.identifiers, name ∈ names)
    (declared : ∀ callee ∈ assign.value.callees, functions.contains callee) (supply : Supply) :
    ∃ next lowered final, (lowerAssign functions context assign).run supply =
      .ok (next, lowered) final ∧ next.Knows (assign.name :: names) := by
  obtain ⟨exp, middle, lowered⟩ := exists_lowersTo_of_knows knows bound declared supply
  exact ⟨_, _, _, run_lowerAssign_eq_ok.mpr ⟨exp, middle, _, _, lowered, rfl, rfl, rfl⟩,
    knows.bindLocal _ _ _⟩

theorem exists_lowerAssigns (knows : context.Knows names) {assigns : List Assign}
    (bound : BoundInOrder names assigns)
    (declared : ∀ callee ∈ assigns.flatMap (fun assign => assign.value.callees),
      functions.contains callee) (supply : Supply) :
    ∃ next statements final, (lowerAssigns functions context assigns).run supply =
      .ok (next, statements) final ∧ next.Knows (names ++ assigns.map Assign.name) := by
  induction assigns generalizing context names supply with
  | nil =>
      refine ⟨context, [], supply, rfl, ?_⟩
      simpa using knows
  | cons assign rest ih =>
      rw [boundInOrder_cons] at bound
      simp only [List.flatMap_cons, List.forall_mem_append] at declared
      obtain ⟨next, lowered, middle, first, nextKnows⟩ :=
        exists_lowerAssign knows bound.1 declared.1 supply
      obtain ⟨last, statements, final, others, lastKnows⟩ :=
        ih nextKnows bound.2 declared.2 middle
      refine ⟨last, lowered.toStm :: statements, final, ?_, ?_⟩
      · exact run_lowerAssigns_cons_eq_ok.mpr ⟨next, lowered, middle, _, first, others, rfl⟩
      · exact fun name known => lastKnows name (mem_names_cons.mp known)

theorem bindFormals_of_le {function : String} {params : List Param} {formals : List Access}
    (enough : params.length ≤ formals.length) (index : Nat) (bindings : Bindings Access) :
    ∃ bound, bindFormals function index bindings params formals = .ok bound ∧
      ∀ name, bindings.contains name ∨ name ∈ params.map Param.name → bound.contains name := by
  induction params generalizing formals index bindings with
  | nil => exact ⟨bindings, by simp [bindFormals], by simp⟩
  | cons param rest ih =>
      cases formals with
      | nil => simp at enough
      | cons formal others =>
          obtain ⟨bound, done, covered⟩ := ih (by simpa using enough) (index + 1)
            (bindings.insert param.name formal)
          refine ⟨bound, by simpa only [bindFormals] using done, fun name known => ?_⟩
          apply covered name
          rw [Bindings.contains_insert]
          simp only [List.map_cons, List.mem_cons] at known
          tauto

theorem bindFormals_of_lt {function : String} {params : List Param} {formals : List Access}
    (short : formals.length < params.length) (index : Nat) (bindings : Bindings Access) :
    bindFormals function index bindings params formals =
      .error (.missingFormal function (index + formals.length)) := by
  induction params generalizing formals index bindings with
  | nil => simp at short
  | cons param rest ih =>
      cases formals with
      | nil => simp [bindFormals]
      | cons formal others =>
          rw [bindFormals, ih (by simpa using short)]
          simp only [List.length_cons, Except.error.injEq, LowerError.missingFormal.injEq, true_and]
          omega

theorem mem_of_bindFormals {function : String} {index : Nat} {bindings bound : Bindings Access}
    {params : List Param} {formals : List Access}
    (done : bindFormals function index bindings params formals = .ok bound) {name : String}
    {access : Access} (found : bound.get? name = some access) :
    bindings.get? name = some access ∨ access ∈ formals := by
  induction params generalizing index bindings formals with
  | nil =>
      cases done
      exact .inl found
  | cons param params ih =>
      cases formals with
      | nil => cases done
      | cons formal formals =>
          rcases ih done with before | later
          · rw [Bindings.get?_insert] at before
            split at before
            next =>
              cases before
              exact .inr List.mem_cons_self
            next => exact .inl before
          · exact .inr (List.mem_cons_of_mem formal later)

theorem contains_of_bindFormals {function : String} {index : Nat}
    {bindings bound : Bindings Access} {params : List Param} {formals : List Access}
    (done : bindFormals function index bindings params formals = .ok bound) {name : String}
    (isParam : name ∈ params.map Param.name) : bound.contains name := by
  by_cases enough : params.length ≤ formals.length
  · obtain ⟨_, done', covered⟩ := bindFormals_of_le enough index bindings
    cases done.symm.trans done'
    exact covered name (.inr isParam)
  · rw [bindFormals_of_lt (Nat.lt_of_not_le enough)] at done
    cases done

theorem exists_formal {function : String} {params : List Param} {formals : List Access}
    {bound : Bindings Access} (done : bindFormals function 0 .empty params formals = .ok bound)
    {name : String} (isParam : name ∈ params.map Param.name) :
    ∃ access ∈ formals, bound.get? name = some access := by
  obtain ⟨access, found⟩ := Option.isSome_iff_exists.mp (contains_of_bindFormals done isParam)
  have isFormal := (mem_of_bindFormals done found).resolve_left (by simp)
  exact ⟨access, isFormal, found⟩

def Roomy (declaration : Declaration) (frame : F) : Prop :=
  declaration.params.length ≤ (Frame.formals frame).length

variable {maker : FrameMaker F}

theorem lowerDeclaration_of_roomy {declaration : Declaration}
    (wellScoped : declaration.WellScoped)
    (declared : ∀ callee ∈ declaration.callees, functions.contains callee) {supply : Supply}
    (roomy : Roomy declaration (frameFor maker supply declaration)) (outer : Bindings Access) :
    ∃ procedure final,
      (lowerDeclaration functions maker outer declaration).run supply = .ok procedure final := by
  obtain ⟨formals, bound, covered⟩ := bindFormals_of_le roomy 0 .empty
  let start : Context F :=
    { frame := frameFor maker supply declaration, locals := formals.overlay outer }
  have startKnows : start.Knows declaration.paramNames := by
    intro name param
    have known := covered name (.inr param)
    simp only [Bindings.contains] at known
    simp [start, Context.value?, known]
  simp only [Declaration.callees, List.forall_mem_append] at declared
  obtain ⟨context, statements, middle, body, knows⟩ :=
    exists_lowerAssigns startKnows wellScoped.body declared.1 (afterFrameFor maker supply declaration)
  obtain ⟨result, final, lowered⟩ := exists_lowersTo_of_knows knows
    (fun name occurs => List.mem_append.mpr (wellScoped.result name occurs)) declared.2 middle
  exact ⟨_, final, run_lowerDeclaration_eq_ok.mpr
    ⟨formals, context, statements, middle, result, bound, body, lowered, rfl⟩⟩

theorem lowerDeclaration_of_not_roomy (functions : FunctionTable) {declaration : Declaration}
    {supply : Supply} (short : ¬Roomy declaration (frameFor maker supply declaration))
    (outer : Bindings Access) :
    ∃ final, (lowerDeclaration functions maker outer declaration).run supply =
      .error (.missingFormal declaration.name
        (Frame.formals (frameFor maker supply declaration)).length) final := by
  have failed : bindFormals declaration.name 0 .empty declaration.params
      (Frame.formals (frameFor maker supply declaration)) =
        .error (.missingFormal declaration.name
          (Frame.formals (frameFor maker supply declaration)).length) := by
    simpa using bindFormals_of_lt (Nat.lt_of_not_le short) 0 .empty
  refine ⟨afterFrameFor maker supply declaration, ?_⟩
  rw [lowerDeclaration, run_bind_of_ok (run_draw _ _)]
  apply run_bind_of_error
  exact congrArg (fun outcome => (LowerM.ofExcept outcome).run _) failed

structure Lowerable (functions : FunctionTable) (names : List String) (statements : List Stmt) :
    Prop where
  values : BoundInOrder names (statements.filterMap Stmt.assign?)
  declarations : ∀ declaration ∈ statements.filterMap Stmt.declaration?, declaration.WellScoped
  calls : ∀ callee ∈ statements.flatMap Stmt.callees, functions.contains callee

def boundAfter (names : List String) : Stmt → List String
  | .assign assign => assign.name :: names
  | .declare _ => names

theorem Lowerable.tail {statement : Stmt} {rest : List Stmt}
    (lowerable : Lowerable functions names (statement :: rest)) :
    Lowerable functions (boundAfter names statement) rest := by
  have calls : ∀ callee ∈ rest.flatMap Stmt.callees, functions.contains callee := by
    intro callee called
    exact lowerable.calls callee (by simp [called])
  cases statement with
  | assign assign =>
      exact ⟨((boundInOrder_cons _ _ _).mp lowerable.values).2, lowerable.declarations, calls⟩
  | declare declaration =>
      refine ⟨lowerable.values, ?_, calls⟩
      intro other member
      exact lowerable.declarations other (List.mem_cons_of_mem declaration member)

theorem mem_boundAfter {statement : Stmt} {rest : List Stmt} {name : String}
    (member : name ∈ names ++ ((statement :: rest).filterMap Stmt.assign?).map Assign.name) :
    name ∈ boundAfter names statement ++ (rest.filterMap Stmt.assign?).map Assign.name := by
  cases statement with
  | assign assign => exact mem_names_cons.mp member
  | declare => exact member

theorem lowerStatement_of_roomy (knows : context.Knows names) {statement : Stmt}
    {rest : List Stmt} (lowerable : Lowerable functions names (statement :: rest)) {supply : Supply}
    (roomy : ∀ declaration, statement = .declare declaration →
      Roomy declaration (frameFor maker supply declaration)) :
    ∃ next first made middle, (lowerStatement functions maker context statement).run supply =
      .ok (next, first, made) middle ∧ next.Knows (boundAfter names statement) := by
  have calls : ∀ callee ∈ statement.callees, functions.contains callee := by
    intro callee called
    exact lowerable.calls callee (by simp [called])
  cases statement with
  | assign assign =>
      cases literal : assign.value.literal? with
      | some value =>
          exact ⟨_, _, _, _, run_lowerStatement_literal literal supply, knows.bindConstant _ _⟩
      | none =>
          have bound := ((boundInOrder_cons _ _ _).mp lowerable.values).1
          obtain ⟨next, lowered, middle, done, nextKnows⟩ :=
            exists_lowerAssign knows bound calls supply
          exact ⟨next, _, _, middle, run_lowerStatement_assign literal done, nextKnows⟩
  | declare declaration =>
      have wellScoped := lowerable.declarations declaration List.mem_cons_self
      obtain ⟨procedure, middle, done⟩ :=
        lowerDeclaration_of_roomy wellScoped calls (roomy declaration rfl) context.locals
      exact ⟨context, _, _, middle, run_lowerStatement_declare done, knows⟩

def MakesFrame (functions : FunctionTable) (maker : FrameMaker F) (context : Context F)
    (supply : Supply) (before : List Stmt) (declaration : Declaration) (frame : F) : Prop :=
  ∃ outcome middle, (lowerStatements functions maker context before).run supply =
    .ok outcome middle ∧ frame = frameFor maker middle declaration

def AllRoomy (functions : FunctionTable) (maker : FrameMaker F) (context : Context F)
    (supply : Supply) (statements : List Stmt) : Prop :=
  ∀ before declaration after, statements = before ++ .declare declaration :: after →
    ∃ frame, MakesFrame functions maker context supply before declaration frame ∧
      Roomy declaration frame

section Steps

variable {next : Context F} {statement : Stmt} {first : Stm} {made : List (Fragment F)}
  {supply middle : Supply}

theorem run_lowerStatements_of_step
    (step : (lowerStatement functions maker context statement).run supply =
      .ok (next, first, made) middle) (rest : List Stmt) :
    (lowerStatements functions maker context (statement :: rest)).run supply =
      (do
        let (last, others, fragments) ← lowerStatements functions maker next rest
        return (last, first :: others, made ++ fragments) : LowerM _).run middle := by
  rw [lowerStatements_cons, run_bind_of_ok step]

theorem makesFrame_nil {declaration : Declaration} {frame : F} :
    MakesFrame functions maker context supply [] declaration frame ↔
      frame = frameFor maker supply declaration := by
  simp only [MakesFrame, lowerStatements, run_pure_eq_ok]
  constructor
  · rintro ⟨_, _, ⟨-, rfl⟩, same⟩
    exact same
  · intro same
    exact ⟨_, supply, ⟨rfl, rfl⟩, same⟩

theorem makesFrame_cons
    (step : (lowerStatement functions maker context statement).run supply =
      .ok (next, first, made) middle) {before : List Stmt} {declaration : Declaration} {frame : F} :
    MakesFrame functions maker context supply (statement :: before) declaration frame ↔
      MakesFrame functions maker next middle before declaration frame := by
  simp only [MakesFrame, run_lowerStatements_of_step step, run_bind_eq_ok]
  constructor
  · rintro ⟨_, _, ⟨outcome, final, done, finished⟩, rfl⟩
    obtain ⟨rfl, rfl⟩ := run_pure_eq_ok.mp finished
    exact ⟨outcome, final, done, rfl⟩
  · rintro ⟨outcome, final, done, rfl⟩
    exact ⟨_, final, ⟨outcome, final, done, rfl⟩, rfl⟩

theorem allRoomy_cons
    (step : (lowerStatement functions maker context statement).run supply =
      .ok (next, first, made) middle) {rest : List Stmt} :
    AllRoomy functions maker context supply (statement :: rest) ↔
      (∀ declaration, statement = .declare declaration →
        Roomy declaration (frameFor maker supply declaration)) ∧
      AllRoomy functions maker next middle rest := by
  constructor
  · intro roomy
    constructor
    · rintro declaration rfl
      obtain ⟨frame, makes, enough⟩ := roomy [] declaration rest rfl
      rwa [makesFrame_nil.mp makes] at enough
    · rintro before declaration after rfl
      obtain ⟨frame, makes, enough⟩ := roomy (statement :: before) declaration after rfl
      exact ⟨frame, (makesFrame_cons step).mp makes, enough⟩
  · rintro ⟨head, tail⟩ before declaration after split
    cases before with
    | nil =>
        obtain ⟨rfl, rfl⟩ := List.cons.inj split
        exact ⟨_, makesFrame_nil.mpr rfl, head declaration rfl⟩
    | cons earlier before =>
        obtain ⟨rfl, rest_split⟩ := List.cons.inj split
        obtain ⟨frame, makes, enough⟩ := tail before declaration after rest_split
        exact ⟨frame, (makesFrame_cons step).mpr makes, enough⟩

end Steps

/--
Lowering stops at the first declaration whose frame lacks a formal. The statements before it are
lowered, and the index of the fault counts the formals that the frame does have.
-/
def StopsAtShortFrame (functions : FunctionTable) (maker : FrameMaker F) (context : Context F)
    (supply : Supply) (statements : List Stmt) (error : LowerError) : Prop :=
  ∃ before declaration after frame,
    statements = before ++ .declare declaration :: after ∧
    AllRoomy functions maker context supply before ∧
    MakesFrame functions maker context supply before declaration frame ∧
    ¬Roomy declaration frame ∧
    error = .missingFormal declaration.name (Frame.formals frame).length

theorem stopsAtShortFrame_cons {next : Context F} {statement : Stmt} {first : Stm}
    {made : List (Fragment F)} {supply middle : Supply} {rest : List Stmt} {error : LowerError}
    (step : (lowerStatement functions maker context statement).run supply =
      .ok (next, first, made) middle)
    (roomy : ∀ declaration, statement = .declare declaration →
      Roomy declaration (frameFor maker supply declaration))
    (stops : StopsAtShortFrame functions maker next middle rest error) :
    StopsAtShortFrame functions maker context supply (statement :: rest) error := by
  obtain ⟨before, declaration, after, frame, rfl, enough, makes, short, rfl⟩ := stops
  exact ⟨statement :: before, declaration, after, frame, rfl,
    (allRoomy_cons step).mpr ⟨roomy, enough⟩, (makesFrame_cons step).mpr makes, short, rfl⟩

theorem lowerStatements_outcome (knows : context.Knows names) {statements : List Stmt}
    (lowerable : Lowerable functions names statements) (supply : Supply) :
    (AllRoomy functions maker context supply statements ∧
      ∃ last others fragments final,
        (lowerStatements functions maker context statements).run supply =
          .ok (last, others, fragments) final ∧
        last.Knows (names ++ (statements.filterMap Stmt.assign?).map Assign.name)) ∨
    ∃ error final,
      StopsAtShortFrame functions maker context supply statements error ∧
      (lowerStatements functions maker context statements).run supply = .error error final := by
  induction statements generalizing context names supply with
  | nil =>
      left
      refine ⟨?_, context, [], [], supply, rfl, by simpa using knows⟩
      intro before declaration after split
      simp at split
  | cons statement rest ih =>
      by_cases roomy : ∀ declaration, statement = .declare declaration →
        Roomy declaration (frameFor maker supply declaration)
      · obtain ⟨next, first, made, middle, step, nextKnows⟩ :=
          lowerStatement_of_roomy knows lowerable roomy
        have computed := run_lowerStatements_of_step step rest
        rcases ih nextKnows lowerable.tail middle with
          ⟨others, last, statements, fragments, final, done, lastKnows⟩ |
          ⟨error, final, stops, failed⟩
        · left
          refine ⟨(allRoomy_cons step).mpr ⟨roomy, others⟩, last, first :: statements,
            made ++ fragments, final, ?_, fun name known => lastKnows name (mem_boundAfter known)⟩
          rw [computed, run_bind_of_ok done, run_pure]
        · right
          refine ⟨error, final, stopsAtShortFrame_cons step roomy stops, ?_⟩
          rw [computed, run_bind_of_error failed]
      · -- Only a declaration can be short of room, and then this is the first one that is.
        right
        simp only [not_forall] at roomy
        obtain ⟨declaration, rfl, short⟩ := roomy
        obtain ⟨final, failed⟩ := lowerDeclaration_of_not_roomy functions short context.locals
        refine ⟨_, final, ⟨[], declaration, rest, _, rfl, ?_, makesFrame_nil.mpr rfl, short, rfl⟩, ?_⟩
        · intro before other after split
          simp at split
        · rw [lowerStatements, run_bind_of_error failed]

theorem lowerable_of_accepted {program : Program} (wellScoped : program.WellScoped) :
    Lowerable (resolution program).functions [] program.statements where
  values := wellScoped.values
  declarations := wellScoped.declarations
  calls := by
    intro callee called
    apply (covers_resolveFunctions program callee).mpr
    exact wellScoped.calls callee (List.mem_append_left _ called)

theorem lowerProgram_of_wellScoped {program : Program} (wellScoped : program.WellScoped)
    (maker : FrameMaker F) (supply : Supply) :
    let functions := (resolution program).functions
    let start := mainContext maker supply
    let begun := afterMainFrame maker supply
    (AllRoomy functions maker start begun program.statements ∧
      ∃ fragments final,
        (lowerProgram maker (resolution program)).run supply = .ok fragments final) ∨
    ∃ error final, StopsAtShortFrame functions maker start begun program.statements error ∧
      (lowerProgram maker (resolution program)).run supply = .error error final := by
  intro functions start begun
  have startKnows : start.Knows [] := by
    intro name member
    simp at member
  rcases lowerStatements_outcome startKnows (lowerable_of_accepted wellScoped) begun with
    ⟨roomy, context, statements, others, middle, done, knows⟩ | ⟨error, final, stops, failed⟩
  · left
    have declared : ∀ callee ∈ program.print.exp.callees, functions.contains callee := by
      intro callee called
      apply (covers_resolveFunctions program callee).mpr
      exact wellScoped.calls callee (List.mem_append_right _ called)
    obtain ⟨exp, final, lowered⟩ := exists_lowersTo_of_knows knows wellScoped.print declared middle
    exact ⟨roomy, _, final, run_lowerProgram_eq_ok.mpr
      ⟨context, statements, others, middle, exp, done, lowered, rfl⟩⟩
  · right
    refine ⟨error, final, stops, ?_⟩
    rw [run_lowerProgram]
    exact run_bind_of_error failed

theorem not_allRoomy_of_stops {supply : Supply} {statements : List Stmt} {error : LowerError}
    (stops : StopsAtShortFrame functions maker context supply statements error) :
    ¬AllRoomy functions maker context supply statements := by
  obtain ⟨before, declaration, after, frame, rfl, -, makes, short, -⟩ := stops
  intro roomy
  obtain ⟨other, makes', enough⟩ := roomy before declaration after rfl
  -- The supply after the statements before decides the frame, so there is only one.
  obtain ⟨_, _, done, rfl⟩ := makes
  obtain ⟨_, _, done', rfl⟩ := makes'
  rw [done] at done'
  cases done'
  exact short enough

theorem roomy_stackFrame (layout : StackLayout) (supply : Supply) (declaration : Declaration) :
    Roomy declaration (frameFor layout.maker supply declaration) := by
  simp [Roomy, StackLayout.frame, Frame.formals]

theorem lowerProgram_stack_ok {program : Program} (wellScoped : program.WellScoped)
    (layout : StackLayout) (supply : Supply) :
    ∃ fragments final,
      (lowerProgram layout.maker (resolution program)).run supply = .ok fragments final := by
  rcases lowerProgram_of_wellScoped wellScoped layout.maker supply with
    ⟨-, done⟩ | ⟨error, final, ⟨_, declaration, _, _, _, _, ⟨_, middle, _, rfl⟩, short, _⟩, _⟩
  · exact done
  · exact absurd (roomy_stackFrame layout middle declaration) short

theorem compile_ne_internal (program : Program) (options : Options) (error : LowerError) :
    compile program options ≠ .error (.internal error) := by
  intro failed
  unfold compile at failed
  cases checked : WordSize.check options.wordSize with
  | error invalid =>
      rw [checked] at failed
      cases failed
  | ok wordSize =>
      rw [checked] at failed
      cases resolves : resolve program { limit := options.errorLimit } with
      | mk outcome queue =>
          simp only [Except.mapError, bind, Except.bind, resolves] at failed
          cases outcome with
          | error => cases failed
          | ok resolved =>
              have accepted : (resolve program { limit := options.errorLimit }).1 =
                  .ok resolved := by
                rw [resolves]
              obtain ⟨wellScoped, rfl⟩ := wellScoped_of_resolve accepted
              obtain ⟨fragments, final, done⟩ := lowerProgram_stack_ok wellScoped
                (StackLayout.reserved wordSize {}) (Supply.afterTemp (Supply.afterTemp {}))
              simp only [lowerOnStack_of_run done] at failed
              cases failed

theorem lowerProgram_outcome (program : Program) :
    (∀ queue resolved, (resolve program queue).1 = .ok resolved →
      ∀ (maker : FrameMaker F) (supply : Supply),
      let functions := resolved.functions
      let start := mainContext maker supply
      let begun := afterMainFrame maker supply
      ((∃ fragments final, (lowerProgram maker resolved).run supply = .ok fragments final) ↔
        AllRoomy functions maker start begun program.statements) ∧
      (¬AllRoomy functions maker start begun program.statements →
        ∃ error final, StopsAtShortFrame functions maker start begun program.statements error ∧
          (lowerProgram maker resolved).run supply = .error error final) ∧
      ∀ error final, (lowerProgram maker resolved).run supply = .error error final →
        ∃ function index, error = .missingFormal function index) ∧
    ∀ options error, compile program options ≠ .error (.internal error) := by
  refine ⟨fun queue resolved accepted maker supply => ?_, compile_ne_internal program⟩
  obtain ⟨wellScoped, rfl⟩ := wellScoped_of_resolve accepted
  intro functions start begun
  refine ⟨?_, ?_, ?_⟩
  all_goals
    rcases lowerProgram_of_wellScoped wellScoped maker supply with
      ⟨roomy, fragments, final, done⟩ | ⟨error, final, stops, failed⟩
  · exact ⟨fun _ => roomy, fun _ => ⟨fragments, final, done⟩⟩
  · refine ⟨?_, fun roomy => absurd roomy (not_allRoomy_of_stops stops)⟩
    rintro ⟨_, _, done⟩
    rw [failed] at done
    cases done
  · exact fun short => absurd roomy short
  · exact fun _ => ⟨error, final, stops, failed⟩
  · intro error final' failed
    rw [done] at failed
    cases failed
  · intro error' final' failed'
    rw [failed] at failed'
    cases failed'
    obtain ⟨_, declaration, _, frame, _, _, _, _, rfl⟩ := stops
    exact ⟨_, _, rfl⟩

def identityFunction : Declaration where
  name := "f"
  returnType := .integer
  params := [{ type := .integer, name := "a" }]
  body := []
  result := .ident "a"

def oneCall : Program where
  statements := [.assign { name := "x", value := .literal 3 }, .declare identityFunction]
  print := { exp := .call "f" [.ident "x"] }

theorem lowerProgram_outcome_oneCall :
    let maker := TailoredFrame.maker (StackLayout.reserved ⟨8, by decide, by decide⟩ {})
      { omitsLastFormal := true }
    (resolve oneCall {}).1 = .ok (resolution oneCall) ∧
      ∃ error final,
        StopsAtShortFrame (resolution oneCall).functions maker (mainContext maker {})
          (afterMainFrame maker {}) oneCall.statements error ∧
        (lowerProgram maker (resolution oneCall)).run {} = .error error final := by
  intro maker
  have accepted : (resolve oneCall {}).1 = .ok (resolution oneCall) := rfl
  refine ⟨accepted, ((lowerProgram_outcome oneCall).1 {} _ accepted maker {}).2.1 ?_⟩
  intro roomy
  obtain ⟨frame, ⟨_, middle, _, rfl⟩, enough⟩ := roomy
    [.assign { name := "x", value := .literal 3 }] identityFunction [] rfl
  have lacking : (Frame.formals (frameFor maker middle identityFunction)).length = 0 := rfl
  rw [Roomy, lacking] at enough
  exact absurd enough (by decide)

end TreeCompiler.Lower
