import TreeCompiler.Proofs.CodeTemps
import TreeCompiler.Proofs.LabelDiscipline

set_option autoImplicit false

namespace TreeCompiler

open Code Source Resolve

namespace Lower

def Scope.Reads (scope : Scope) (known : Temp → Prop) (name : String) : Prop :=
  ∀ exp, scope.value? name = some exp → exp.Confined known 0 0

variable {scope : Scope} {known : Temp → Prop}

mutual

theorem LowersTo.confined {expr : Expr} {supply final : Supply} {exp : Exp}
    (lowered : LowersTo scope expr supply exp final)
    (below : AllBelow known supply.temps)
    (reads : ∀ name ∈ expr.identifiers, scope.Reads known name) :
    exp.Confined known supply.temps final.temps := by
  cases lowered with
  | literal => exact .const _
  | ident bound => exact (reads _ List.mem_cons_self _ bound).moved supply.temps
  | arithmetic _ leftLowered rightLowered =>
      simp only [Expr.identifiers, List.forall_mem_append] at reads
      have atLeft := leftLowered.temps_le
      have left := leftLowered.confined below reads.1
      have right := rightLowered.confined (below.raise atLeft) reads.2
      exact .binop below left right atLeft rightLowered.temps_le _
  | comparison leftLowered rightLowered =>
      simp only [Expr.identifiers, List.forall_mem_append] at reads
      have atLeft := leftLowered.temps_le
      have left := leftLowered.confined below reads.1
      have right := rightLowered.confined (below.raise atLeft) reads.2
      exact .comparison below left right atLeft rightLowered.temps_le
  | negation operandLowered =>
      have operand := operandLowered.confined below reads
      exact Exp.Confined.binop below (.const _) operand (le_refl _) operandLowered.temps_le _
  | conditional guardLowered thenLowered elseLowered =>
      simp only [Expr.identifiers, List.forall_mem_append] at reads
      have atGuard := guardLowered.temps_le
      have atThen := thenLowered.temps_le
      -- The temporary of the result is drawn first, so the parts lie above it.
      have belowGuard : AllBelow known supply.afterJoints.afterTemp.temps :=
        below.raise (Nat.le_succ _)
      have belowThen := belowGuard.raise atGuard
      have guard := guardLowered.confined belowGuard reads.1.1
      have thenPart := thenLowered.confined belowThen reads.1.2
      have elsePart := elseLowered.confined (belowThen.raise atThen) reads.2
      exact .conditional below guard thenPart elsePart atGuard atThen elseLowered.temps_le _
  | call _ argsLowered => exact .call (argsLowered.confined below reads) _

theorem LowersAllTo.confined {exprs : List Expr} {supply final : Supply} {exps : List Exp}
    (lowered : LowersAllTo scope exprs supply exps final)
    (below : AllBelow known supply.temps)
    (reads : ∀ name ∈ Expr.identifiersOfAll exprs, scope.Reads known name) :
    Exp.AllConfined known supply.temps final.temps exps := by
  cases lowered with
  | nil => exact .nil
  | cons firstLowered restLowered =>
      simp only [Expr.identifiersOfAll, List.forall_mem_append] at reads
      have atFirst := firstLowered.temps_le
      have first := firstLowered.confined below reads.1
      have rest := restLowered.confined (below.raise atFirst) reads.2
      exact .cons below first rest atFirst (Supply.temps_mono restLowered.supply_le)

end

variable {functions : FunctionTable} {layout : StackLayout} {context last : Context StackFrame}
  {supply final : Supply} {names : List String}

theorem Scope.Reads.mono {others : Temp → Prop} {name : String} (reads : scope.Reads known name)
    (still : ∀ temp, known temp → others temp) : scope.Reads others name := by
  intro exp bound
  have before := reads exp bound
  exact before.mono (fun temp isKnown => .inl (still temp isKnown)) (le_refl _) (le_refl _)

theorem reads_bindLocal {name other : String} {temp : Temp} (held : known temp)
    (reads : other ≠ name → (context.scope functions).Reads known other) :
    ((context.bindLocal name (.inReg temp)).scope functions).Reads known other := by
  intro exp bound
  simp only [Context.scope, Context.value?_bindLocal] at bound
  split at bound
  next =>
    cases bound
    simp [Exp.confined_iff, Node.Confined, Node.temp?, Node.assigned?, Node.Independent, held]
  next differs => exact reads differs exp bound

theorem reads_bindConstant {name other : String} {label : Label}
    (reads : other ≠ name → (context.scope functions).Reads known other) :
    ((context.bindConstant name (.mem (.name label))).scope functions).Reads known other := by
  intro exp bound
  simp only [Context.scope, Context.value?_bindConstant] at bound
  split at bound
  next =>
    cases bound
    simp [Exp.confined_iff, Node.Confined, Node.temp?, Node.assigned?, Node.Independent]
  next differs => exact reads differs exp bound

theorem AssignsTo.confined {start : Nat} {assigns : List Assign} {statements : List Stm}
    (lowered : AssignsTo functions context assigns supply last statements final)
    (below : AllBelow known start) (atStart : start ≤ supply.temps)
    (bound : BoundInOrder names assigns)
    (reads : ∀ name ∈ names,
      (context.scope functions).Reads (KnownUpTo known start supply.temps) name) :
    (∀ statement ∈ statements, statement.Confined known start final.temps) ∧
      ∀ name ∈ names ++ assigns.map Assign.name,
        (last.scope functions).Reads (KnownUpTo known start final.temps) name := by
  -- What is known grows by the temporaries of each assignment, the start of the range stays.
  induction lowered generalizing names with
  | nil => simpa using reads
  | @cons context assign rest supply exp middle last statements final valueLowered restLowered ih =>
      rw [boundInOrder_cons] at bound
      have atMiddle := valueLowered.temps_le
      have atFinal : middle.temps + 1 ≤ final.temps := Supply.temps_mono restLowered.supply_le
      have value := valueLowered.confined (below.upTo atStart)
        fun name occurs => reads name (bound.1 name occurs)
      have moved : (Stm.move (.temp middle.nextTemp) exp).Confined known start (middle.temps + 1) :=
        (Stm.Confined.move (below.upTo atStart) value atMiddle).absorb atStart (by omega)
      have own : Within start (middle.temps + 1) middle.nextTemp := by
        simp only [Within, Supply.nextTemp]
        omega
      have nextReads : ∀ name ∈ assign.name :: names,
          ((context.bindLocal assign.name (.inReg middle.nextTemp)).scope functions).Reads
            (KnownUpTo known start (middle.temps + 1)) name := by
        intro name member
        apply reads_bindLocal (.inr own)
        intro differs
        have before := reads name ((List.mem_cons.mp member).resolve_left differs)
        exact before.mono fun temp isKnown => isKnown.raise (by omega)
      obtain ⟨restConfined, lastReads⟩ :=
        ih (show start ≤ middle.temps + 1 by omega) bound.2 nextReads
      refine ⟨List.forall_mem_cons.mpr ⟨moved.widen (le_refl start) atFinal, restConfined⟩, ?_⟩
      exact fun name member => lastReads name (mem_names_cons.mp member)

theorem confined_formal {label : Label} {count : Nat} {access : Access}
    (member : access ∈ (layout.frame label count).formals) :
    (access.exp (.temp layout.framePointer)).Confined (· = layout.framePointer) 0 0 := by
  obtain ⟨index, _, rfl⟩ := List.mem_map.mp member
  simp [Access.exp, Exp.confined_iff, Node.Confined, Node.temp?, Node.assigned?, Node.Independent]

-- Parameters hide whatever the procedure around the declaration binds to their names.
theorem reads_params {function : String} {params : List Param} {label : Label} {count : Nat}
    {formals : Bindings Access} (outer : Bindings Access)
    (bound : bindFormals function 0 .empty params (layout.frame label count).formals = .ok formals)
    {name : String} (isParam : name ∈ params.map Param.name) :
    (Context.scope { frame := layout.frame label count, locals := formals.overlay outer }
      functions).Reads (· = layout.framePointer) name := by
  intro exp standsFor
  obtain ⟨access, isFormal, found⟩ := exists_formal bound isParam
  simp only [Context.scope, Context.value?, Bindings.get?_empty, Option.none_or,
    Bindings.get?_overlay, found, Option.some_or, Option.map_some, Option.some.injEq] at standsFor
  rw [← standsFor]
  exact confined_formal isFormal

end Lower

def StackLayout.Shares (layout : StackLayout) (temp : Temp) : Prop :=
  temp = layout.framePointer ∨ temp = layout.returnValue

theorem StackLayout.DrawnBefore.allBelow {layout : StackLayout} {supply : Supply}
    (before : layout.DrawnBefore supply) : AllBelow layout.Shares supply.temps
  | _, .inl rfl => Nat.lt_trans before.pointer before.value
  | _, .inr rfl => before.value

namespace Lower

variable {known own : Temp → Prop} {functions : FunctionTable} {layout : StackLayout}
  {context last : Context StackFrame} {supply final : Supply}

structure ReturnsAtEnd (layout : StackLayout) (body : Stm) : Prop where
  once : body.temps.count layout.returnValue = 1
  ends : ∃ before source, body.linear = before ++ [.move (.temp layout.returnValue) source]

structure FunctionTemps (layout : StackLayout) (low high : Nat) (body : Stm) : Prop where
  looks : ∀ temp ∈ body.temps, KnownUpTo layout.Shares low high temp
  pointer : layout.framePointer ∉ body.assigned
  returns : ReturnsAtEnd layout body
  independent : body.Every Node.Independent

theorem FunctionTemps.widen {low high lower higher : Nat} {body : Stm}
    (temps : FunctionTemps layout low high body) (atLow : lower ≤ low) (atHigh : high ≤ higher) :
    FunctionTemps layout lower higher body := by
  refine ⟨fun temp occurs => ?_, temps.pointer, temps.returns, temps.independent⟩
  refine (temps.looks temp occurs).imp_right fun within => ?_
  simp only [Within] at *
  omega

theorem functionTemps_block {low high : Nat} {statements : List Stm} {exp : Exp}
    (shared : AllBelow layout.Shares low) (distinct : layout.framePointer ≠ layout.returnValue)
    (body : ∀ statement ∈ statements, statement.Confined (· = layout.framePointer) low high)
    (result : exp.Confined (· = layout.framePointer) low high) :
    FunctionTemps layout low high
      (Stm.block (statements ++ [.move (.temp layout.returnValue) exp])) := by
  have outside {temp : Temp} (isShared : layout.Shares temp) : ¬Within low high temp :=
    fun within => shared.not_known within.1 isShared
  have valueOutside := outside (.inr rfl)
  have clearResult : layout.returnValue ∉ exp.temps ∧ layout.returnValue ∉ exp.assigned :=
    result.clear distinct.symm valueOutside
  have clearBody : layout.returnValue ∉ statements.flatMap Stm.temps := by
    intro occurs
    obtain ⟨statement, member, occurs⟩ := List.mem_flatMap.mp occurs
    exact ((body statement member).clear distinct.symm valueOutside).1 occurs
  constructor
  case looks =>
    intro temp occurs
    simp only [Stm.temps_block, List.flatMap_append, List.flatMap_singleton, Stm.temps_move_temp,
      List.mem_append, List.mem_flatMap, List.mem_cons] at occurs
    rcases occurs with ⟨statement, member, occurs⟩ | rfl | occurs
    · exact ((body statement member).looks occurs).imp_left .inl
    · exact .inl (.inr rfl)
    · exact (result.looks occurs).imp_left .inl
  case pointer =>
    intro assigned
    simp only [Stm.assigned_block, List.flatMap_append, List.flatMap_singleton,
      Stm.assigned_move_temp, List.mem_append, List.mem_flatMap, List.mem_cons] at assigned
    rcases assigned with ⟨statement, member, assigned⟩ | same | assigned
    · exact outside (.inl rfl) ((body statement member).writes assigned)
    · exact distinct same
    · exact outside (.inl rfl) (result.writes assigned)
  case returns =>
    constructor
    case once =>
      simp [List.count_eq_zero.mpr clearBody, List.count_eq_zero.mpr clearResult.1]
    case ends =>
      have notNop : Stm.move (.temp layout.returnValue) exp ≠ .nop := by simp
      exact ⟨_, exp, Stm.linear_block_concat rfl notNop statements⟩
  case independent =>
    apply Stm.independent_block
    intro statement member
    rcases List.mem_append.mp member with inBody | isLast
    · exact (body statement inBody).independent
    · rw [List.mem_singleton.mp isLast]
      exact Stm.independent_move clearResult result.independent

theorem DeclaresTo.functionTemps {outer : Bindings Access} {declaration : Declaration}
    {procedure : Procedure StackFrame}
    (lowered : DeclaresTo functions layout outer declaration supply procedure final)
    (wellScoped : declaration.WellScoped) (shared : layout.DrawnBefore supply) :
    FunctionTemps layout supply.temps final.temps procedure.body := by
  obtain ⟨bound, bodyLowered, resultLowered⟩ := lowered
  have atBody := Supply.temps_mono bodyLowered.supply_le
  have atResult := resultLowered.temps_le
  have below : AllBelow (· = layout.framePointer) supply.temps :=
    fun temp isPointer => shared.allBelow temp (.inl isPointer)
  obtain ⟨body, reads⟩ := bodyLowered.confined below (le_refl _) wellScoped.body
    fun name isParam => (reads_params outer bound isParam).mono fun _ => .inl
  have result := resultLowered.confined (below.upTo atBody) fun name occurs =>
    reads name (List.mem_append.mpr (wellScoped.result name occurs))
  exact functionTemps_block shared.allBelow shared.distinct
    (fun statement member => (body statement member).widen (le_refl _) atResult)
    (result.absorb atBody atResult)

def ShareLayoutOnly (layout : StackLayout) (one other : Procedure StackFrame) : Prop :=
  ∀ temp ∈ one.body.temps, temp ∈ other.body.temps → layout.Shares temp

/--
The temporaries drawn for a list of statements are divided among the functions declared by it and
the procedure around them, which owns those it knew before and those its own statements draw.
-/
structure Division (layout : StackLayout) (known own : Temp → Prop) (low high : Nat)
    (statements : List Stm) (fragments : List (Fragment StackFrame)) : Prop where
  keeps : ∀ temp, known temp → own temp
  within : ∀ temp, own temp → KnownUpTo known low high temp
  confined : ∀ statement ∈ statements, statement.Confined known low high
  owned : ∀ statement ∈ statements, ∀ temp ∈ statement.temps, own temp
  functions : ∀ procedure ∈ procedures fragments, FunctionTemps layout low high procedure.body
  foreign : ∀ procedure ∈ procedures fragments, ∀ temp ∈ procedure.body.temps,
    own temp → layout.Shares temp
  apart : (procedures fragments).Pairwise (ShareLayoutOnly layout)

namespace Division

variable {low middle high : Nat} {statements : List Stm} {fragments : List (Fragment StackFrame)}

theorem nil : Division layout known known low low [] [] where
  keeps _ isKnown := isKnown
  within _ isKnown := .inl isKnown
  confined := nofun
  owned := nofun
  functions := nofun
  foreign := nofun
  apart := .nil

theorem nop (division : Division layout known own low high statements fragments) :
    Division layout known own low high (.nop :: statements) fragments where
  keeps := division.keeps
  within := division.within
  confined := by
    refine List.forall_mem_cons.mpr ⟨?_, division.confined⟩
    simp [Stm.Confined, Confined, Stm.nodes, Node.Confined, Node.temp?, Node.assigned?,
      Node.Independent]
  owned := List.forall_mem_cons.mpr ⟨nofun, division.owned⟩
  functions := division.functions
  foreign := division.foreign
  apart := division.apart

theorem data (word : StaticData)
    (division : Division layout known own low high statements fragments) :
    Division layout known own low high statements (.data word :: fragments) :=
  ⟨division.keeps, division.within, division.confined, division.owned, division.functions,
    division.foreign, division.apart⟩

theorem move {statement : Stm} (atLow : low ≤ middle) (atMiddle : middle ≤ high)
    (confined : statement.Confined known low middle)
    (division : Division layout (KnownUpTo known low middle) own middle high statements fragments) :
    Division layout known own low high (statement :: statements) fragments where
  keeps temp isKnown := division.keeps temp (.inl isKnown)
  within temp isOwn := by
    rcases division.within temp isOwn with isKnown | drawn
    · exact isKnown.raise atMiddle
    · exact .inr ⟨Nat.le_trans atLow drawn.1, drawn.2⟩
  confined := List.forall_mem_cons.mpr ⟨confined.widen (le_refl low) atMiddle,
    fun statement member => (division.confined statement member).absorb atLow atMiddle⟩
  owned := List.forall_mem_cons.mpr ⟨fun temp occurs => division.keeps temp (confined.looks occurs),
    division.owned⟩
  functions procedure member := (division.functions procedure member).widen atLow (le_refl high)
  foreign := division.foreign
  apart := division.apart

theorem declare {procedure : Procedure StackFrame} (below : AllBelow known low)
    (atLow : low ≤ middle) (atMiddle : middle ≤ high)
    (function : FunctionTemps layout low middle procedure.body)
    (division : Division layout known own middle high statements fragments) :
    Division layout known own low high statements (.procedure procedure :: fragments) where
  keeps := division.keeps
  within temp isOwn := (division.within temp isOwn).imp_right fun drawn =>
    ⟨Nat.le_trans atLow drawn.1, drawn.2⟩
  confined statement member := (division.confined statement member).widen atLow (le_refl high)
  owned := division.owned
  functions := List.forall_mem_cons.mpr ⟨function.widen (le_refl low) atMiddle,
    fun other member => (division.functions other member).widen atLow (le_refl high)⟩
  foreign := by
    refine List.forall_mem_cons.mpr ⟨fun temp occurs isOwn => ?_, division.foreign⟩
    refine (function.looks temp occurs).resolve_right fun drawn => ?_
    rcases division.within temp isOwn with isKnown | later
    · exact below.not_known drawn.1 isKnown
    · exact absurd later.1 (Nat.not_le.mpr drawn.2)
  apart := by
    refine List.pairwise_cons.mpr ⟨fun other member temp occurs occursThere => ?_, division.apart⟩
    rcases (division.functions other member).looks temp occursThere with isShared | later
    · exact isShared
    · exact (function.looks temp occurs).resolve_right fun drawn =>
        absurd later.1 (Nat.not_le.mpr drawn.2)

end Division

theorem StatementsTo.division {source : List Stmt} {statements : List Stm}
    {fragments : List (Fragment StackFrame)}
    (lowered : StatementsTo functions layout context source supply last statements fragments final)
    (shared : layout.DrawnBefore supply) (below : AllBelow known supply.temps)
    (wellScoped : ∀ declaration ∈ source.filterMap Stmt.declaration?, declaration.WellScoped)
    (reads : ∀ name, (context.scope functions).Reads known name) :
    ∃ own, Division layout known own supply.temps final.temps statements fragments ∧
      ∀ name, (last.scope functions).Reads own name := by
  induction lowered generalizing known with
  | nil => exact ⟨known, .nil, reads⟩
  | literal _ _ ih =>
      obtain ⟨own, division, lastReads⟩ := ih (shared.later (Supply.le_afterLabel _)) below
        wellScoped fun name => reads_bindConstant fun _ => reads name
      exact ⟨own, (division.data _).nop, lastReads⟩
  | @assign context assign rest supply exp middle _ _ _ final _ valueLowered restLowered ih =>
      have atMiddle := valueLowered.temps_le
      have atFinal : middle.temps + 1 ≤ final.temps := Supply.temps_mono restLowered.supply_le
      have value := valueLowered.confined below fun name _ => reads name
      have moved := Stm.Confined.move below value atMiddle
      have drawn : Within supply.temps (middle.temps + 1) middle.nextTemp :=
        ⟨atMiddle, Nat.lt_succ_self _⟩
      obtain ⟨own, division, lastReads⟩ :=
        ih (shared.later (valueLowered.supply_le.trans (Supply.le_afterTemp _)))
          (below.upTo (Nat.le_succ_of_le atMiddle)) wellScoped
          fun name => reads_bindLocal (.inr drawn) fun _ => (reads name).mono fun _ => .inl
      exact ⟨own, division.move (Nat.le_succ_of_le atMiddle) atFinal moved, lastReads⟩
  | declare declared restLowered ih =>
      obtain ⟨first, others⟩ := List.forall_mem_cons.mp wellScoped
      have atMiddle := declared.supply_le
      obtain ⟨own, division, lastReads⟩ := ih (shared.later atMiddle)
        (below.raise (Supply.temps_mono atMiddle)) others reads
      -- The function is lowered in between, and its range stays out of what the procedure owns.
      have function := declared.functionTemps first shared
      exact ⟨own, (division.declare below (Supply.temps_mono atMiddle)
        (Supply.temps_mono restLowered.supply_le) function).nop, lastReads⟩

/--
The temporaries of a program do not interfere. No procedure writes the frame pointer; the return
value is mentioned once in each function, at its end, and not in the main procedure; any other
temporary belongs to one procedure; and no operand writes what occurs in another.
-/
structure TempsApart (layout : StackLayout) (functions : List (Procedure StackFrame))
    (main : Procedure StackFrame) : Prop where
  pointer : ∀ procedure ∈ functions ++ [main], layout.framePointer ∉ procedure.body.assigned
  value : layout.returnValue ∉ main.body.temps
  returns : ∀ procedure ∈ functions, ReturnsAtEnd layout procedure.body
  owned : (functions ++ [main]).Pairwise (ShareLayoutOnly layout)
  independent : ∀ procedure ∈ functions ++ [main], ∀ node ∈ procedure.body.nodes, node.Independent

theorem Division.tempsApart {low middle high : Nat} {statements : List Stm}
    {fragments : List (Fragment StackFrame)} {exp : Exp} {main : Procedure StackFrame}
    (division : Division layout (fun _ => False) own low middle statements fragments)
    (shared : AllBelow layout.Shares low) (atLow : low ≤ middle)
    (print : exp.Confined own middle high)
    (code : main.body = Stm.block (statements ++ [.exp (.call Label.print [exp])])) :
    TempsApart layout (procedures fragments) main := by
  have drawn {temp : Temp} (isOwn : own temp) : Within low middle temp :=
    (division.within temp isOwn).resolve_left id
  have looks (temp : Temp) (occurs : temp ∈ main.body.temps) :
      own temp ∨ Within middle high temp := by
    simp only [code, Stm.temps_block, List.flatMap_append, List.flatMap_singleton,
      Stm.temps_exp_call, List.mem_append, List.mem_flatMap] at occurs
    rcases occurs with ⟨statement, member, occurs⟩ | occurs
    · exact .inl (division.owned statement member temp occurs)
    · exact print.looks occurs
  have writes (temp : Temp) (assigned : temp ∈ main.body.assigned) : low ≤ temp.index := by
    simp only [code, Stm.assigned_block, List.flatMap_append, List.flatMap_singleton,
      Stm.assigned_exp_call, List.mem_append, List.mem_flatMap] at assigned
    rcases assigned with ⟨statement, member, assigned⟩ | assigned
    · exact ((division.confined statement member).writes assigned).1
    · exact Nat.le_trans atLow (print.writes assigned).1
  constructor
  case pointer =>
    refine List.forall_mem_append.mpr ⟨fun procedure member =>
      (division.functions procedure member).pointer, List.forall_mem_singleton.mpr ?_⟩
    exact fun assigned => shared.not_known (writes _ assigned) (.inl rfl)
  case value =>
    intro occurs
    rcases looks _ occurs with isOwn | later
    · exact shared.not_known (drawn isOwn).1 (.inr rfl)
    · exact shared.not_known (Nat.le_trans atLow later.1) (.inr rfl)
  case returns => exact fun procedure member => (division.functions procedure member).returns
  case owned =>
    refine List.pairwise_append.mpr ⟨division.apart, List.pairwise_singleton _ _, ?_⟩
    intro procedure member other isMain temp occurs occursInMain
    rw [List.mem_singleton.mp isMain] at occursInMain
    rcases looks temp occursInMain with isOwn | later
    · exact division.foreign procedure member temp occurs isOwn
    · exact ((division.functions procedure member).looks temp occurs).resolve_right fun earlier =>
        absurd later.1 (Nat.not_le.mpr earlier.2)
  case independent =>
    refine List.forall_mem_append.mpr ⟨fun procedure member =>
      (division.functions procedure member).independent, List.forall_mem_singleton.mpr ?_⟩
    rw [code]
    refine Stm.independent_block (List.forall_mem_append.mpr
      ⟨fun statement member => (division.confined statement member).independent,
        List.forall_mem_singleton.mpr ?_⟩)
    have value : exp.Every Node.Independent := print.independent
    simp [Node.Independent, value]

theorem ProgramTo.tempsApart {resolved : Resolved} {fragments : List (Fragment StackFrame)}
    (lowered : ProgramTo layout resolved supply fragments final)
    (wellScoped : resolved.program.WellScoped) (shared : layout.DrawnBefore supply) :
    ∃ functions main, procedures fragments = functions ++ [main] ∧
      functions.map (fun procedure => Frame.label procedure.frame) =
        resolved.program.functionNames.map Label.function ∧
      Frame.label main.frame = Label.main ∧ TempsApart layout functions main := by
  obtain @⟨_, statements, fragments, middle, exp, _, statementsLowered, printLowered⟩ := lowered
  have nothing : AllBelow (fun _ => False) supply.temps := nofun
  obtain ⟨own, division, reads⟩ := statementsLowered.division shared nothing
    wellScoped.declarations (by simp [Scope.Reads, Context.scope, Context.value?])
  have atMiddle := Supply.temps_mono statementsLowered.supply_le
  have below : AllBelow own middle.temps := fun temp isOwn =>
    ((division.within temp isOwn).resolve_left id).2
  have print := printLowered.confined below fun name _ => reads name
  refine ⟨procedures fragments, _, List.filterMap_append, ?_, rfl,
    division.tempsApart shared.allBelow atMiddle print rfl⟩
  rw [Program.functionNames, List.map_map]
  exact statementsLowered.procedureLabels_eq

theorem lowerProgram_temps_apart {program : Program} {queue : Diagnostic.Queue}
    {resolved : Resolved} (accepted : (resolve program queue).1 = .ok resolved)
    {wordSize : WordSize} {earlier later : Supply}
    (reserves : (StackLayout.reserve wordSize).run earlier = (layout, later))
    (drawn : later ≤ supply) :
    ∃ fragments final functions main,
      (lowerProgram layout.maker resolved).run supply = .ok fragments final ∧
      procedures fragments = functions ++ [main] ∧
      functions.map (fun procedure => Frame.label procedure.frame) =
        program.functionNames.map Label.function ∧
      Frame.label main.frame = Label.main ∧ TempsApart layout functions main := by
  obtain ⟨wellScoped, rfl⟩ := wellScoped_of_resolve accepted
  obtain ⟨fragments, final, done⟩ := lowerProgram_stack_ok wellScoped layout supply
  obtain ⟨functions, main, divided⟩ := (programTo_of_run done).tempsApart wellScoped
    (StackLayout.drawnBefore_of_reserve reserves drawn)
  exact ⟨fragments, final, functions, main, done, divided⟩

def choosing : Declaration where
  name := "f"
  returnType := .integer
  params := [{ type := .integer, name := "a" }]
  body := [{ name := "x", value := .binary .lessThan (.ident "a") (.literal 2) }]
  result := .conditional (.ident "x") (.ident "a") (.binary .lessThan (.ident "x") (.ident "a"))

def sharedNames : Program where
  -- Main and the function have a variable of the same name.
  statements := [
    .assign { name := "x", value := .binary .lessThan (.literal 1) (.literal 2) },
    .declare choosing,
    .assign { name := "y", value := .call "f" [.binary .lessThan (.ident "x") (.literal 2)] }]
  print := {
    exp := .conditional (.ident "x") (.binary .lessThan (.ident "y") (.ident "x")) (.ident "y") }

theorem lowerProgram_temps_apart_sharedNames :
    let wordSize : WordSize := ⟨8, by decide, by decide⟩
    let (layout, supply) := (StackLayout.reserve wordSize).run {}
    (resolve sharedNames {}).1 = .ok (resolution sharedNames) ∧
      ∃ fragments final functions main,
        (lowerProgram layout.maker (resolution sharedNames)).run supply = .ok fragments final ∧
        procedures fragments = functions ++ [main] ∧
        functions.map (fun procedure => Frame.label procedure.frame) = [Label.function "f"] ∧
        Frame.label main.frame = Label.main ∧ TempsApart layout functions main := by
  intro wordSize
  have accepted : (resolve sharedNames {}).1 = .ok (resolution sharedNames) := rfl
  exact ⟨accepted, lowerProgram_temps_apart accepted (StackLayout.run_reserve wordSize {})
    (le_refl _)⟩

end Lower

end TreeCompiler
