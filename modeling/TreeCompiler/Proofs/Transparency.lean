import TreeCompiler.Proofs.CodeRenaming
import TreeCompiler.Proofs.NameDraws
import TreeCompiler.Proofs.TempDiscipline

set_option autoImplicit false

namespace TreeCompiler

open Code Source Resolve

namespace Code

structure Renaming.Carries (naming : Renaming) (supply supply' drawn : Supply) : Prop where
  temp : ∀ index < drawn.temps, naming.temp ⟨supply.temps + index⟩ = ⟨supply'.temps + index⟩
  label : ∀ index < drawn.labels,
    naming.label (Label.numbered (supply.labels + index)) =
      Label.numbered (supply'.labels + index)

namespace Renaming.Carries

variable {naming : Renaming} {supply supply' drawn one other : Supply}

theorem left (carries : naming.Carries supply supply' (one + other)) :
    naming.Carries supply supply' one where
  temp index bound := carries.temp index (Nat.lt_add_right _ bound)
  label index bound := carries.label index (Nat.lt_add_right _ bound)

theorem right (carries : naming.Carries supply supply' (one + other)) :
    naming.Carries (supply + one) (supply' + one) other where
  temp index bound := by
    simpa [Nat.add_assoc] using carries.temp (one.temps + index) (Nat.add_lt_add_left bound _)
  label index bound := by
    simpa [Nat.add_assoc] using carries.label (one.labels + index) (Nat.add_lt_add_left bound _)

theorem nextTemp (carries : naming.Carries supply supply' { temps := 1 }) :
    naming.temp supply.nextTemp = supply'.nextTemp :=
  carries.temp 0 Nat.one_pos

theorem nextLabel (carries : naming.Carries supply supply' { labels := 1 }) :
    naming.label supply.nextLabel = supply'.nextLabel :=
  carries.label 0 Nat.one_pos

theorem joints (carries : naming.Carries supply supply' { temps := 1, labels := 3 }) :
    naming.temp supply.nextTemp = supply'.nextTemp ∧
      naming.label supply.nextJoints.thenLabel = supply'.nextJoints.thenLabel ∧
      naming.label supply.nextJoints.elseLabel = supply'.nextJoints.elseLabel ∧
      naming.label supply.nextJoints.joinLabel = supply'.nextJoints.joinLabel :=
  ⟨carries.temp 0 (by decide), carries.label 0 (by decide), carries.label 1 (by decide),
    carries.label 2 (by decide)⟩

end Renaming.Carries

theorem Renaming.Sends.carries {naming : Renaming} {supply supply' drawn : Supply}
    {temps labels : List (Nat × Nat)}
    (sends : naming.Sends (alongside supply.temps supply'.temps drawn.temps ++ temps)
      (alongside supply.labels supply'.labels drawn.labels ++ labels)) :
    naming.Carries supply supply' drawn ∧ naming.Sends temps labels := by
  obtain ⟨sendsTemps, sendsLabels⟩ := sends
  rw [List.forall_mem_append] at sendsTemps sendsLabels
  refine ⟨⟨fun index bound => ?_, fun index bound => ?_⟩, sendsTemps.2, sendsLabels.2⟩
  · exact sendsTemps.1 (supply.temps + index, supply'.temps + index) (mem_alongside bound)
  · exact sendsLabels.1 (supply.labels + index, supply'.labels + index) (mem_alongside bound)

/--
The property holds of every renaming that sends certain names drawn from one supply to certain ones
drawn from the other. Both lists rise, so there is such a renaming.
-/
def HoldsByNames (supply supply' : Supply) (property : Renaming → Prop) : Prop :=
  ∃ temps labels, Ascends supply.temps supply'.temps temps ∧
    Ascends supply.labels supply'.labels labels ∧
    ∀ naming : Renaming, naming.Sends temps labels → property naming

namespace HoldsByNames

variable {supply supply' begun begun' : Supply} {property consequence : Renaming → Prop}

theorem imp (held : HoldsByNames supply supply' property)
    (implies : ∀ naming, property naming → consequence naming) :
    HoldsByNames supply supply' consequence := by
  obtain ⟨temps, labels, tempsAscend, labelsAscend, holds⟩ := held
  exact ⟨temps, labels, tempsAscend, labelsAscend, fun naming sends =>
    implies naming (holds naming sends)⟩

theorem draw {drawn : Supply} (later : supply ≤ begun) (later' : supply' ≤ begun')
    (held : HoldsByNames (begun + drawn) (begun' + drawn) property) :
    HoldsByNames supply supply' fun naming =>
      naming.Carries begun begun' drawn ∧ property naming := by
  obtain ⟨temps, labels, tempsAscend, labelsAscend, holds⟩ := held
  refine ⟨_, _, tempsAscend.alongside later.1 later'.1, labelsAscend.alongside later.2 later'.2,
    fun naming sends => ?_⟩
  exact ⟨sends.carries.1, holds naming sends.carries.2⟩

theorem of_carries (drawn : Supply) (later : supply ≤ begun) (later' : supply' ≤ begun')
    (holds : ∀ naming : Renaming, naming.Carries begun begun' drawn → property naming) :
    HoldsByNames supply supply' property := by
  have nothing : HoldsByNames (begun + drawn) (begun' + drawn) fun _ => True :=
    ⟨[], [], trivial, trivial, fun _ _ => trivial⟩
  exact (nothing.draw later later').imp fun naming held => holds naming held.1

end HoldsByNames

structure Renaming.Fits (naming : Renaming) (layout layout' : StackLayout) : Prop where
  pointer : naming.temp layout.framePointer = layout'.framePointer
  value : naming.temp layout.returnValue = layout'.returnValue

theorem Renaming.Fits.rename_layout {naming : Renaming} {layout layout' : StackLayout}
    (fits : naming.Fits layout layout') (sameSize : layout'.wordSize = layout.wordSize) :
    layout.rename naming = layout' := by
  rw [StackLayout.rename, fits.pointer, fits.value, ← sameSize]

theorem HoldsByNames.exists_renaming {supply supply' : Supply} {property : Renaming → Prop}
    {layout layout' : StackLayout} (held : HoldsByNames supply supply' property)
    (before : layout.DrawnBefore supply) (before' : layout'.DrawnBefore supply') :
    ∃ naming : Renaming, naming.Fits layout layout' ∧ property naming := by
  obtain ⟨temps, labels, tempsAscend, labelsAscend, holds⟩ := held
  have tempsFrom := tempsAscend.lower (Nat.succ_le_of_lt before.value)
    (Nat.succ_le_of_lt before'.value)
  -- The layout was reserved before anything else was drawn, so its names can go in front.
  have withShared : Ascends 0 0
      ((layout.framePointer.index, layout'.framePointer.index) ::
        (layout.returnValue.index, layout'.returnValue.index) :: temps) :=
    ⟨Nat.zero_le _, Nat.zero_le _, before.pointer, before'.pointer, tempsFrom⟩
  obtain ⟨naming, sends⟩ := Code.exists_renaming withShared
    (labelsAscend.lower (Nat.zero_le _) (Nat.zero_le _))
  obtain ⟨pointer, value, others⟩ :=
    (List.forall_mem_cons.mp sends.temp).imp_right List.forall_mem_cons.mp
  exact ⟨naming, ⟨pointer, value⟩, holds naming ⟨others, sends.label⟩⟩

end Code

namespace Lower

variable {naming : Renaming} {scope scope' : Scope}

mutual

theorem LowersTo.renamed {expr : Expr} {supply supply' final final' : Supply} {exp exp' : Exp}
    (lowered : LowersTo scope expr supply exp final)
    (lowered' : LowersTo scope' expr supply' exp' final')
    (alike : ∀ name ∈ expr.identifiers,
      scope'.value? name = (scope.value? name).map (Exp.rename naming))
    (carries : naming.Carries supply supply' expr.drawn) : exp' = exp.rename naming := by
  cases lowered with
  | literal =>
      cases lowered'
      rw [Exp.rename]
  | ident bound =>
      cases lowered' with
      | ident bound' =>
          have same := alike _ List.mem_cons_self
          rw [bound, bound'] at same
          exact Option.some.inj same
  | arithmetic instructed leftLowered rightLowered =>
      cases lowered' with
      | comparison => cases instructed
      | arithmetic instructed' leftLowered' rightLowered' =>
          cases instructed.symm.trans instructed'
          simp only [Expr.identifiers, List.forall_mem_append] at alike
          rw [drawn_arithmetic instructed] at carries
          obtain rfl := leftLowered.final_eq
          obtain rfl := leftLowered'.final_eq
          rw [Exp.rename, leftLowered.renamed leftLowered' alike.1 carries.left,
            rightLowered.renamed rightLowered' alike.2 carries.right]
  | comparison leftLowered rightLowered =>
      cases lowered' with
      | arithmetic instructed => cases instructed
      | comparison leftLowered' rightLowered' =>
          simp only [Expr.identifiers, List.forall_mem_append] at alike
          rw [Expr.drawn] at carries
          obtain rfl := leftLowered.final_eq
          obtain rfl := leftLowered'.final_eq
          obtain rfl := rightLowered.final_eq
          obtain rfl := rightLowered'.final_eq
          have result := carries.right.right.nextTemp
          rw [leftLowered.renamed leftLowered' alike.1 carries.left,
            rightLowered.renamed rightLowered' alike.2 carries.right.left, Exp.rename, Exp.rename,
            Renaming.rename_comparison, result]
  | negation operandLowered =>
      cases lowered' with
      | negation operandLowered' =>
          rw [Exp.rename, operandLowered.renamed operandLowered' alike carries, Exp.rename]
  | conditional guardLowered thenLowered elseLowered =>
      cases lowered' with
      | conditional guardLowered' thenLowered' elseLowered' =>
          simp only [Expr.identifiers, List.forall_mem_append] at alike
          rw [Expr.drawn] at carries
          obtain rfl := guardLowered.final_eq
          obtain rfl := guardLowered'.final_eq
          obtain rfl := thenLowered.final_eq
          obtain rfl := thenLowered'.final_eq
          obtain ⟨result, joints⟩ := carries.left.joints
          rw [guardLowered.renamed guardLowered' alike.1.1 carries.right.left,
            thenLowered.renamed thenLowered' alike.1.2 carries.right.right.left,
            elseLowered.renamed elseLowered' alike.2 carries.right.right.right]
          simp [Exp.rename, Stm.rename, Renaming.rename_diamond, result, joints]
  | call _ argsLowered =>
      cases lowered' with
      | call _ argsLowered' =>
          rw [Exp.rename, argsLowered.renamed argsLowered' alike carries,
            Renaming.label_function]

theorem LowersAllTo.renamed {exprs : List Expr} {supply supply' final final' : Supply}
    {exps exps' : List Exp} (lowered : LowersAllTo scope exprs supply exps final)
    (lowered' : LowersAllTo scope' exprs supply' exps' final')
    (alike : ∀ name ∈ Expr.identifiersOfAll exprs,
      scope'.value? name = (scope.value? name).map (Exp.rename naming))
    (carries : naming.Carries supply supply' (Expr.drawnForAll exprs)) :
    exps' = Exp.renameAll naming exps := by
  cases lowered with
  | nil =>
      cases lowered'
      rw [Exp.renameAll]
  | cons firstLowered restLowered =>
      cases lowered' with
      | cons firstLowered' restLowered' =>
          simp only [Expr.identifiersOfAll, List.forall_mem_append] at alike
          obtain rfl := firstLowered.final_eq
          obtain rfl := firstLowered'.final_eq
          rw [Exp.renameAll, firstLowered.renamed firstLowered' alike.1 carries.left,
            restLowered.renamed restLowered' alike.2 carries.right]

end

def Context.Alike (naming : Renaming) (names : List String)
    (context context' : Context StackFrame) : Prop :=
  ∀ name ∈ names, context'.value? name = (context.value? name).map (Exp.rename naming)

theorem Context.Alike.bindLocal {names : List String} {context context' : Context StackFrame}
    {temp temp' : Temp} (alike : Context.Alike naming names context context')
    (sent : naming.temp temp = temp') (name : String) :
    Context.Alike naming (name :: names) (context.bindLocal name (.inReg temp))
      (context'.bindLocal name (.inReg temp')) := by
  intro other member
  rw [Context.value?_bindLocal, Context.value?_bindLocal]
  by_cases same : other = name
  · simp [same, Exp.rename, sent]
  · simp [same, alike other ((List.mem_cons.mp member).resolve_left same)]

theorem Context.Alike.bindConstant {names : List String} {context context' : Context StackFrame}
    {label label' : Label} (alike : Context.Alike naming names context context')
    (sent : naming.label label = label') (name : String) :
    Context.Alike naming (name :: names) (context.bindConstant name (.mem (.name label)))
      (context'.bindConstant name (.mem (.name label'))) := by
  intro other member
  rw [Context.value?_bindConstant, Context.value?_bindConstant]
  by_cases same : other = name
  · simp [same, Exp.rename, sent]
  · simp [same, alike other ((List.mem_cons.mp member).resolve_left same)]

/--
The part of the lowering that belongs to one procedure: its assignments, those of static values
apart, and the expression at its end. Before each of them the supply may have been used by others.
-/
inductive ThreadTo (functions : FunctionTable) (static? : Assign → Option Int64) (ending : Expr) :
    Context StackFrame → List Assign → Supply → List Stm → List StaticData → Exp → Prop
  | ending {context supply begun exp final} (later : supply ≤ begun)
      (lowered : LowersTo (context.scope functions) ending begun exp final) :
      ThreadTo functions static? ending context [] supply [] [] exp
  | static {context assign value rest supply begun statements data exp}
      (isStatic : static? assign = some value) (later : supply ≤ begun)
      (restLowered : ThreadTo functions static? ending
        (context.bindConstant assign.name (.mem (.name begun.nextLabel)))
        rest begun.afterLabel statements data exp) :
      ThreadTo functions static? ending context (assign :: rest) supply statements
        ({ label := begun.nextLabel, values := [value] } :: data) exp
  | computed {context assign rest supply begun value middle statements data exp}
      (isComputed : static? assign = none) (later : supply ≤ begun)
      (valueLowered : LowersTo (context.scope functions) assign.value begun value middle)
      (restLowered : ThreadTo functions static? ending
        (context.bindLocal assign.name (.inReg middle.nextTemp))
        rest middle.afterTemp statements data exp) :
      ThreadTo functions static? ending context (assign :: rest) supply
        (.move (.temp middle.nextTemp) value :: statements) data exp

section Threads

variable {functions functions' : FunctionTable} {static? : Assign → Option Int64} {ending : Expr}
  {context context' : Context StackFrame} {assigns : List Assign} {supply supply' : Supply}
  {statements statements' : List Stm} {data data' : List StaticData} {exp exp' : Exp}

theorem ThreadTo.earlier {begun : Supply} (later : supply ≤ begun)
    (lowered : ThreadTo functions static? ending context assigns begun statements data exp) :
    ThreadTo functions static? ending context assigns supply statements data exp := by
  cases lowered with
  | ending atBegun lowered => exact .ending (later.trans atBegun) lowered
  | static isStatic atBegun restLowered =>
      exact .static isStatic (later.trans atBegun) restLowered
  | computed isComputed atBegun valueLowered restLowered =>
      exact .computed isComputed (later.trans atBegun) valueLowered restLowered

theorem ThreadTo.renamed {names : List String}
    (lowered : ThreadTo functions static? ending context assigns supply statements data exp)
    (lowered' : ThreadTo functions' static? ending context' assigns supply' statements' data' exp')
    (bound : BoundInOrder names assigns)
    (ends : ∀ name ∈ ending.identifiers, name ∈ names ++ assigns.map Assign.name) :
    HoldsByNames supply supply' fun naming =>
      Context.Alike naming names context context' →
        statements' = statements.map (Stm.rename naming) ∧
        data' = data.map (StaticData.rename naming) ∧ exp' = exp.rename naming := by
  -- The contexts agree under a renaming only, and this is not chosen before the end: each step adds
  -- the names it draws to those that the renaming has to send.
  induction lowered generalizing context' supply' statements' data' names with
  | ending later lowered =>
      cases lowered' with
      | ending later' lowered' =>
          refine .of_carries ending.drawn later later' fun naming carries alike => ?_
          have sameEnd := lowered.renamed lowered' (fun name occurs =>
            alike name (by simpa using ends name occurs)) carries
          exact ⟨rfl, rfl, sameEnd⟩
  | static isStatic later restLowered ih =>
      cases lowered' with
      | computed isComputed => cases isStatic.symm.trans isComputed
      | static isStatic' later' restLowered' =>
          cases isStatic.symm.trans isStatic'
          rw [boundInOrder_cons] at bound
          have rest := ih restLowered' bound.2 fun name occurs =>
            mem_names_cons.mp (ends name occurs)
          rw [← Supply.add_label, ← Supply.add_label] at rest
          refine (HoldsByNames.draw later later' rest).imp ?_
          rintro naming ⟨carries, holds⟩ alike
          have sent := carries.nextLabel
          obtain ⟨sameCode, sameData, sameEnd⟩ := holds (alike.bindConstant sent _)
          refine ⟨sameCode, ?_, sameEnd⟩
          rw [sameData, List.map_cons, StaticData.rename, sent]
  | computed isComputed later valueLowered restLowered ih =>
      cases lowered' with
      | static isStatic => cases isComputed.symm.trans isStatic
      | computed isComputed' later' valueLowered' restLowered' =>
          rw [boundInOrder_cons] at bound
          obtain rfl := valueLowered.final_eq
          obtain rfl := valueLowered'.final_eq
          have rest := ih restLowered' bound.2 fun name occurs =>
            mem_names_cons.mp (ends name occurs)
          rw [← Supply.add_temp, ← Supply.add_temp, Supply.add_assoc, Supply.add_assoc] at rest
          refine (HoldsByNames.draw later later' rest).imp ?_
          rintro naming ⟨carries, holds⟩ alike
          have sent := carries.right.nextTemp
          have sameValue := valueLowered.renamed valueLowered'
            (fun name occurs => alike name (bound.1 name occurs)) carries.left
          obtain ⟨sameCode, sameData, sameEnd⟩ := holds (alike.bindLocal sent _)
          refine ⟨?_, sameData, sameEnd⟩
          rw [sameCode, sameValue, List.map_cons, Stm.rename, Exp.rename, sent]

theorem AssignsTo.threadTo {last : Context StackFrame} {middle final : Supply}
    (lowered : AssignsTo functions context assigns supply last statements middle)
    (endLowered : LowersTo (last.scope functions) ending middle exp final) :
    ThreadTo functions (fun _ => none) ending context assigns supply statements [] exp := by
  induction lowered with
  | nil => exact .ending (le_refl _) endLowered
  | cons valueLowered _ ih => exact .computed rfl (le_refl _) valueLowered (ih endLowered)

theorem StatementsTo.threadTo {layout : StackLayout} {source : List Stmt}
    {fragments : List (Fragment StackFrame)} {last : Context StackFrame} {middle final : Supply}
    (lowered : StatementsTo functions layout context source supply last statements fragments middle)
    (endLowered : LowersTo (last.scope functions) ending middle exp final) :
    ThreadTo functions (fun assign => assign.value.literal?) ending context
      (source.filterMap Stmt.assign?) supply (statements.filter fun statement => !statement.isNop)
      (fragments.filterMap Fragment.data?) exp := by
  induction lowered with
  | nil => exact .ending (le_refl _) endLowered
  | literal literal _ ih => exact .static literal (le_refl _) (ih endLowered)
  | assign computed valueLowered _ ih =>
      exact .computed computed (le_refl _) valueLowered (ih endLowered)
  | declare declared _ ih =>
      -- A declaration leaves no statement here. It only uses up names.
      exact (ih endLowered).earlier declared.supply_le

end Threads

section Procedures

variable {functions functions' : FunctionTable} {layout layout' : StackLayout}
  {supply supply' final final' : Supply}

theorem alike_params {params : List Param} {label : Label} {function : String} {count : Nat}
    {formals formals' : Bindings Access} (outer outer' : Bindings Access)
    (sameSize : layout'.wordSize = layout.wordSize) (fits : naming.Fits layout layout')
    (bound : bindFormals function 0 .empty params (layout.frame label count).formals = .ok formals)
    (bound' : bindFormals function 0 .empty params (layout'.frame label count).formals =
      .ok formals') :
    Context.Alike naming (params.map Param.name)
      { frame := layout.frame label count, locals := formals.overlay outer }
      { frame := layout'.frame label count, locals := formals'.overlay outer' } := by
  -- The offsets of formals are a matter of the word size only.
  have sameFormals : (layout'.frame label count).formals = (layout.frame label count).formals := by
    simp [StackLayout.frame, StackLayout.formalOffset, sameSize]
  rw [sameFormals] at bound'
  cases bound.symm.trans bound'
  intro name isParam
  obtain ⟨access, isFormal, found⟩ := exists_formal bound isParam
  obtain ⟨index, _, rfl⟩ := List.mem_map.mp isFormal
  simp [Context.value?, found, Access.exp, Exp.rename, Frame.framePointer, StackLayout.frame,
    fits.pointer]

theorem DeclaresTo.renamed {outer outer' : Bindings Access} {declaration : Declaration}
    {procedure procedure' : Procedure StackFrame}
    (lowered : DeclaresTo functions layout outer declaration supply procedure final)
    (lowered' : DeclaresTo functions' layout' outer' declaration supply' procedure' final')
    (wellScoped : declaration.WellScoped) (sameSize : layout'.wordSize = layout.wordSize) :
    HoldsByNames supply supply' fun naming =>
      naming.Fits layout layout' → procedure' = procedure.rename naming := by
  obtain ⟨bound, bodyLowered, resultLowered⟩ := lowered
  obtain ⟨bound', bodyLowered', resultLowered'⟩ := lowered'
  have thread := bodyLowered.threadTo resultLowered
  have thread' := bodyLowered'.threadTo resultLowered'
  have ends (name : String) (occurs : name ∈ declaration.result.identifiers) :
      name ∈ declaration.paramNames ++ declaration.body.map Assign.name :=
    List.mem_append.mpr (wellScoped.result name occurs)
  refine (thread.renamed thread' wellScoped.body ends).imp fun naming held fits => ?_
  obtain ⟨sameCode, _, sameResult⟩ := held (alike_params outer outer' sameSize fits bound bound')
  rw [Procedure.rename, Renaming.rename_stackFrame, fits.rename_layout sameSize, sameCode,
    sameResult]
  simp [Stm.rename, Exp.rename, fits.value]

def DeclaredFrom (functions : FunctionTable) (layout : StackLayout) (supply : Supply)
    (declaration : Declaration) (procedure : Procedure StackFrame) : Prop :=
  ∃ outer begun final, supply ≤ begun ∧
    DeclaresTo functions layout outer declaration begun procedure final

theorem DeclaredFrom.earlier {begun : Supply} (later : supply ≤ begun) (declaration : Declaration)
    (procedure : Procedure StackFrame)
    (declared : DeclaredFrom functions layout begun declaration procedure) :
    DeclaredFrom functions layout supply declaration procedure := by
  obtain ⟨outer, start, final, atBegun, lowered⟩ := declared
  exact ⟨outer, start, final, later.trans atBegun, lowered⟩

theorem StatementsTo.declaredFrom {context last : Context StackFrame} {source : List Stmt}
    {statements : List Stm} {fragments : List (Fragment StackFrame)}
    (lowered :
      StatementsTo functions layout context source supply last statements fragments final) :
    List.Forall₂ (DeclaredFrom functions layout supply) (source.filterMap Stmt.declaration?)
      (procedures fragments) := by
  induction lowered with
  | nil => exact .nil
  | literal _ _ ih => exact ih.imp (DeclaredFrom.earlier (Supply.le_afterLabel _))
  | assign _ valueLowered _ ih =>
      exact ih.imp (DeclaredFrom.earlier (valueLowered.supply_le.trans (Supply.le_afterTemp _)))
  | declare declared _ ih =>
      exact .cons ⟨_, _, _, le_refl _, declared⟩ (ih.imp (DeclaredFrom.earlier declared.supply_le))

theorem ProgramTo.find_declared {resolved : Resolved} {fragments : List (Fragment StackFrame)}
    (lowered : ProgramTo layout resolved supply fragments final)
    (distinct : resolved.program.functionNames.Nodup) {declaration : Declaration}
    (member : declaration ∈ resolved.program.declarations) :
    ∃ procedure, findProcedure? (Label.function declaration.name) fragments = some procedure ∧
      DeclaredFrom resolved.functions layout supply declaration procedure := by
  obtain ⟨statementsLowered, _⟩ := lowered
  rw [findProcedure?_function rfl]
  have labelled (other : Declaration) (procedure : Procedure StackFrame)
      (declared : DeclaredFrom resolved.functions layout supply other procedure) :
      Frame.label procedure.frame = Label.function other.name := by
    obtain ⟨_, _, _, _, lowered⟩ := declared
    exact lowered.frame_label
  have found := find_procedure labelled statementsLowered.declaredFrom declaration.name
  have sought : (resolved.program.statements.filterMap Stmt.declaration?).find?
      (fun other => other.name = declaration.name) = some declaration :=
    find?_of_nodup_map distinct member
  rw [sought] at found
  generalize (procedures _).find? _ = procedure? at found ⊢
  cases found with
  | some declared => exact ⟨_, rfl, declared⟩

def MainRenamed (naming : Renaming) (fragments fragments' : List (Fragment StackFrame)) : Prop :=
  fragments'.filterMap Fragment.data? =
      (fragments.filterMap Fragment.data?).map (StaticData.rename naming) ∧
    ∃ main, findProcedure? Label.main fragments = some main ∧
      findProcedure? Label.main fragments' = some (main.rename naming)

theorem ProgramTo.mainRenamed {resolved resolved' : Resolved}
    {fragments fragments' : List (Fragment StackFrame)}
    (lowered : ProgramTo layout resolved supply fragments final)
    (lowered' : ProgramTo layout' resolved' supply' fragments' final')
    (wellScoped : resolved.program.WellScoped)
    (sameAssigns : resolved'.program.assigns = resolved.program.assigns)
    (samePrint : resolved'.program.print.exp = resolved.program.print.exp)
    (sameSize : layout'.wordSize = layout.wordSize) :
    HoldsByNames supply supply' fun naming =>
      naming.Fits layout layout' → MainRenamed naming fragments fragments' := by
  obtain @⟨_, statements, _, _, _, _, statementsLowered, printLowered⟩ := lowered
  obtain @⟨_, statements', _, _, _, _, statementsLowered', printLowered'⟩ := lowered'
  rw [samePrint] at printLowered'
  have thread := statementsLowered.threadTo printLowered
  have thread' := statementsLowered'.threadTo printLowered'
  change ThreadTo _ _ _ _ resolved'.program.assigns _ _ _ _ at thread'
  rw [sameAssigns] at thread'
  refine (thread.renamed thread' wellScoped.values wellScoped.print).imp fun naming held fits => ?_
  obtain ⟨sameCode, sameData, samePrinted⟩ := held nofun
  refine ⟨?_, _, statementsLowered.findProcedure?_main rfl, ?_⟩
  · rw [List.filterMap_append, List.filterMap_append, List.map_append, sameData]
    rfl
  · rw [statementsLowered'.findProcedure?_main rfl, Procedure.rename, Renaming.rename_stackFrame,
      fits.rename_layout sameSize, ← Stm.block_filter_append statements,
      ← Stm.block_filter_append statements', sameCode, samePrinted]
    simp [Stm.rename, Exp.rename, Exp.renameAll]

end Procedures

theorem declarations_transparent {program program' : Program} {queue queue' : Diagnostic.Queue}
    {resolved resolved' : Resolved} (accepted : (resolve program queue).1 = .ok resolved)
    (accepted' : (resolve program' queue').1 = .ok resolved')
    (sameAssigns : program'.assigns = program.assigns)
    (samePrint : program'.print.exp = program.print.exp) {wordSize : WordSize}
    {layout layout' : StackLayout} {earlier later supply earlier' later' supply' : Supply}
    (reserves : (StackLayout.reserve wordSize).run earlier = (layout, later))
    (drawn : later ≤ supply)
    (reserves' : (StackLayout.reserve wordSize).run earlier' = (layout', later'))
    (drawn' : later' ≤ supply') :
    ∃ fragments final fragments' final',
      (lowerProgram layout.maker resolved).run supply = .ok fragments final ∧
      (lowerProgram layout'.maker resolved').run supply' = .ok fragments' final' ∧
      (∃ naming : Renaming, naming.Fits layout layout' ∧
        MainRenamed naming fragments fragments') ∧
      ∀ declaration ∈ program.declarations, declaration ∈ program'.declarations →
        ∃ (naming : Renaming) (procedure : Procedure StackFrame), naming.Fits layout layout' ∧
          findProcedure? (Label.function declaration.name) fragments = some procedure ∧
          findProcedure? (Label.function declaration.name) fragments' =
            some (procedure.rename naming) := by
  obtain ⟨wellScoped, rfl⟩ := wellScoped_of_resolve accepted
  obtain ⟨wellScoped', rfl⟩ := wellScoped_of_resolve accepted'
  obtain ⟨fragments, final, done⟩ := lowerProgram_stack_ok wellScoped layout supply
  obtain ⟨fragments', final', done'⟩ := lowerProgram_stack_ok wellScoped' layout' supply'
  have lowered := programTo_of_run done
  have lowered' := programTo_of_run done'
  have before := StackLayout.drawnBefore_of_reserve reserves drawn
  have before' := StackLayout.drawnBefore_of_reserve reserves' drawn'
  have sameSize : layout'.wordSize = layout.wordSize := by
    cases reserves
    cases reserves'
    rfl
  refine ⟨fragments, final, fragments', final', done, done', ?_, ?_⟩
  · obtain ⟨naming, fits, same⟩ := (lowered.mainRenamed lowered' wellScoped sameAssigns samePrint
      sameSize).exists_renaming before before'
    exact ⟨naming, fits, same fits⟩
  · intro declaration member member'
    obtain ⟨procedure, found, _, begun, _, atBegun, declared⟩ :=
      lowered.find_declared wellScoped.functions member
    obtain ⟨procedure', found', _, begun', _, atBegun', declared'⟩ :=
      lowered'.find_declared wellScoped'.functions member'
    obtain ⟨naming, fits, same⟩ := (declared.renamed declared'
      (wellScoped.declarations declaration member) sameSize).exists_renaming
        (before.later atBegun) (before'.later atBegun')
    exact ⟨naming, procedure, fits, found, by rw [found', same fits]⟩

def declaredElsewhere : Program where
  -- The assignments of `sharedNames`, between other declarations that draw names as well.
  statements :=
    .declare {
      name := "g"
      returnType := .boolean
      params := []
      body := [
        { name := "y", value := .conditional (.literal 1) (.call "f" [.literal 0]) (.literal 2) }]
      result := .binary .lessThan (.ident "y") (.literal 2) } ::
    sharedNames.assigns.map .assign ++ [.declare choosing]
  print := sharedNames.print

theorem declarations_transparent_declaredElsewhere :
    let wordSize : WordSize := ⟨8, by decide, by decide⟩
    let (layout, supply) := (StackLayout.reserve wordSize).run {}
    let (layout', supply') := (StackLayout.reserve wordSize).run supply
    (resolve sharedNames {}).1 = .ok (resolution sharedNames) ∧
      (resolve declaredElsewhere {}).1 = .ok (resolution declaredElsewhere) ∧
      ∃ fragments final fragments' final',
        (lowerProgram layout.maker (resolution sharedNames)).run supply = .ok fragments final ∧
        (lowerProgram layout'.maker (resolution declaredElsewhere)).run supply' =
          .ok fragments' final' ∧
        (∃ naming : Renaming, naming.Fits layout layout' ∧
          MainRenamed naming fragments fragments') ∧
        ∃ (naming : Renaming) (procedure : Procedure StackFrame), naming.Fits layout layout' ∧
          findProcedure? (Label.function "f") fragments = some procedure ∧
          findProcedure? (Label.function "f") fragments' = some (procedure.rename naming) := by
  intro wordSize
  have accepted : (resolve sharedNames {}).1 = .ok (resolution sharedNames) := rfl
  have accepted' : (resolve declaredElsewhere {}).1 = .ok (resolution declaredElsewhere) := rfl
  obtain ⟨fragments, final, fragments', final', done, done', main, functions⟩ :=
    declarations_transparent accepted accepted' (by decide) rfl
      (StackLayout.run_reserve wordSize {}) (le_refl _) (StackLayout.run_reserve wordSize _)
      (le_refl _)
  exact ⟨accepted, accepted', fragments, final, fragments', final', done, done', main,
    functions choosing (by decide) (by decide)⟩

end Lower

end TreeCompiler
