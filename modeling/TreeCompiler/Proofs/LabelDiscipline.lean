import Mathlib.Data.List.Nodup
import TreeCompiler.Proofs.CodeLabels
import TreeCompiler.Proofs.StackLowering
import TreeCompiler.Proofs.Totality

set_option autoImplicit false

namespace TreeCompiler

open Code Source Resolve

namespace Code.Supply

def labelsTo (supply final : Supply) : List Label :=
  (List.range' supply.labels (final.labels - supply.labels)).map Label.numbered

variable {supply middle final : Supply}

theorem mem_labelsTo {label : Label} :
    label ∈ supply.labelsTo final ↔
      ∃ index, supply.labels ≤ index ∧ index < final.labels ∧ label = Label.numbered index := by
  simp only [labelsTo, List.mem_map, List.mem_range'_1]
  constructor
  · rintro ⟨index, ⟨lower, upper⟩, rfl⟩
    exact ⟨index, lower, by omega, rfl⟩
  · rintro ⟨index, lower, upper, rfl⟩
    exact ⟨index, ⟨lower, by omega⟩, rfl⟩

theorem nodup_labelsTo (supply final : Supply) : (supply.labelsTo final).Nodup := by
  apply List.Nodup.map
  · intro one other same
    exact Label.numbered_injective same
  · exact List.nodup_range'

theorem labelsTo_append (earlier : supply ≤ middle) (later : middle ≤ final) :
    supply.labelsTo middle ++ middle.labelsTo final = supply.labelsTo final := by
  have first := labels_mono earlier
  have second := labels_mono later
  have joined : supply.labels + 1 * (middle.labels - supply.labels) = middle.labels := by omega
  have total : middle.labels - supply.labels + (final.labels - middle.labels) =
      final.labels - supply.labels := by omega
  rw [labelsTo, labelsTo, labelsTo, ← List.map_append, ← total, ← List.range'_append, joined]

@[simp] theorem labelsTo_self (supply : Supply) : supply.labelsTo supply = [] := by
  simp [labelsTo]

@[simp] theorem labelsTo_afterLabel (supply : Supply) :
    supply.labelsTo supply.afterLabel = [supply.nextLabel] := by
  simp [labelsTo, nextLabel]

@[simp] theorem labelsTo_afterTemp (supply final : Supply) :
    supply.labelsTo final.afterTemp = supply.labelsTo final := rfl

@[simp] theorem afterTemp_labelsTo (supply final : Supply) :
    supply.afterTemp.labelsTo final = supply.labelsTo final := rfl

theorem labelsTo_eq_cons (later : supply.afterLabel ≤ final) :
    supply.labelsTo final = supply.nextLabel :: supply.afterLabel.labelsTo final := by
  rw [← labelsTo_append (le_afterLabel supply) later, labelsTo_afterLabel]
  rfl

theorem labelsTo_afterJoints (supply : Supply) :
    supply.labelsTo supply.afterJoints =
      [supply.nextJoints.thenLabel, supply.nextJoints.elseLabel, supply.nextJoints.joinLabel] := by
  simp [labelsTo, nextJoints, nextLabel, List.range'_succ]

end Code.Supply

namespace Code

variable {F : Type}

def procedures (fragments : List (Fragment F)) : List (Procedure F) :=
  fragments.filterMap Fragment.procedure?

def procedureLabels [Frame F] (fragments : List (Fragment F)) : List Label :=
  (procedures fragments).map fun procedure => Frame.label procedure.frame

def dataLabels (fragments : List (Fragment F)) : List Label :=
  (fragments.filterMap Fragment.data?).map StaticData.label

def Fragment.generated : Fragment F → List Label
  -- These are made up, whatever the names in the source.
  | .data word => [word.label]
  | .procedure code => code.body.marks

def Fragment.defined [Frame F] : Fragment F → List Label
  | .data word => [word.label]
  | .procedure code => Frame.label code.frame :: code.body.marks

def generatedLabels (fragments : List (Fragment F)) : List Label :=
  fragments.flatMap Fragment.generated

def definedLabels [Frame F] (fragments : List (Fragment F)) : List Label :=
  fragments.flatMap Fragment.defined

theorem dataLabels_sublist (fragments : List (Fragment F)) :
    (dataLabels fragments).Sublist (generatedLabels fragments) := by
  induction fragments with
  | nil => exact .slnil
  | cons fragment rest ih =>
      cases fragment with
      | procedure procedure => exact ih.trans (List.sublist_append_right _ _)
      | data word => exact ih.cons_cons word.label

theorem definedLabels_perm [Frame F] (fragments : List (Fragment F)) :
    (definedLabels fragments).Perm (procedureLabels fragments ++ generatedLabels fragments) := by
  induction fragments with
  | nil => exact .refl _
  | cons fragment rest ih =>
      have step : (definedLabels (fragment :: rest)).Perm
          (fragment.defined ++ (procedureLabels rest ++ generatedLabels rest)) :=
        ih.append_left fragment.defined
      refine step.trans (List.perm_iff_count.mpr fun label => ?_)
      cases fragment with
      | procedure procedure =>
          simp only [Fragment.defined, procedureLabels, procedures, Fragment.procedure?,
            generatedLabels, Fragment.generated, List.filterMap_cons, List.map_cons,
            List.flatMap_cons, List.count_append, List.count_cons]
          omega
      | data word =>
          simp only [Fragment.defined, procedureLabels, procedures, Fragment.procedure?,
            generatedLabels, Fragment.generated, List.filterMap_cons, List.flatMap_cons,
            List.count_append]
          omega

end Code

namespace Lower

inductive Atom (data : Label → Prop) : Exp → Prop
  | data {label} (known : data label) : Atom data (.mem (.name label))
  | place {framePointer access} : Atom data (Access.exp (.temp framePointer) access)

variable {data callees : Label → Prop}

theorem Atom.closed {exp : Exp} (atom : Atom data exp) : exp.Closed data callees := by
  cases atom with
  | data known => simpa using known
  | @place framePointer access => cases access <;> simp [Access.exp]

theorem Atom.marks_eq_nil {exp : Exp} (atom : Atom data exp) : exp.marks = [] := by
  cases atom with
  | data known => rfl
  | @place framePointer access => cases access <;> rfl

def Scope.Atomic (data : Label → Prop) (scope : Scope) : Prop :=
  ∀ name exp, scope.value? name = some exp → Atom data exp

variable {scope : Scope} {supply final : Supply}

theorem jumpsForward_comparison (left right : Exp) (result : Temp) :
    JumpsForward (comparison left right result).linear := by
  simp [comparison, Stm.followedBy, Stm.linear, Stm.targets]

theorem jumpsForward_diamond (joints : Joints) (guard truth thenExp elseExp : Exp) (result : Temp) :
    JumpsForward (diamond joints
      (.cjump .equal guard truth joints.thenLabel joints.elseLabel) thenExp elseExp
      result).linear := by
  simp [diamond, Stm.followedBy, Stm.linear, Stm.targets]

mutual

theorem LowersTo.closed (atomic : scope.Atomic data)
    (declared : ∀ callee, scope.declares callee → callees (Label.function callee))
    {expr : Expr} {supply final : Supply} {exp : Exp}
    (lowered : LowersTo scope expr supply exp final) : exp.Closed data callees := by
  cases lowered with
  | literal => simp
  | ident bound => exact (atomic _ _ bound).closed
  | arithmetic _ leftLowered rightLowered =>
      have leftClosed := leftLowered.closed atomic declared
      have rightClosed := rightLowered.closed atomic declared
      simp [leftClosed, rightClosed]
  | comparison leftLowered rightLowered =>
      have leftClosed := leftLowered.closed atomic declared
      have rightClosed := rightLowered.closed atomic declared
      refine (Exp.closed_eseq _ _).mpr ⟨jumpsForward_comparison _ _ _, ?_, by simp⟩
      simp [comparison, leftClosed, rightClosed]
  | negation operandLowered =>
      have operandClosed := operandLowered.closed atomic declared
      simp [operandClosed]
  | conditional guardLowered thenLowered elseLowered =>
      have guardClosed := guardLowered.closed atomic declared
      have thenClosed := thenLowered.closed atomic declared
      have elseClosed := elseLowered.closed atomic declared
      refine (Exp.closed_eseq _ _).mpr ⟨jumpsForward_diamond _ _ _ _ _ _, ?_, by simp⟩
      simp [diamond, guardClosed, thenClosed, elseClosed]
  | call calleeDeclared argsLowered =>
      have argsClosed := argsLowered.closed atomic declared
      have calleeClosed := declared _ calleeDeclared
      simp [calleeClosed, argsClosed]

theorem LowersAllTo.closed (atomic : scope.Atomic data)
    (declared : ∀ callee, scope.declares callee → callees (Label.function callee))
    {exprs : List Expr} {supply final : Supply} {exps : List Exp}
    (lowered : LowersAllTo scope exprs supply exps final) : Exp.AllClosed data callees exps := by
  cases lowered with
  | nil => simp
  | cons firstLowered restLowered =>
      have firstClosed := firstLowered.closed atomic declared
      have restClosed := restLowered.closed atomic declared
      simp [firstClosed, restClosed]

end

theorem marks_comparison (left right : Exp) (result : Temp) :
    (Exp.eseq (comparison left right result) (.temp result)).marks = left.marks ++ right.marks := by
  simp [Exp.marks, comparison, Stm.followedBy, Exp.nodes, Stm.nodes, List.filterMap_cons,
    Node.mark?]

theorem marks_diamond (joints : Joints) (guard thenExp elseExp : Exp) (truth : Int64)
    (result : Temp) :
    (Exp.eseq
      (diamond joints (.cjump .equal guard (.const truth) joints.thenLabel joints.elseLabel)
        thenExp elseExp result)
      (.temp result)).marks =
    guard.marks ++ (joints.elseLabel :: elseExp.marks) ++ (joints.thenLabel :: thenExp.marks) ++
      [joints.joinLabel] := by
  simp [Exp.marks, diamond, Stm.followedBy, Exp.nodes, Stm.nodes, List.filterMap_cons, Node.mark?]

mutual

theorem LowersTo.marks_perm (atomic : scope.Atomic data) {expr : Expr} {supply final : Supply}
    {exp : Exp} (lowered : LowersTo scope expr supply exp final) :
    exp.marks.Perm (supply.labelsTo final) := by
  cases lowered with
  | literal => simp [Exp.marks, Exp.nodes, List.filterMap_cons, Node.mark?]
  | ident bound => simp [(atomic _ _ bound).marks_eq_nil]
  | @arithmetic _ _ _ _ _ _ middle _ leftExp rightExp _ leftLowered rightLowered =>
      have operands : (leftExp.marks ++ rightExp.marks).Perm
          (supply.labelsTo middle ++ middle.labelsTo final) :=
        (leftLowered.marks_perm atomic).append (rightLowered.marks_perm atomic)
      rw [Supply.labelsTo_append leftLowered.supply_le rightLowered.supply_le] at operands
      simpa [Exp.marks, Exp.nodes, List.filterMap_cons, Node.mark?] using operands
  | @comparison _ _ _ _ middle before leftExp rightExp leftLowered rightLowered =>
      have operands : (leftExp.marks ++ rightExp.marks).Perm
          (supply.labelsTo middle ++ middle.labelsTo before) :=
        (leftLowered.marks_perm atomic).append (rightLowered.marks_perm atomic)
      rw [Supply.labelsTo_append leftLowered.supply_le rightLowered.supply_le] at operands
      rw [marks_comparison, Supply.labelsTo_afterTemp]
      exact operands
  | negation operandLowered =>
      have operand := operandLowered.marks_perm atomic
      simpa [Exp.marks, Exp.nodes, List.filterMap_cons, Node.mark?] using operand
  | @conditional _ _ _ _ _ middle later _ guardExp thenExp elseExp guardLowered thenLowered
      elseLowered =>
      have guard := guardLowered.marks_perm atomic
      have thenPart := thenLowered.marks_perm atomic
      have elsePart := elseLowered.marks_perm atomic
      have branches := thenLowered.supply_le.trans elseLowered.supply_le
      have jointsLe : supply.afterJoints ≤ middle :=
        (Supply.le_afterTemp _).trans guardLowered.supply_le
      rw [Supply.afterTemp_labelsTo] at guard
      rw [marks_diamond, ← Supply.labelsTo_append (Supply.le_afterJoints supply)
        (jointsLe.trans branches), Supply.labelsTo_afterJoints,
        ← Supply.labelsTo_append jointsLe branches,
        ← Supply.labelsTo_append thenLowered.supply_le elseLowered.supply_le]
      -- The three labels are drawn first, but marked around the branches.
      apply List.perm_iff_count.mpr
      intro label
      simp only [List.count_append, List.count_cons, guard.count_eq, thenPart.count_eq,
        elsePart.count_eq]
      omega
  | call _ argsLowered =>
      have args := argsLowered.marks_perm atomic
      simpa [Exp.marks, Exp.marksOfAll, Exp.nodes, List.filterMap_cons, Node.mark?] using args

theorem LowersAllTo.marks_perm (atomic : scope.Atomic data) {exprs : List Expr}
    {supply final : Supply} {exps : List Exp}
    (lowered : LowersAllTo scope exprs supply exps final) :
    (Exp.marksOfAll exps).Perm (supply.labelsTo final) := by
  cases lowered with
  | nil => simp
  | @cons _ _ _ middle _ exp exps firstLowered restLowered =>
      have parts : (exp.marks ++ Exp.marksOfAll exps).Perm
          (supply.labelsTo middle ++ middle.labelsTo final) :=
        (firstLowered.marks_perm atomic).append (restLowered.marks_perm atomic)
      rw [Supply.labelsTo_append firstLowered.supply_le restLowered.supply_le] at parts
      simpa using parts

end

variable {functions : FunctionTable} {layout : StackLayout} {context last : Context StackFrame}

def Context.NamesData (data : Label → Prop) (context : Context StackFrame) : Prop :=
  ∀ name exp, context.constants.get? name = some exp →
    ∃ label, exp = .mem (.name label) ∧ data label

theorem Context.NamesData.atomic (names : context.NamesData data) (functions : FunctionTable) :
    (context.scope functions).Atomic data := by
  intro name exp bound
  simp only [Context.scope, Context.value?, Option.or_eq_some_iff, Option.map_eq_some_iff] at bound
  rcases bound with constant | ⟨_, access, _, rfl⟩
  · obtain ⟨label, rfl, known⟩ := names name exp constant
    exact .data known
  · exact .place

theorem Context.NamesData.bindLocal (names : context.NamesData data) (name : String)
    (access : Access) : (context.bindLocal name access).NamesData data := by
  intro other exp bound
  simp only [Context.bindLocal, Bindings.get?_erase] at bound
  split at bound
  next => cases bound
  next => exact names other exp bound

theorem Context.NamesData.bindConstant (names : context.NamesData data) (name : String)
    {label : Label} (known : data label) :
    (context.bindConstant name (.mem (.name label))).NamesData data := by
  intro other exp bound
  simp only [Context.bindConstant, Bindings.get?_insert] at bound
  split at bound
  next =>
    cases bound
    exact ⟨label, rfl, known⟩
  next => exact names other exp bound

theorem Context.namesData_of_empty (data : Label → Prop) (frame : StackFrame)
    (locals : Bindings Access) :
    ({ frame, locals } : Context StackFrame).NamesData data := by
  intro name exp bound
  simp at bound

structure Plain (data callees : Label → Prop) (statement : Stm) : Prop where
  single : statement.linear = [statement]
  straight : statement.targets = []
  closed : statement.Closed data callees

theorem plain_nop : Plain data callees .nop := ⟨rfl, rfl, Stm.closed_nop⟩

theorem plain_move (temp : Temp) {exp : Exp} (closed : exp.Closed data callees) :
    Plain data callees (.move (.temp temp) exp) := ⟨rfl, rfl, by simp [closed]⟩

structure Disciplined (data callees : Label → Prop) (body : Stm) : Prop where
  closed : body.Closed data callees
  forward : JumpsForward body.linear

theorem disciplined_block {statements : List Stm}
    (plain : ∀ statement ∈ statements, Plain data callees statement) :
    Disciplined data callees (Stm.block statements) where
  closed := by
    rw [Stm.closed_block]
    exact fun statement member => (plain statement member).closed
  forward := by
    apply jumpsForward_of_no_targets
    intro statement member
    rcases Stm.mem_linear_block member with rfl | ⟨part, listed, inPart⟩
    · rfl
    · rw [(plain part listed).single, List.mem_singleton] at inPart
      rw [inPart, (plain part listed).straight]

section Assignments

variable {assigns : List Assign} {statements : List Stm}

theorem AssignsTo.namesData
    (lowered : AssignsTo functions context assigns supply last statements final)
    (names : context.NamesData data) : last.NamesData data := by
  induction lowered with
  | nil => exact names
  | cons _ _ ih => exact ih (names.bindLocal _ _)

theorem AssignsTo.plain
    (declared : ∀ callee, functions.contains callee → callees (Label.function callee))
    (lowered : AssignsTo functions context assigns supply last statements final)
    (names : context.NamesData data) :
    ∀ statement ∈ statements, Plain data callees statement := by
  induction lowered with
  | nil => simp
  | cons valueLowered _ ih =>
      have valueClosed := valueLowered.closed (names.atomic functions) declared
      have restPlain := ih (names.bindLocal _ _)
      exact List.forall_mem_cons.mpr ⟨plain_move _ valueClosed, restPlain⟩

theorem AssignsTo.marks_perm
    (lowered : AssignsTo functions context assigns supply last statements final)
    (names : context.NamesData data) :
    (statements.flatMap Stm.marks).Perm (supply.labelsTo final) := by
  induction lowered with
  | nil => simp
  | cons valueLowered restLowered ih =>
      have value := valueLowered.marks_perm (names.atomic functions)
      have rest := ih (names.bindLocal _ _)
      rw [Supply.afterTemp_labelsTo] at rest
      rw [← Supply.labelsTo_append valueLowered.supply_le
        ((Supply.le_afterTemp _).trans restLowered.supply_le)]
      simpa using value.append rest

end Assignments

section Declarations

variable {outer : Bindings Access} {declaration : Declaration} {procedure : Procedure StackFrame}

theorem DeclaresTo.frame_label
    (lowered : DeclaresTo functions layout outer declaration supply procedure final) :
    Frame.label procedure.frame = Label.function declaration.name := by
  cases lowered
  rfl

theorem DeclaresTo.disciplined
    (declared : ∀ callee, functions.contains callee → callees (Label.function callee))
    (lowered : DeclaresTo functions layout outer declaration supply procedure final) :
    Disciplined data callees procedure.body := by
  obtain ⟨_, bodyLowered, resultLowered⟩ := lowered
  have names := Context.namesData_of_empty data
  have lastNames := bodyLowered.namesData (names _ _)
  have plain := bodyLowered.plain declared (names _ _)
  have resultClosed := resultLowered.closed (lastNames.atomic functions) declared
  apply disciplined_block
  exact List.forall_mem_append.mpr ⟨plain, by simpa using plain_move _ resultClosed⟩

theorem DeclaresTo.marks_perm
    (lowered : DeclaresTo functions layout outer declaration supply procedure final) :
    procedure.body.marks.Perm (supply.labelsTo final) := by
  obtain ⟨_, bodyLowered, resultLowered⟩ := lowered
  -- Static data is not visible in the body, so no label has to be known.
  have names := Context.namesData_of_empty (fun _ => False)
  have lastNames := bodyLowered.namesData (names _ _)
  have body := bodyLowered.marks_perm (names _ _)
  have result := resultLowered.marks_perm (lastNames.atomic functions)
  rw [← Supply.labelsTo_append bodyLowered.supply_le resultLowered.supply_le]
  simpa using body.append result

end Declarations

section Statements

variable {source : List Stmt} {statements : List Stm} {fragments : List (Fragment StackFrame)}

theorem StatementsTo.namesData
    (lowered : StatementsTo functions layout context source supply last statements fragments final)
    (names : context.NamesData data) (known : ∀ label ∈ dataLabels fragments, data label) :
    last.NamesData data := by
  induction lowered with
  | nil => exact names
  | literal _ _ ih =>
      obtain ⟨labelKnown, restKnown⟩ := List.forall_mem_cons.mp known
      exact ih (names.bindConstant _ labelKnown) restKnown
  | assign _ _ _ ih => exact ih (names.bindLocal _ _) known
  | declare _ _ ih => exact ih names known

theorem StatementsTo.plain
    (declared : ∀ callee, functions.contains callee → callees (Label.function callee))
    (lowered : StatementsTo functions layout context source supply last statements fragments final)
    (names : context.NamesData data) (known : ∀ label ∈ dataLabels fragments, data label) :
    (∀ statement ∈ statements, Plain data callees statement) ∧
      ∀ procedure ∈ procedures fragments, Disciplined data callees procedure.body := by
  induction lowered with
  | nil => simp [procedures]
  | literal _ _ ih =>
      obtain ⟨labelKnown, restKnown⟩ := List.forall_mem_cons.mp known
      obtain ⟨restPlain, bodies⟩ := ih (names.bindConstant _ labelKnown) restKnown
      exact ⟨List.forall_mem_cons.mpr ⟨plain_nop, restPlain⟩, bodies⟩
  | assign _ valueLowered _ ih =>
      obtain ⟨restPlain, bodies⟩ := ih (names.bindLocal _ _) known
      have valueClosed := valueLowered.closed (names.atomic functions) declared
      exact ⟨List.forall_mem_cons.mpr ⟨plain_move _ valueClosed, restPlain⟩, bodies⟩
  | declare procedureLowered _ ih =>
      obtain ⟨restPlain, bodies⟩ := ih names known
      refine ⟨List.forall_mem_cons.mpr ⟨plain_nop, restPlain⟩, ?_⟩
      exact List.forall_mem_cons.mpr ⟨procedureLowered.disciplined declared, bodies⟩

theorem StatementsTo.procedureLabels_eq
    (lowered : StatementsTo functions layout context source supply last statements fragments
      final) :
    procedureLabels fragments =
      (source.filterMap Stmt.declaration?).map fun declaration =>
        Label.function declaration.name := by
  induction lowered with
  | nil => rfl
  | literal _ _ ih => exact ih
  | assign _ _ _ ih => exact ih
  | declare procedureLowered _ ih => exact congrArg₂ List.cons procedureLowered.frame_label ih

theorem StatementsTo.generated_perm
    (lowered : StatementsTo functions layout context source supply last statements fragments final)
    (names : context.NamesData fun _ => True) :
    (generatedLabels fragments ++ statements.flatMap Stm.marks).Perm (supply.labelsTo final) := by
  induction lowered with
  | nil => simp [generatedLabels]
  | literal _ restLowered ih =>
      have rest := ih (names.bindConstant _ trivial)
      rw [Supply.labelsTo_eq_cons restLowered.supply_le]
      simpa [generatedLabels, Fragment.generated] using rest
  | assign _ valueLowered restLowered ih =>
      have rest := ih (names.bindLocal _ _)
      have value := valueLowered.marks_perm (names.atomic functions)
      rw [Supply.afterTemp_labelsTo] at rest
      rw [← Supply.labelsTo_append valueLowered.supply_le
        ((Supply.le_afterTemp _).trans restLowered.supply_le)]
      -- The statement's labels are drawn before those of the rest, but stand after its fragments.
      apply List.perm_iff_count.mpr
      intro label
      have restCount := rest.count_eq label
      rw [List.count_append] at restCount
      simp only [List.flatMap_cons, Stm.marks_move_temp, List.count_append, value.count_eq]
      omega
  | declare procedureLowered restLowered ih =>
      have rest := ih names
      rw [← Supply.labelsTo_append procedureLowered.supply_le restLowered.supply_le]
      have both := procedureLowered.marks_perm.append rest
      simpa [generatedLabels, Fragment.generated] using both

end Statements

section Programs

variable {resolved : Resolved} {fragments : List (Fragment StackFrame)}

theorem ProgramTo.procedureLabels_eq
    (lowered : ProgramTo layout resolved supply fragments final) :
    procedureLabels fragments =
      resolved.program.functionNames.map Label.function ++ [Label.main] := by
  obtain ⟨statementsLowered, _⟩ := lowered
  have declared := statementsLowered.procedureLabels_eq
  rw [Program.functionNames, Program.declarations, List.map_map]
  simp only [procedureLabels, procedures, List.filterMap_append, List.map_append] at declared ⊢
  rw [declared]
  rfl

theorem ProgramTo.generated_perm
    (lowered : ProgramTo layout resolved supply fragments final) :
    (generatedLabels fragments).Perm (supply.labelsTo final) := by
  obtain ⟨statementsLowered, printLowered⟩ := lowered
  have names := Context.namesData_of_empty (fun _ => True) (layout.frame Label.main 0) .empty
  have lastNames := statementsLowered.namesData names (fun _ _ => trivial)
  have statements := statementsLowered.generated_perm names
  have print := printLowered.marks_perm (lastNames.atomic _)
  rw [← Supply.labelsTo_append statementsLowered.supply_le printLowered.supply_le]
  simpa [generatedLabels, Fragment.generated] using statements.append print

theorem ProgramTo.nodup_generatedLabels
    (lowered : ProgramTo layout resolved supply fragments final) :
    (generatedLabels fragments).Nodup :=
  lowered.generated_perm.nodup_iff.mpr (Supply.nodup_labelsTo supply final)

theorem ProgramTo.disciplined (lowered : ProgramTo layout resolved supply fragments final)
    (declared : ∀ callee, resolved.functions.contains callee → callees (Label.function callee))
    (printKnown : callees Label.print) (known : ∀ label ∈ dataLabels fragments, data label) :
    ∀ procedure ∈ procedures fragments, Disciplined data callees procedure.body := by
  obtain ⟨statementsLowered, printLowered⟩ := lowered
  have names := Context.namesData_of_empty data (layout.frame Label.main 0) .empty
  simp only [dataLabels, List.filterMap_append, List.map_append, List.forall_mem_append] at known
  have lastNames := statementsLowered.namesData names known.1
  obtain ⟨plain, bodies⟩ := statementsLowered.plain declared names known.1
  have printed := printLowered.closed (lastNames.atomic _) declared
  simp only [procedures, List.filterMap_append, List.forall_mem_append]
  refine ⟨bodies, ?_⟩
  simp only [List.filterMap_cons, List.filterMap_nil, Fragment.procedure?,
    List.forall_mem_singleton]
  apply disciplined_block
  refine List.forall_mem_append.mpr ⟨plain, ?_⟩
  rw [List.forall_mem_singleton]
  exact ⟨rfl, rfl, by simp [printKnown, printed]⟩

end Programs

theorem Disciplined.forward_codeLists {body : Stm} (disciplined : Disciplined data callees body) :
    ∀ code ∈ body.codeLists, JumpsForward code := by
  intro code member
  rcases List.mem_cons.mp member with rfl | inside
  · exact disciplined.forward
  · obtain ⟨node, within, listed⟩ := List.mem_filterMap.mp inside
    have closed := disciplined.closed node within
    split at listed
    next effect value =>
      cases listed
      exact closed
    next => cases listed

def Callable (fragments : List (Fragment StackFrame)) (label : Label) : Prop :=
  label = Label.print ∨ label ∈ procedureLabels fragments

/-- The labels of a program's fragments are unique, and each use of one finds what it names. -/
structure WellLabelled (fragments : List (Fragment StackFrame)) : Prop where
  distinct : (definedLabels fragments).Nodup
  names : ∀ procedure ∈ procedures fragments, ∀ label,
    .exp (.name label) ∈ procedure.body.nodes → label ∈ dataLabels fragments
  calls : ∀ procedure ∈ procedures fragments, ∀ function args,
    .exp (.call function args) ∈ procedure.body.nodes → Callable fragments function
  listed : ∀ procedure ∈ procedures fragments, ∀ statement,
    .stm statement ∈ procedure.body.nodes → statement.targets ≠ [] →
      ∃ code ∈ procedure.body.codeLists, statement ∈ code
  forward : ∀ procedure ∈ procedures fragments, ∀ code ∈ procedure.body.codeLists,
    JumpsForward code

theorem findProcedure?_append (label : Label) (fragments : List (Fragment StackFrame))
    (main : Procedure StackFrame) :
    findProcedure? label (fragments ++ [.procedure main]) =
      (findProcedure? label fragments).or
        (if Frame.label main.frame = label then some main else none) := by
  simp only [findProcedure?, List.filterMap_append, List.find?_append]
  congr 1
  by_cases same : Frame.label main.frame = label <;> simp [Fragment.procedure?, same]

theorem findProcedure?_eq_none {label : Label} {fragments : List (Fragment StackFrame)}
    (absent : label ∉ procedureLabels fragments) : findProcedure? label fragments = none := by
  rw [findProcedure?, List.find?_eq_none]
  intro procedure member same
  exact absent (List.mem_map.mpr ⟨procedure, member, of_decide_eq_true same⟩)

theorem StatementsTo.findProcedure?_main {functions : FunctionTable}
    {context last : Context StackFrame} {source : List Stmt} {statements : List Stm}
    {fragments : List (Fragment StackFrame)}
    (lowered : StatementsTo functions layout context source supply last statements fragments final)
    {main : Procedure StackFrame} (label : Frame.label main.frame = Label.main) :
    findProcedure? Label.main (fragments ++ [.procedure main]) = some main := by
  have absent : Label.main ∉ procedureLabels fragments := by
    rw [lowered.procedureLabels_eq]
    intro listed
    obtain ⟨declaration, _, same⟩ := List.mem_map.mp listed
    exact Label.function_ne_main declaration.name same
  rw [findProcedure?_append, findProcedure?_eq_none absent, if_pos label, Option.none_or]

theorem findProcedure?_function {main : Procedure StackFrame}
    (label : Frame.label main.frame = Label.main) (name : String)
    (fragments : List (Fragment StackFrame)) :
    findProcedure? (Label.function name) (fragments ++ [.procedure main]) =
      (procedures fragments).find? fun procedure =>
        Frame.label procedure.frame = Label.function name := by
  have notMain : ¬Label.main = Label.function name := fun same =>
    Label.function_ne_main name same.symm
  rw [findProcedure?_append, label, if_neg notMain, Option.or_none]
  rfl

theorem find_procedure {related : Declaration → Procedure StackFrame → Prop}
    (labelled : ∀ declaration procedure, related declaration procedure →
      Frame.label procedure.frame = Label.function declaration.name)
    {declarations : List Declaration} {bodies : List (Procedure StackFrame)}
    (correspond : List.Forall₂ related declarations bodies) (name : String) :
    Option.Rel related
      (declarations.find? fun declaration => declaration.name = name)
      (bodies.find? fun procedure => Frame.label procedure.frame = Label.function name) := by
  induction correspond with
  | nil => exact .none
  | @cons declaration procedure _ _ headRelated _ ih =>
      rw [List.find?_cons, List.find?_cons, labelled declaration procedure headRelated]
      by_cases same : declaration.name = name
      · simp only [same, decide_true]
        exact .some headRelated
      · have differs : Label.function declaration.name ≠ Label.function name :=
          fun equal => same (Label.function_injective equal)
        simp only [same, differs, decide_false]
        exact ih

theorem find?_of_nodup_map {α β : Type} [DecidableEq β] {key : α → β} {list : List α}
    (distinct : (list.map key).Nodup) {wanted : α} (member : wanted ∈ list) :
    list.find? (fun other => key other = key wanted) = some wanted := by
  cases search : list.find? fun other => key other = key wanted with
  | none => exact absurd (List.find?_eq_none.mp search wanted member) (by simp)
  | some other =>
      have sameKey : key other = key wanted := by simpa using List.find?_some search
      rw [List.inj_on_of_nodup_map distinct (List.mem_of_find?_eq_some search) member sameKey]

theorem nodup_procedureLabels {names : List String} (distinct : names.Nodup) :
    (names.map Label.function ++ [Label.main]).Nodup := by
  have functions : (names.map Label.function).Nodup :=
    distinct.map fun one other same => Label.function_injective same
  refine List.nodup_append'.mpr ⟨functions, List.nodup_singleton _, ?_⟩
  intro label member main
  obtain ⟨name, _, rfl⟩ := List.mem_map.mp member
  exact Label.function_ne_main name (List.mem_singleton.mp main)

theorem ProgramTo.nodup_definedLabels {resolved : Resolved}
    {fragments : List (Fragment StackFrame)} (distinct : resolved.program.functionNames.Nodup)
    (lowered : ProgramTo layout resolved supply fragments final) :
    (definedLabels fragments).Nodup := by
  rw [(definedLabels_perm fragments).nodup_iff, lowered.procedureLabels_eq]
  refine List.nodup_append'.mpr
    ⟨nodup_procedureLabels distinct, lowered.nodup_generatedLabels, ?_⟩
  intro label fixed drawn
  obtain ⟨index, _, _, rfl⟩ := Supply.mem_labelsTo.mp (lowered.generated_perm.subset drawn)
  rcases List.mem_append.mp fixed with function | main
  · obtain ⟨name, _, same⟩ := List.mem_map.mp function
    exact Label.numbered_ne_function index name same.symm
  · exact Label.numbered_ne_main index (List.mem_singleton.mp main)

theorem wellLabelled_of_programTo {program : Program} (wellScoped : program.WellScoped)
    {fragments : List (Fragment StackFrame)}
    (lowered : ProgramTo layout (resolution program) supply fragments final) :
    WellLabelled fragments := by
  have declared : ∀ callee, (resolution program).functions.contains callee →
      Callable fragments (Label.function callee) := by
    intro callee contained
    have registered := (covers_resolveFunctions program callee).mp contained
    rw [Callable, lowered.procedureLabels_eq]
    exact .inr (List.mem_append_left _ (List.mem_map_of_mem registered))
  have disciplined : ∀ procedure ∈ procedures fragments,
      Disciplined (· ∈ dataLabels fragments) (Callable fragments) procedure.body :=
    lowered.disciplined declared (.inl rfl) fun _ known => known
  constructor
  case distinct => exact lowered.nodup_definedLabels wellScoped.functions
  case names =>
    intro procedure listed label used
    exact (disciplined procedure listed).closed _ used
  case calls =>
    intro procedure listed function args used
    exact (disciplined procedure listed).closed _ used
  case listed =>
    intro procedure _ statement
    exact Stm.mem_codeLists_of_jump
  case forward =>
    intro procedure listed
    exact (disciplined procedure listed).forward_codeLists

inductive Task
  -- All programs of a session draw their names from one supply.
  | reserve (wordSize : WordSize)
  | lower (resolved : Resolved)

def Task.resolved? : Task → Option Resolved
  | reserve _ => none
  | lower resolved => some resolved

def runTasks (layout : StackLayout) : List Task → LowerM (List (List (Fragment StackFrame)))
  | [] => return []
  | .reserve wordSize :: rest => do
      let reserved ← LowerM.draw (StackLayout.reserve wordSize)
      runTasks reserved rest
  | .lower resolved :: rest => do
      let fragments ← lowerProgram layout.maker resolved
      return fragments :: (← runTasks layout rest)

def AllAccepted (tasks : List Task) : Prop :=
  ∀ resolved, .lower resolved ∈ tasks → ∃ program queue, (resolve program queue).1 = .ok resolved

def IsCodeOf (resolved : Resolved) (fragments : List (Fragment StackFrame)) : Prop :=
  ∃ layout supply final,
    (lowerProgram (StackLayout.maker layout) resolved).run supply = .ok fragments final

def ShareNoLabel (fragments others : List (Fragment StackFrame)) : Prop :=
  (generatedLabels fragments).Disjoint (generatedLabels others)

theorem disjoint_labelsTo {supply middle final : Supply} {drawn others : List Label}
    (first : drawn ⊆ supply.labelsTo middle) (second : others ⊆ middle.labelsTo final) :
    drawn.Disjoint others := by
  intro label inFirst inSecond
  obtain ⟨one, _, upper, rfl⟩ := Supply.mem_labelsTo.mp (first inFirst)
  obtain ⟨other, lower, _, same⟩ := Supply.mem_labelsTo.mp (second inSecond)
  have equal := Label.numbered_injective same
  omega

theorem labelsTo_subset {supply middle final : Supply} (earlier : supply ≤ middle)
    (later : middle ≤ final) :
    supply.labelsTo middle ⊆ supply.labelsTo final ∧
      middle.labelsTo final ⊆ supply.labelsTo final := by
  rw [← Supply.labelsTo_append earlier later]
  exact ⟨List.subset_append_left _ _, List.subset_append_right _ _⟩

theorem runTasks_ok {tasks : List Task} (accepted : AllAccepted tasks)
    (layout : StackLayout) (supply : Supply) :
    ∃ results final, (runTasks layout tasks).run supply = .ok results final ∧ supply ≤ final ∧
      List.Forall₂ IsCodeOf (tasks.filterMap Task.resolved?) results ∧
      (∀ fragments ∈ results, WellLabelled fragments ∧
        generatedLabels fragments ⊆ supply.labelsTo final) ∧
      results.Pairwise ShareNoLabel := by
  induction tasks generalizing layout supply with
  | nil => exact ⟨[], supply, rfl, le_refl _, .nil, by simp, .nil⟩
  | cons task rest ih =>
      have restAccepted : AllAccepted rest := fun resolved member =>
        accepted resolved (List.mem_cons_of_mem _ member)
      cases task with
      | reserve wordSize =>
          obtain ⟨results, final, done, supplyLe, others⟩ :=
            ih restAccepted (StackLayout.reserved wordSize supply) supply.afterTemp.afterTemp
          refine ⟨results, final, ?_, ?_, others⟩
          · rw [runTasks, LowerM.run_bind_of_ok (LowerM.run_draw _ _)]
            exact done
          · exact (Supply.le_afterTemp _).trans ((Supply.le_afterTemp _).trans supplyLe)
      | lower resolved =>
          obtain ⟨program, queue, resolves⟩ := accepted resolved List.mem_cons_self
          obtain ⟨wellScoped, rfl⟩ := wellScoped_of_resolve resolves
          obtain ⟨fragments, middle, lowers⟩ := lowerProgram_stack_ok wellScoped layout supply
          have lowered := programTo_of_run lowers
          obtain ⟨results, final, done, restLe, codes, good, apart⟩ :=
            ih restAccepted layout middle
          -- The names of this program are drawn before those of all later ones.
          have generated := lowered.generated_perm.subset
          have parts := labelsTo_subset lowered.supply_le restLe
          refine ⟨fragments :: results, final, ?_, lowered.supply_le.trans restLe,
            .cons ⟨layout, supply, middle, lowers⟩ codes, ?_, ?_⟩
          · rw [runTasks, LowerM.run_bind_of_ok lowers, LowerM.run_bind_of_ok done,
              LowerM.run_pure]
          · refine List.forall_mem_cons.mpr ⟨⟨wellLabelled_of_programTo wellScoped lowered,
              List.Subset.trans generated parts.1⟩, ?_⟩
            intro others member
            exact ⟨(good others member).1, List.Subset.trans (good others member).2 parts.2⟩
          · refine List.pairwise_cons.mpr ⟨?_, apart⟩
            intro others member
            exact disjoint_labelsTo generated (good others member).2

theorem session_wellLabelled {tasks : List Task} (accepted : AllAccepted tasks)
    (layout : StackLayout) (supply : Supply) :
    ∃ results final, (runTasks layout tasks).run supply = .ok results final ∧
      List.Forall₂ IsCodeOf (tasks.filterMap Task.resolved?) results ∧
      (∀ fragments ∈ results, WellLabelled fragments) ∧ results.Pairwise ShareNoLabel := by
  obtain ⟨results, final, done, _, codes, good, apart⟩ := runTasks_ok accepted layout supply
  exact ⟨results, final, done, codes, fun fragments member => (good fragments member).1, apart⟩

def nestedChoice : Program where
  -- The function is named like the first label of a supply.
  statements := [
    .assign { name := "x", value := .literal 3 },
    .declare {
      name := "L0"
      returnType := .integer
      params := [{ type := .integer, name := "a" }]
      body := []
      result := .conditional (.ident "a") (.conditional (.ident "a") (.literal 1) (.ident "a"))
        (.call "L0" [.literal 1]) }]
  print := { exp := .conditional (.call "L0" [.ident "x"]) (.ident "x") (.literal 0) }

def mixedTasks : List Task := [
  .reserve ⟨8, by decide, by decide⟩,
  .lower (resolution nestedChoice),
  .lower (resolution oneCall),
  .reserve ⟨4, by decide, by decide⟩,
  .lower (resolution nestedChoice)]

theorem session_wellLabelled_mixedTasks :
    AllAccepted mixedTasks ∧
      ∃ results final,
        (runTasks (StackLayout.reserved ⟨1, by decide, by decide⟩ {}) mixedTasks).run {} =
          .ok results final ∧
        List.Forall₂ IsCodeOf (mixedTasks.filterMap Task.resolved?) results ∧
        (∀ fragments ∈ results, WellLabelled fragments) ∧ results.Pairwise ShareNoLabel := by
  have accepted : AllAccepted mixedTasks := by
    intro resolved member
    simp only [mixedTasks, List.mem_cons, reduceCtorEq, Task.lower.injEq, List.not_mem_nil,
      false_or, or_false] at member
    rcases member with rfl | rfl | rfl
    · exact ⟨nestedChoice, {}, rfl⟩
    · exact ⟨oneCall, {}, rfl⟩
    · exact ⟨nestedChoice, {}, rfl⟩
  exact ⟨accepted, session_wellLabelled accepted _ _⟩

end Lower

end TreeCompiler
