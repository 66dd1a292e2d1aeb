import TreeCompiler.Proofs.Emissions

set_option autoImplicit false

namespace TreeCompiler

open Code Source Resolve

namespace Source

mutual

def Expr.terms : Expr → List Expr
  | .literal value span => [.literal value span]
  | .ident name span => [.ident name span]
  | .binary op left right span => .binary op left right span :: (left.terms ++ right.terms)
  | .negation operand span => .negation operand span :: operand.terms
  | .conditional guard thenBranch elseBranch span =>
      .conditional guard thenBranch elseBranch span ::
        (guard.terms ++ thenBranch.terms ++ elseBranch.terms)
  | .call callee args span => .call callee args span :: Expr.termsOfAll args

def Expr.termsOfAll : List Expr → List Expr
  | [] => []
  | first :: rest => first.terms ++ Expr.termsOfAll rest

end

def Expr.isConditional : Expr → Bool
  | .conditional .. => true
  | _ => false

def Expr.isComparison : Expr → Bool
  | .binary .lessThan .. => true
  | _ => false

def Expr.isCall : Expr → Bool
  | .call .. => true
  | _ => false

def termsOfValues (assigns : List Assign) : List Expr :=
  assigns.flatMap fun assign => assign.value.terms

def Declaration.terms (declaration : Declaration) : List Expr :=
  termsOfValues declaration.body ++ declaration.result.terms

def Stmt.terms : Stmt → List Expr
  | assign a => a.value.terms
  | declare d => d.terms

def localsOf (source : List Stmt) : Nat :=
  -- In a body a literal is given a temporary like any other value.
  (source.filterMap Stmt.assign?).countP (fun assign => !assign.value.isLiteral) +
    ((source.filterMap Stmt.declaration?).flatMap Declaration.body).length

def literalsOf (source : List Stmt) : Nat :=
  (source.filterMap Stmt.assign?).countP fun assign => assign.value.isLiteral

def declarationsOf (source : List Stmt) : Nat := (source.filterMap Stmt.declaration?).length

section Statements

variable {assign : Assign} (rest : List Stmt)

theorem counts_literal {value : Int64} {span : Span} (literal : assign.value = .literal value span) :
    localsOf (.assign assign :: rest) = localsOf rest ∧
      literalsOf (.assign assign :: rest) = literalsOf rest + 1 ∧
      declarationsOf (.assign assign :: rest) = declarationsOf rest := by
  simp [localsOf, literalsOf, declarationsOf, Stmt.assign?, Stmt.declaration?,
    List.filterMap_cons, literal, Expr.isLiteral]

theorem counts_computed (computed : assign.value.isLiteral = false) :
    localsOf (.assign assign :: rest) = localsOf rest + 1 ∧
      literalsOf (.assign assign :: rest) = literalsOf rest ∧
      declarationsOf (.assign assign :: rest) = declarationsOf rest := by
  simp [localsOf, literalsOf, declarationsOf, Stmt.assign?, Stmt.declaration?,
    List.filterMap_cons, computed, Nat.add_right_comm]

theorem counts_declare (declaration : Declaration) :
    localsOf (.declare declaration :: rest) = localsOf rest + declaration.body.length ∧
      literalsOf (.declare declaration :: rest) = literalsOf rest ∧
      declarationsOf (.declare declaration :: rest) = declarationsOf rest + 1 := by
  simp only [localsOf, literalsOf, declarationsOf, List.filterMap_cons, Stmt.assign?,
    Stmt.declaration?, List.flatMap_cons, List.length_append, List.length_cons, and_self, and_true]
  omega

end Statements

namespace Program

def terms (program : Program) : List Expr :=
  program.statements.flatMap Stmt.terms ++ program.print.exp.terms

def conditionals (program : Program) : Nat := program.terms.countP Expr.isConditional

def comparisons (program : Program) : Nat := program.terms.countP Expr.isComparison

def calls (program : Program) : Nat := program.terms.countP Expr.isCall

def literalAssigns (program : Program) : Nat :=
  program.assigns.countP fun assign => assign.value.isLiteral

def computedAssigns (program : Program) : Nat :=
  program.assigns.countP fun assign => !assign.value.isLiteral

def bodyAssigns (program : Program) : Nat :=
  (program.declarations.flatMap Declaration.body).length

end Program

end Source

namespace Code

inductive Kind
  | move | exp | jump | cjump | cmove | label | nop | call
  deriving DecidableEq

def Node.kind? : Node → Option Kind
  | .stm (.move ..) => some .move
  | .stm (.exp _) => some .exp
  | .stm (.jump _) => some .jump
  | .stm (.cjump ..) => some .cjump
  | .stm (.cmove ..) => some .cmove
  | .stm (.label _) => some .label
  | .stm .nop => some .nop
  -- A sequence only holds others together, and is not counted.
  | .stm (.seq ..) => none
  | .exp (.call ..) => some .call
  | .exp _ => none

def tally (kind : Kind) (nodes : List Node) : Nat :=
  nodes.countP fun node => node.kind? = some kind

def walk {F : Type} (fragments : List (Fragment F)) : List Node :=
  (procedures fragments).flatMap fun procedure => procedure.body.nodes

def Kind.count (kind other : Kind) : Nat := if other = kind then 1 else 0

variable {kind : Kind}

@[simp] theorem tally_nil : tally kind [] = 0 := rfl

@[simp] theorem tally_append (one other : List Node) :
    tally kind (one ++ other) = tally kind one + tally kind other :=
  List.countP_append

@[simp] theorem tally_cons (node : Node) (rest : List Node) :
    tally kind (node :: rest) = (node.kind?.map kind.count).getD 0 + tally kind rest := by
  rw [tally, List.countP_cons, Nat.add_comm]
  congr 1
  cases node.kind? <;> simp [Kind.count]

@[simp] theorem walk_nil {F : Type} : walk ([] : List (Fragment F)) = [] := rfl

@[simp] theorem walk_data {F : Type} (word : StaticData) (rest : List (Fragment F)) :
    walk (.data word :: rest) = walk rest := rfl

@[simp] theorem walk_procedure {F : Type} (procedure : Procedure F) (rest : List (Fragment F)) :
    walk (.procedure procedure :: rest) = procedure.body.nodes ++ walk rest := rfl

@[simp] theorem walk_append {F : Type} (one other : List (Fragment F)) :
    walk (one ++ other) = walk one ++ walk other := by
  simp [walk, procedures]

theorem Stm.tally_block {statements : List Stm} {last : Stm}
    (busy : ∀ statement ∈ statements, statement.isNop = false) (notNop : last ≠ nop) :
    block (statements ++ [last]) ≠ nop ∧
      tally kind (block (statements ++ [last])).nodes =
        tally kind (statements.flatMap nodes) + tally kind last.nodes := by
  -- Sequencing drops what does nothing, so a block is only split up as long as its rest is known to
  -- do something.
  induction statements with
  | nil => simpa using notNop
  | cons first rest ih =>
      obtain ⟨firstBusy, restBusy⟩ := List.forall_mem_cons.mp busy
      obtain ⟨restNotNop, counted⟩ := ih restBusy
      rw [List.cons_append, block_cons, followedBy_eq_seq firstBusy restNotNop]
      refine ⟨by simp, ?_⟩
      simp only [nodes, tally_cons, tally_append, counted, List.flatMap_cons, Node.kind?,
        Option.map_none, Option.getD_none]
      omega

namespace Kind

-- What a term adds to the code of its parts.
def perConditional (kind : Kind) : Nat :=
  kind.count .cjump + kind.count .jump + 3 * kind.count .label + 2 * kind.count .move

def perComparison (kind : Kind) : Nat := kind.count .cmove + kind.count .move

def weigh (kind : Kind) (terms : List Expr) : Nat :=
  kind.perConditional * terms.countP Expr.isConditional +
    kind.perComparison * terms.countP Expr.isComparison +
    kind.count .call * terms.countP Expr.isCall

@[simp] theorem weigh_append (one other : List Expr) :
    kind.weigh (one ++ other) = kind.weigh one + kind.weigh other := by
  simp only [weigh, List.countP_append, Nat.mul_add]
  omega

theorem weigh_cons (term : Expr) (rest : List Expr) :
    kind.weigh (term :: rest) = kind.weigh [term] + kind.weigh rest :=
  weigh_append [term] rest

variable (left right guard : Expr) (span : Span)

theorem weigh_comparison : kind.weigh [.binary .lessThan left right span] = kind.perComparison := by
  simp [weigh, Expr.isConditional, Expr.isComparison, Expr.isCall]

theorem weigh_conditional :
    kind.weigh [.conditional guard left right span] = kind.perConditional := by
  simp [weigh, Expr.isConditional, Expr.isComparison, Expr.isCall]

theorem weigh_call (callee : String) (args : List Expr) :
    kind.weigh [.call callee args span] = kind.count .call := by
  simp [weigh, Expr.isConditional, Expr.isComparison, Expr.isCall]

theorem weigh_negation : kind.weigh [.negation guard span] = 0 := rfl

theorem weigh_arithmetic {op : BinaryOp} {instruction : Arithmetic}
    (instructed : Lower.arithmetic? op = some instruction) :
    kind.weigh [.binary op left right span] = 0 := by
  cases op with
  | lessThan => cases instructed
  | plus | minus | times => rfl

end Kind

end Code

namespace Lower

variable {data : Label → Prop} {scope : Scope} (kind : Kind)

theorem Atom.tally_eq_zero {exp : Exp} (atom : Atom data exp) : tally kind exp.nodes = 0 := by
  cases atom with
  | data => simp [Exp.nodes, Node.kind?]
  | @place _ access => cases access <;> simp [Access.exp, Exp.nodes, Node.kind?]

theorem tally_comparison (left right : Exp) (result : Temp) :
    tally kind (Exp.eseq (comparison left right result) (.temp result)).nodes =
      kind.perComparison + tally kind left.nodes + tally kind right.nodes := by
  simp only [Exp.nodes, comparison, Stm.followedBy, Stm.nodes, tally_cons, tally_append, tally_nil,
    Node.kind?, Option.map_none, Option.getD_none, Option.map_some, Option.getD_some,
    Kind.perComparison]
  omega

theorem tally_diamond (joints : Joints) (guard thenExp elseExp : Exp) (truth : Int64)
    (result : Temp) :
    tally kind (Exp.eseq
      (diamond joints (.cjump .equal guard (.const truth) joints.thenLabel joints.elseLabel)
        thenExp elseExp result)
      (.temp result)).nodes =
    kind.perConditional + tally kind guard.nodes + tally kind thenExp.nodes +
      tally kind elseExp.nodes := by
  simp only [Exp.nodes, diamond, Stm.block_cons, Stm.block_nil, Stm.followedBy, Stm.nodes,
    tally_cons, tally_append, tally_nil, Node.kind?, Option.map_none, Option.getD_none,
    Option.map_some, Option.getD_some, Kind.perConditional]
  omega

mutual

theorem LowersTo.tally_eq (atomic : scope.Atomic data) {expr : Expr} {supply final : Supply}
    {exp : Exp} (lowered : LowersTo scope expr supply exp final) :
    tally kind exp.nodes = kind.weigh expr.terms := by
  cases lowered with
  | literal => rfl
  | ident bound => exact (atomic _ _ bound).tally_eq_zero kind
  | arithmetic instructed leftLowered rightLowered =>
      rw [Expr.terms, Kind.weigh_cons, Kind.weigh_arithmetic _ _ _ instructed, Kind.weigh_append,
        ← leftLowered.tally_eq atomic, ← rightLowered.tally_eq atomic, Exp.nodes]
      simp [Node.kind?]
  | comparison leftLowered rightLowered =>
      rw [Expr.terms, Kind.weigh_cons, Kind.weigh_comparison, Kind.weigh_append,
        ← leftLowered.tally_eq atomic, ← rightLowered.tally_eq atomic, tally_comparison,
        Nat.add_assoc]
  | negation operandLowered =>
      rw [Expr.terms, Kind.weigh_cons, Kind.weigh_negation, ← operandLowered.tally_eq atomic,
        Exp.nodes]
      simp [Exp.nodes, Node.kind?]
  | conditional guardLowered thenLowered elseLowered =>
      rw [Expr.terms, Kind.weigh_cons, Kind.weigh_conditional, Kind.weigh_append,
        Kind.weigh_append, ← guardLowered.tally_eq atomic, ← thenLowered.tally_eq atomic,
        ← elseLowered.tally_eq atomic, tally_diamond, Nat.add_assoc, Nat.add_assoc, Nat.add_assoc]
  | call _ argsLowered =>
      rw [Expr.terms, Kind.weigh_cons, Kind.weigh_call, ← argsLowered.tally_eq atomic, Exp.nodes]
      simp [Node.kind?]

theorem LowersAllTo.tally_eq (atomic : scope.Atomic data) {exprs : List Expr}
    {supply final : Supply} {exps : List Exp}
    (lowered : LowersAllTo scope exprs supply exps final) :
    tally kind (Exp.nodesOfAll exps) = kind.weigh (Expr.termsOfAll exprs) := by
  cases lowered with
  | nil => rfl
  | cons firstLowered restLowered =>
      rw [Exp.nodesOfAll, Expr.termsOfAll, tally_append, Kind.weigh_append,
        firstLowered.tally_eq atomic, restLowered.tally_eq atomic]

end

section Procedures

variable {functions : FunctionTable} {layout : StackLayout} {supply final : Supply}
  {context last : Context StackFrame}

theorem tally_move (temp : Temp) (source : Exp) :
    tally kind (Stm.move (.temp temp) source).nodes =
      kind.count .move + tally kind source.nodes := by
  simp [Stm.nodes, Exp.nodes, Node.kind?]

theorem AssignsTo.tally_eq {assigns : List Assign} {statements : List Stm}
    (lowered : AssignsTo functions context assigns supply last statements final)
    (names : context.NamesData data) :
    tally kind (statements.flatMap Stm.nodes) =
      kind.count .move * assigns.length + kind.weigh (termsOfValues assigns) := by
  induction lowered with
  | nil => rfl
  | cons valueLowered _ ih =>
      have value := valueLowered.tally_eq kind (names.atomic functions)
      have rest := ih (names.bindLocal _ _)
      simp only [List.flatMap_cons, tally_append, tally_move, value, rest, termsOfValues,
        Kind.weigh_append, List.length_cons, Nat.mul_succ]
      omega

theorem DeclaresTo.tally_eq {outer : Bindings Access} {declaration : Declaration}
    {procedure : Procedure StackFrame}
    (lowered : DeclaresTo functions layout outer declaration supply procedure final) :
    tally kind procedure.body.nodes =
      kind.count .move * (declaration.body.length + 1) + kind.weigh declaration.terms := by
  obtain ⟨_, bodyLowered, resultLowered⟩ := lowered
  have names := Context.namesData_of_empty (fun _ => False)
  have lastNames := bodyLowered.namesData (names _ _)
  have body := bodyLowered.tally_eq kind (names _ _)
  have result := resultLowered.tally_eq kind (lastNames.atomic functions)
  have busy := (bodyLowered.threadTo resultLowered).busy
  rw [(Stm.tally_block busy (by simp)).2, tally_move, body, result, Declaration.terms,
    Kind.weigh_append, Nat.mul_succ]
  omega

theorem StatementsTo.tally_eq {source : List Stmt} {statements : List Stm}
    {fragments : List (Fragment StackFrame)}
    (lowered :
      StatementsTo functions layout context source supply last statements fragments final)
    (names : context.NamesData fun _ => True) :
    tally kind ((statements.filter fun statement => !statement.isNop).flatMap Stm.nodes) +
        tally kind (walk fragments) =
      kind.count .move * (localsOf source + declarationsOf source) +
        kind.weigh (source.flatMap Stmt.terms) := by
  -- The order of the two is lost in the source, so fragments and statements are counted together.
  induction lowered with
  | nil => rfl
  | @literal _ _ value rest _ _ _ _ _ found _ ih =>
      have others := ih (names.bindConstant _ trivial)
      obtain ⟨span, literal⟩ := Expr.literal?_eq_some found
      obtain ⟨locals, _, declarations⟩ := counts_literal rest literal
      have none : kind.weigh [.literal value span] = 0 := rfl
      rw [locals, declarations, List.flatMap_cons, Stmt.terms, literal, Expr.terms,
        Kind.weigh_append, none, walk_data, Nat.zero_add]
      exact others
  | @assign _ _ rest _ _ _ _ _ _ _ missing valueLowered _ ih =>
      have value := valueLowered.tally_eq kind (names.atomic functions)
      have others := ih (names.bindLocal _ _)
      have computed := Expr.literal?_eq_none missing
      obtain ⟨locals, _, declarations⟩ := counts_computed rest computed
      rw [List.filter_cons_of_pos (by rfl), List.flatMap_cons, tally_append, tally_move, value,
        locals, declarations, List.flatMap_cons, Stmt.terms, Kind.weigh_append]
      simp only [Nat.mul_add, Nat.mul_one] at others ⊢
      omega
  | @declare _ declaration rest _ _ _ _ _ _ _ declared _ ih =>
      have others := ih names
      -- The procedure has a move for its result as well.
      obtain ⟨locals, _, declarations⟩ := counts_declare rest declaration
      rw [List.filter_cons_of_neg (by simp [Stm.isNop]), walk_procedure, tally_append,
        declared.tally_eq kind, locals, declarations, List.flatMap_cons, Stmt.terms,
        Kind.weigh_append]
      simp only [Nat.mul_add, Nat.mul_one] at others ⊢
      omega

theorem ProgramTo.tally_eq {resolved : Resolved} {fragments : List (Fragment StackFrame)}
    (lowered : ProgramTo layout resolved supply fragments final) :
    tally kind (walk fragments) =
      kind.count .move *
          (localsOf resolved.program.statements + declarationsOf resolved.program.statements) +
        kind.weigh resolved.program.terms + kind.count .exp + kind.count .call := by
  obtain @⟨_, statements, fragments, _, exp, _, statementsLowered, printLowered⟩ := lowered
  have names := Context.namesData_of_empty (fun _ => True) (layout.frame Label.main 0) .empty
  have lastNames := statementsLowered.namesData names (fun _ _ => trivial)
  have parts := statementsLowered.tally_eq kind names
  have printed := printLowered.tally_eq kind (lastNames.atomic _)
  have busy := (statementsLowered.threadTo printLowered).busy
  have main : tally kind (Stm.block (statements ++ [.exp (.call Label.print [exp])])).nodes =
      tally kind ((statements.filter fun statement => !statement.isNop).flatMap Stm.nodes) +
        (kind.count .exp + kind.count .call + tally kind exp.nodes) := by
    rw [← Stm.block_filter_append, (Stm.tally_block busy (by simp)).2]
    simp [Stm.nodes, Exp.nodes, Exp.nodesOfAll, Node.kind?, Nat.add_assoc]
  rw [walk_append, tally_append, walk_procedure, tally_append, main, walk_nil, tally_nil, printed,
    Program.terms, Kind.weigh_append]
  omega

end Procedures

section Draws

def drawnBy (terms : List Expr) : Supply where
  temps := terms.countP Expr.isComparison + terms.countP Expr.isConditional
  labels := 3 * terms.countP Expr.isConditional

theorem drawnBy_append (one other : List Expr) :
    drawnBy (one ++ other) = drawnBy one + drawnBy other := by
  change Supply.mk _ _ = Supply.mk _ _
  simp only [drawnBy, List.countP_append, Supply.mk.injEq]
  omega

theorem drawnBy_cons (term : Expr) (rest : List Expr) :
    drawnBy (term :: rest) = drawnBy [term] + drawnBy rest :=
  drawnBy_append [term] rest

theorem drawnBy_binary (op : BinaryOp) (left right : Expr) (span : Span) :
    drawnBy [.binary op left right span] = { temps := if op = .lessThan then 1 else 0 } := by
  cases op <;> rfl

mutual

theorem drawn_eq : (expr : Expr) → expr.drawn = drawnBy expr.terms
  | .literal _ _ => rfl
  | .ident _ _ => rfl
  | .binary op left right span => by
      rw [Expr.drawn, Expr.terms, drawnBy_cons, drawnBy_append, drawnBy_binary, drawn_eq left,
        drawn_eq right, ← Supply.add_assoc, Supply.add_comm]
  | .negation operand span => by
      rw [Expr.drawn, Expr.terms, drawnBy_cons, drawn_eq operand]
      exact (Supply.zero_add _).symm
  | .conditional guard thenBranch elseBranch span => by
      rw [Expr.drawn, Expr.terms, drawnBy_cons, drawnBy_append, drawnBy_append, drawn_eq guard,
        drawn_eq thenBranch, drawn_eq elseBranch, Supply.add_assoc]
      rfl
  | .call callee args span => by
      rw [Expr.drawn, Expr.terms, drawnBy_cons, drawnForAll_eq args]
      exact (Supply.zero_add _).symm

theorem drawnForAll_eq : (exprs : List Expr) →
    Expr.drawnForAll exprs = drawnBy (Expr.termsOfAll exprs)
  | [] => rfl
  | first :: rest => by
      rw [Expr.drawnForAll, Expr.termsOfAll, drawnBy_append, drawn_eq first, drawnForAll_eq rest]

end

variable {functions : FunctionTable} {layout : StackLayout} {supply final : Supply}
  {context last : Context StackFrame}

theorem LowersTo.draws {scope : Scope} {expr : Expr} {exp : Exp}
    (lowered : LowersTo scope expr supply exp final) :
    final.temps = supply.temps + (drawnBy expr.terms).temps ∧
      final.labels = supply.labels + (drawnBy expr.terms).labels := by
  rw [lowered.final_eq, drawn_eq]
  exact ⟨rfl, rfl⟩

theorem AssignsTo.draws {assigns : List Assign} {statements : List Stm}
    (lowered : AssignsTo functions context assigns supply last statements final) :
    final.temps = supply.temps + assigns.length + (drawnBy (termsOfValues assigns)).temps ∧
      final.labels = supply.labels + (drawnBy (termsOfValues assigns)).labels := by
  induction lowered with
  | nil => exact ⟨rfl, rfl⟩
  | cons valueLowered _ ih =>
      obtain ⟨valueTemps, valueLabels⟩ := valueLowered.draws
      rw [Supply.temps_afterTemp, Supply.labels_afterTemp] at ih
      rw [termsOfValues, List.flatMap_cons, drawnBy_append, List.length_cons, Supply.temps_add,
        Supply.labels_add, ← termsOfValues]
      omega

theorem DeclaresTo.draws {outer : Bindings Access} {declaration : Declaration}
    {procedure : Procedure StackFrame}
    (lowered : DeclaresTo functions layout outer declaration supply procedure final) :
    final.temps = supply.temps + declaration.body.length + (drawnBy declaration.terms).temps ∧
      final.labels = supply.labels + (drawnBy declaration.terms).labels := by
  obtain ⟨_, bodyLowered, resultLowered⟩ := lowered
  have body := bodyLowered.draws
  have result := resultLowered.draws
  rw [Declaration.terms, drawnBy_append, Supply.temps_add, Supply.labels_add]
  omega

theorem StatementsTo.draws {source : List Stmt} {statements : List Stm}
    {fragments : List (Fragment StackFrame)}
    (lowered :
      StatementsTo functions layout context source supply last statements fragments final) :
    final.temps =
        supply.temps + localsOf source + (drawnBy (source.flatMap Stmt.terms)).temps ∧
      final.labels =
        supply.labels + literalsOf source + (drawnBy (source.flatMap Stmt.terms)).labels := by
  induction lowered with
  | nil => exact ⟨rfl, rfl⟩
  | @literal _ _ value rest _ _ _ _ _ found _ ih =>
      obtain ⟨span, literal⟩ := Expr.literal?_eq_some found
      have counts := counts_literal rest literal
      have none : drawnBy [.literal value span] = {} := rfl
      rw [Supply.temps_afterLabel, Supply.labels_afterLabel] at ih
      rw [List.flatMap_cons, Stmt.terms, literal, Expr.terms, drawnBy_append, none, Supply.zero_add]
      omega
  | @assign _ _ rest _ _ _ _ _ _ _ missing valueLowered _ ih =>
      have counts := counts_computed rest (Expr.literal?_eq_none missing)
      have value := valueLowered.draws
      rw [Supply.temps_afterTemp, Supply.labels_afterTemp] at ih
      rw [List.flatMap_cons, Stmt.terms, drawnBy_append, Supply.temps_add, Supply.labels_add]
      omega
  | @declare _ declaration rest _ _ _ _ _ _ _ declared _ ih =>
      have counts := counts_declare rest declaration
      have procedure := declared.draws
      rw [List.flatMap_cons, Stmt.terms, drawnBy_append, Supply.temps_add, Supply.labels_add]
      omega

end Draws

section Programs

variable {layout : StackLayout} {supply final : Supply} {resolved : Resolved}
  {fragments : List (Fragment StackFrame)}

/-- How many nodes of each kind the procedures of a program have, by what the program is made of. -/
structure Census (program : Program) (fragments : List (Fragment StackFrame)) : Prop where
  cjumps : tally .cjump (walk fragments) = program.conditionals
  jumps : tally .jump (walk fragments) = program.conditionals
  labels : tally .label (walk fragments) = 3 * program.conditionals
  cmoves : tally .cmove (walk fragments) = program.comparisons
  moves : tally .move (walk fragments) =
    program.computedAssigns + program.bodyAssigns + program.declarations.length +
      program.comparisons + 2 * program.conditionals
  exps : tally .exp (walk fragments) = 1
  nops : tally .nop (walk fragments) = 0
  calls : tally .call (walk fragments) = program.calls + 1

theorem ProgramTo.census (lowered : ProgramTo layout resolved supply fragments final) :
    Census resolved.program fragments := by
  have locals : localsOf resolved.program.statements =
      resolved.program.computedAssigns + resolved.program.bodyAssigns := rfl
  have declarations : declarationsOf resolved.program.statements =
      resolved.program.declarations.length := rfl
  have weighed (kind : Kind) : kind.weigh resolved.program.terms =
      kind.perConditional * resolved.program.conditionals +
        kind.perComparison * resolved.program.comparisons +
        kind.count .call * resolved.program.calls := rfl
  constructor
  all_goals
    rw [lowered.tally_eq, locals, declarations, weighed]
    simp [Kind.perConditional, Kind.perComparison, Kind.count]
  omega

theorem ProgramTo.draws (lowered : ProgramTo layout resolved supply fragments final) :
    final.temps = supply.temps + (resolved.program.computedAssigns + resolved.program.bodyAssigns +
        resolved.program.comparisons + resolved.program.conditionals) ∧
      final.labels = supply.labels +
        (resolved.program.literalAssigns + 3 * resolved.program.conditionals) := by
  obtain ⟨statementsLowered, printLowered⟩ := lowered
  have statements := statementsLowered.draws
  have print := printLowered.draws
  have terms := drawnBy_append (resolved.program.statements.flatMap Stmt.terms)
    resolved.program.print.exp.terms
  have temps : resolved.program.comparisons + resolved.program.conditionals = _ :=
    congrArg Supply.temps terms
  have labels : 3 * resolved.program.conditionals = _ := congrArg Supply.labels terms
  have locals : localsOf resolved.program.statements =
      resolved.program.computedAssigns + resolved.program.bodyAssigns := rfl
  have literals : literalsOf resolved.program.statements = resolved.program.literalAssigns := rfl
  rw [Supply.temps_add] at temps
  rw [Supply.labels_add] at labels
  omega

end Programs

theorem lowerProgram_census {program : Program} {queue : Diagnostic.Queue} {resolved : Resolved}
    (accepted : (resolve program queue).1 = .ok resolved) (layout : StackLayout)
    (supply : Supply) :
    ∃ fragments final, (lowerProgram layout.maker resolved).run supply = .ok fragments final ∧
      Census program fragments ∧
      final.temps = supply.temps + (program.computedAssigns + program.bodyAssigns +
        program.comparisons + program.conditionals) ∧
      final.labels = supply.labels + (program.literalAssigns + 3 * program.conditionals) := by
  obtain ⟨wellScoped, rfl⟩ := wellScoped_of_resolve accepted
  obtain ⟨fragments, final, done⟩ := lowerProgram_stack_ok wellScoped layout supply
  have lowered := programTo_of_run done
  exact ⟨fragments, final, done, lowered.census, lowered.draws⟩

theorem lowerProgram_census_rebinding :
    let wordSize : WordSize := ⟨8, by decide, by decide⟩
    let (layout, supply) := (StackLayout.reserve wordSize).run {}
    (resolve rebinding {}).1 = .ok (resolution rebinding) ∧
      ∃ fragments final,
        (lowerProgram layout.maker (resolution rebinding)).run supply = .ok fragments final ∧
        Census rebinding fragments ∧ final.temps = supply.temps + 7 ∧
        final.labels = supply.labels + 7 := by
  intro wordSize
  have accepted : (resolve rebinding {}).1 = .ok (resolution rebinding) := rfl
  exact ⟨accepted, lowerProgram_census accepted _ _⟩

end Lower

end TreeCompiler
