import Mathlib.Logic.Equiv.Basic
import TreeCompiler.Proofs.SourceOutline
import TreeCompiler.Proofs.Totality

set_option autoImplicit false

namespace TreeCompiler

open Code Source Resolve

namespace LowerM

variable {α β γ δ : Type} {related : α → β → Prop} {relatedAfter : γ → δ → Prop}

inductive SameOutcome (related : α → β → Prop) :
    EStateM.Result LowerError Supply α → EStateM.Result LowerError Supply β → Prop
  | ok {value value' final} (values : related value value') :
      SameOutcome related (.ok value final) (.ok value' final)
  | error {error final} : SameOutcome related (.error error final) (.error error final)

def Agree (related : α → β → Prop) (action : LowerM α) (action' : LowerM β) : Prop :=
  ∀ supply, SameOutcome related (action.run supply) (action'.run supply)

namespace Agree

theorem pure {value : α} {value' : β} (values : related value value') :
    Agree related (Pure.pure value : LowerM α) (Pure.pure value' : LowerM β) :=
  fun _ => .ok values

theorem bind {action : LowerM α} {action' : LowerM β} {next : α → LowerM γ} {next' : β → LowerM δ}
    (first : Agree related action action')
    (second : ∀ value value', related value value' →
      Agree relatedAfter (next value) (next' value')) :
    Agree relatedAfter (action >>= next) (action' >>= next') := by
  intro supply
  have outcome := first supply
  generalize run : action.run supply = result at outcome
  generalize run' : action'.run supply = result' at outcome
  cases outcome with
  | ok values =>
      rw [run_bind_of_ok run, run_bind_of_ok run']
      exact second _ _ values _
  | error =>
      rw [run_bind_of_error run, run_bind_of_error run']
      exact .error

theorem imp {action : LowerM α} {action' : LowerM β} {weaker : α → β → Prop}
    (agree : Agree related action action')
    (implies : ∀ value value', related value value' → weaker value value') :
    Agree weaker action action' := by
  intro supply
  have outcome := agree supply
  generalize action.run supply = result at outcome ⊢
  generalize action'.run supply = result' at outcome ⊢
  cases outcome with
  | ok values => exact .ok (implies _ _ values)
  | error => exact .error

theorem refl (action : LowerM α) : Agree Eq action action := by
  intro supply
  cases action.run supply with
  | ok value final => exact .ok rfl
  | error error final => exact .error

theorem bind_same {action : LowerM α} {next : α → LowerM γ} {next' : α → LowerM δ}
    (second : ∀ value, Agree relatedAfter (next value) (next' value)) :
    Agree relatedAfter (action >>= next) (action >>= next') := by
  apply (refl action).bind
  rintro value _ rfl
  exact second value

theorem run_eq {action action' : LowerM α} (agree : Agree Eq action action') (supply : Supply) :
    action.run supply = action'.run supply := by
  have outcome := agree supply
  generalize action.run supply = result at outcome
  generalize action'.run supply = result' at outcome
  cases outcome with
  | ok values => rw [values]
  | error => rfl

end Agree

end LowerM

namespace Lower

open LowerM

def Scope.Gives (rename : String → String) (scope scope' : Scope) (name : String) : Prop :=
  ∃ exp, scope.value? name = some exp ∧ scope'.value? (rename name) = some exp

variable {scope scope' : Scope} {rename : String → String}

mutual

theorem lowerExpr_outline : (expr : Expr) →
    (∀ name ∈ expr.identifiers, scope.Gives rename scope' name) →
    (∀ callee ∈ expr.callees, scope.declares callee ∧ scope'.declares callee) →
      lowerExpr scope' (expr.outline rename) = lowerExpr scope expr
  | .literal _ _, _, _ => by simp only [Expr.outline, lowerExpr]
  | .ident name _, gives, _ => by
      obtain ⟨exp, found, found'⟩ := gives name List.mem_cons_self
      simp only [Expr.outline, lowerExpr, found, found']
  | .binary op left right _, gives, declared => by
      simp only [Expr.identifiers, Expr.callees, List.forall_mem_append] at gives declared
      simp only [Expr.outline, lowerExpr, lowerExpr_outline left gives.1 declared.1,
        lowerExpr_outline right gives.2 declared.2]
  | .negation operand _, gives, declared => by
      simp only [Expr.outline, lowerExpr, lowerExpr_outline operand gives declared]
  | .conditional guard thenBranch elseBranch _, gives, declared => by
      simp only [Expr.identifiers, Expr.callees, List.forall_mem_append] at gives declared
      simp only [Expr.outline, lowerExpr, lowerExpr_outline guard gives.1.1 declared.1.1,
        lowerExpr_outline thenBranch gives.1.2 declared.1.2,
        lowerExpr_outline elseBranch gives.2 declared.2]
  | .call callee args _, gives, declared => by
      simp only [Expr.callees, List.forall_mem_cons] at declared
      simp only [Expr.outline, lowerExpr, declared.1.1, declared.1.2, if_true,
        lowerArgs_outline args gives declared.2]

theorem lowerArgs_outline : (exprs : List Expr) →
    (∀ name ∈ Expr.identifiersOfAll exprs, scope.Gives rename scope' name) →
    (∀ callee ∈ Expr.calleesOfAll exprs, scope.declares callee ∧ scope'.declares callee) →
      lowerArgs scope' (Expr.outlineAll rename exprs) = lowerArgs scope exprs
  | [], _, _ => by simp only [Expr.outlineAll, lowerArgs]
  | first :: rest, gives, declared => by
      simp only [Expr.identifiersOfAll, Expr.calleesOfAll, List.forall_mem_append] at gives declared
      simp only [Expr.outlineAll, lowerArgs, lowerExpr_outline first gives.1 declared.1,
        lowerArgs_outline rest gives.2 declared.2]

end

theorem lowerExpr_variant {expr expr' : Expr} (same : expr'.outline id = expr.outline rename)
    (gives : ∀ name ∈ expr.identifiers, scope.Gives rename scope' name)
    (declared : ∀ callee ∈ expr.callees, scope.declares callee ∧ scope'.declares callee) :
    lowerExpr scope' expr' = lowerExpr scope expr := by
  have identifiers : expr'.identifiers = expr.identifiers.map rename := by
    rw [← Expr.identifiers_outline rename expr, ← same, Expr.identifiers_outline, List.map_id]
  have callees : expr'.callees = expr.callees := callees_of_outline same
  -- The outline that keeps the names is lowered like the expression itself, in its own scope.
  have unchanged : lowerExpr scope' (expr'.outline id) = lowerExpr scope' expr' := by
    apply lowerExpr_outline
    · intro name occurs
      rw [identifiers] at occurs
      obtain ⟨source, member, rfl⟩ := List.mem_map.mp occurs
      obtain ⟨exp, _, found⟩ := gives source member
      exact ⟨exp, found, found⟩
    · intro callee called
      rw [callees] at called
      exact ⟨(declared callee called).2, (declared callee called).2⟩
  rw [← unchanged, same, lowerExpr_outline expr gives declared]

variable {F : Type} [Frame F] {functions functions' : FunctionTable} {maker : FrameMaker F}
  {context context' : Context F} {names : List String}

-- Two names of one side are two on the other as well, so a new binding hides no other.
theorem get?_insert_rename {α : Type} {bindings bindings' : Bindings α}
    (injective : Function.Injective rename)
    (same : ∀ name ∈ names, bindings'.get? (rename name) = bindings.get? name) (name : String)
    (value : α) : ∀ other ∈ name :: names,
      (bindings'.insert (rename name) value).get? (rename other) =
        (bindings.insert name value).get? other := by
  intro other member
  by_cases isNew : other = name
  · simp [isNew]
  · have before := same other ((List.mem_cons.mp member).resolve_left isNew)
    simpa [isNew, injective.ne isNew] using before

theorem get?_erase_rename {α : Type} {bindings bindings' : Bindings α}
    (injective : Function.Injective rename)
    (same : ∀ name ∈ names, bindings'.get? (rename name) = bindings.get? name) (name : String) :
    ∀ other ∈ name :: names,
      (bindings'.erase (rename name)).get? (rename other) = (bindings.erase name).get? other := by
  intro other member
  by_cases isGone : other = name
  · simp [isGone]
  · have before := same other ((List.mem_cons.mp member).resolve_left isGone)
    simpa [isGone, injective.ne isGone] using before

structure Context.Corresponds (rename : String → String) (names : List String)
    (context context' : Context F) : Prop where
  frame : context'.frame = context.frame
  locals : ∀ name ∈ names, context'.locals.get? (rename name) = context.locals.get? name
  constants : ∀ name ∈ names, context'.constants.get? (rename name) = context.constants.get? name
  known : context.Knows names

namespace Context.Corresponds

theorem of_mem {others : List String} (corresponds : context.Corresponds rename names context')
    (fewer : ∀ name ∈ others, name ∈ names) : context.Corresponds rename others context' where
  frame := corresponds.frame
  locals name member := corresponds.locals name (fewer name member)
  constants name member := corresponds.constants name (fewer name member)
  known name member := corresponds.known name (fewer name member)

theorem gives (corresponds : context.Corresponds rename names context') {name : String}
    (member : name ∈ names) :
    (context.scope functions).Gives rename (context'.scope functions') name := by
  obtain ⟨exp, found⟩ := Option.isSome_iff_exists.mp (corresponds.known name member)
  refine ⟨exp, found, ?_⟩
  rw [← found]
  simp only [Context.scope, Context.value?, corresponds.frame, corresponds.locals name member,
    corresponds.constants name member]

theorem lowerExpr_eq (corresponds : context.Corresponds rename names context')
    (tables : functions'.contains = functions.contains) {expr expr' : Expr}
    (same : expr'.outline id = expr.outline rename)
    (bound : ∀ name ∈ expr.identifiers, name ∈ names)
    (declared : ∀ callee ∈ expr.callees, functions.contains callee) :
    lowerExpr (context'.scope functions') expr' = lowerExpr (context.scope functions) expr := by
  refine lowerExpr_variant same (fun name occurs => corresponds.gives (bound name occurs)) ?_
  intro callee called
  have isDeclared := declared callee called
  exact ⟨isDeclared, by rw [Context.scope, tables]; exact isDeclared⟩

variable (injective : Function.Injective rename)

include injective

theorem bindLocal (corresponds : context.Corresponds rename names context') (frame : F)
    (name : String) (access : Access) :
    Context.Corresponds rename (name :: names)
      (({ context with frame } : Context F).bindLocal name access)
      (({ context' with frame } : Context F).bindLocal (rename name) access) where
  frame := rfl
  locals := get?_insert_rename injective corresponds.locals name access
  constants := get?_erase_rename injective corresponds.constants name
  known := corresponds.known.bindLocal frame name access

theorem bindConstant (corresponds : context.Corresponds rename names context') (name : String)
    (exp : Exp) :
    Context.Corresponds rename (name :: names) (context.bindConstant name exp)
      (context'.bindConstant (rename name) exp) where
  frame := corresponds.frame
  locals := get?_erase_rename injective corresponds.locals name
  constants := get?_insert_rename injective corresponds.constants name exp
  known := corresponds.known.bindConstant name exp

end Context.Corresponds

section Assigns

variable (injective : Function.Injective rename)
  (tables : functions'.contains = functions.contains)

include injective tables

theorem lowerAssign_agree (corresponds : context.Corresponds rename names context')
    {assign assign' : Assign} (same : assign'.outline id = assign.outline rename)
    (bound : ∀ name ∈ assign.value.identifiers, name ∈ names)
    (declared : ∀ callee ∈ assign.value.callees, functions.contains callee) :
    Agree (fun one other => one.1.Corresponds rename (assign.name :: names) other.1 ∧
        other.2 = one.2)
      (lowerAssign functions context assign) (lowerAssign functions' context' assign') := by
  have sameName : assign'.name = rename assign.name := congrArg Assign.name same
  have sameValue : assign'.value.outline id = assign.value.outline rename :=
    congrArg Assign.value same
  rw [lowerAssign, lowerAssign, corresponds.lowerExpr_eq tables sameValue bound declared,
    corresponds.frame, sameName]
  refine .bind_same fun lowered => .bind_same fun value => .bind_same fun drawn => .pure ?_
  exact ⟨corresponds.bindLocal injective drawn.2 assign.name drawn.1, rfl⟩

theorem lowerAssigns_agree (corresponds : context.Corresponds rename names context')
    {assigns assigns' : List Assign}
    (same : assigns'.map (Assign.outline id) = assigns.map (Assign.outline rename))
    (bound : BoundInOrder names assigns)
    (declared : ∀ callee ∈ assigns.flatMap (fun assign => assign.value.callees),
      functions.contains callee) :
    Agree (fun one other =>
        one.1.Corresponds rename (names ++ assigns.map Assign.name) other.1 ∧ other.2 = one.2)
      (lowerAssigns functions context assigns) (lowerAssigns functions' context' assigns') := by
  induction assigns generalizing context context' names assigns' with
  | nil =>
      cases List.map_eq_nil_iff.mp same
      refine .pure ⟨?_, rfl⟩
      simpa using corresponds
  | cons assign rest ih =>
      cases assigns' with
      | nil => cases same
      | cons assign' rest' =>
          rw [List.map_cons, List.map_cons, List.cons.injEq] at same
          rw [boundInOrder_cons] at bound
          simp only [List.flatMap_cons, List.forall_mem_append] at declared
          rw [lowerAssigns, lowerAssigns]
          refine (lowerAssign_agree injective tables corresponds same.1 bound.1 declared.1).bind ?_
          rintro ⟨next, lowered⟩ ⟨next', _⟩ ⟨nextCorresponds, rfl⟩
          refine (ih nextCorresponds same.2 bound.2 declared.2).bind ?_
          rintro ⟨last, statements⟩ ⟨last', _⟩ ⟨lastCorresponds, rfl⟩
          exact .pure ⟨lastCorresponds.of_mem fun name => mem_names_cons.mp, rfl⟩

end Assigns

def SameBindings (rename : String → String) (names : List String)
    (bindings bindings' : Bindings Access) : Prop :=
  ∀ name ∈ names, bindings'.get? (rename name) = bindings.get? name ∧ bindings.contains name

theorem SameBindings.insert {bindings bindings' : Bindings Access}
    (injective : Function.Injective rename) (same : SameBindings rename names bindings bindings')
    (name : String) (access : Access) :
    SameBindings rename (name :: names) (bindings.insert name access)
      (bindings'.insert (rename name) access) := by
  have places := get?_insert_rename injective (fun other isOld => (same other isOld).1) name access
  intro other member
  refine ⟨places other member, ?_⟩
  rw [Bindings.contains_insert]
  exact (List.mem_cons.mp member).imp_right fun isOld => (same other isOld).2

theorem bindFormals_agree (injective : Function.Injective rename) (function : String) (index : Nat)
    {bindings bindings' : Bindings Access} {params params' : List Param}
    (sameParams : params'.map Param.name = (params.map Param.name).map rename)
    (formals : List Access) (same : SameBindings rename names bindings bindings') :
    Agree (SameBindings rename (params.map Param.name ++ names))
      (LowerM.ofExcept (bindFormals function index bindings params formals))
      (LowerM.ofExcept (bindFormals function index bindings' params' formals)) := by
  induction params generalizing params' index bindings bindings' formals names with
  | nil =>
      cases List.map_eq_nil_iff.mp sameParams
      exact .pure same
  | cons param rest ih =>
      cases params' with
      | nil => cases sameParams
      | cons param' rest' =>
          rw [List.map_cons, List.map_cons, List.map_cons, List.cons.injEq] at sameParams
          cases formals with
          | nil => exact fun _ => .error
          | cons formal others =>
              have next := same.insert injective param.name formal
              rw [← sameParams.1] at next
              refine (ih (index + 1) sameParams.2 others next).imp fun bound bound' held => ?_
              intro name member
              apply held
              simp only [List.map_cons, List.cons_append, List.mem_append,
                List.mem_cons] at member ⊢
              tauto

theorem SameBindings.corresponds {formals formals' : Bindings Access}
    (same : SameBindings rename names formals formals') (frame : F)
    (outer outer' : Bindings Access) :
    Context.Corresponds rename names ({ frame, locals := formals.overlay outer } : Context F)
      { frame, locals := formals'.overlay outer' } where
  frame := rfl
  locals name member := by
    obtain ⟨sameAccess, bound⟩ := same name member
    obtain ⟨access, found⟩ := Option.isSome_iff_exists.mp bound
    simp [sameAccess, found]
  constants name member := rfl
  known name member := by
    obtain ⟨access, found⟩ := Option.isSome_iff_exists.mp (same name member).2
    simp [Context.value?, found]

theorem lowerDeclaration_agree (tables : functions'.contains = functions.contains)
    {declaration declaration' : Declaration} (variant : declaration.Variant declaration')
    (wellScoped : declaration.WellScoped)
    (declared : ∀ callee ∈ declaration.callees, functions.contains callee)
    (outer outer' : Bindings Access) :
    Agree Eq (lowerDeclaration functions maker outer declaration)
      (lowerDeclaration functions' maker outer' declaration') := by
  have sameName := variant.name_eq
  obtain ⟨rename, injective, same⟩ := variant
  have sameParams : declaration'.paramNames = declaration.paramNames.map rename := by
    rw [← declaration.paramNames_outline rename, ← same, Declaration.paramNames_outline,
      List.map_id]
  have sameBody : declaration'.body.map (Assign.outline id) =
      declaration.body.map (Assign.outline rename) := congrArg Declaration.body same
  have sameResult : declaration'.result.outline id = declaration.result.outline rename :=
    congrArg Declaration.result same
  have sameLength : declaration'.params.length = declaration.params.length := by
    simpa [Declaration.paramNames] using congrArg List.length sameParams
  simp only [Declaration.callees, List.forall_mem_append] at declared
  rw [lowerDeclaration, lowerDeclaration, sameName, sameLength]
  refine .bind_same fun frame => ?_
  have nothing : SameBindings rename [] Bindings.empty Bindings.empty := by
    simp [SameBindings]
  have sameFormals :=
    bindFormals_agree injective declaration.name 0 sameParams (Frame.formals frame) nothing
  refine sameFormals.bind fun formals formals' bound => ?_
  rw [List.append_nil] at bound
  -- The bindings around the two declarations need not agree: the parameters go before them, and
  -- nothing else is looked up.
  have start := bound.corresponds frame outer outer'
  refine (lowerAssigns_agree injective tables start sameBody wellScoped.body declared.1).bind ?_
  rintro ⟨context, statements⟩ ⟨context', _⟩ ⟨corresponds, rfl⟩
  have result := corresponds.lowerExpr_eq tables sameResult
    (fun name occurs => List.mem_append.mpr (wellScoped.result name occurs)) declared.2
  have sameFrame : context'.frame = context.frame := corresponds.frame
  simp only [result, sameFrame]
  exact .refl _

section Statements

variable (injective : Function.Injective rename)
  (tables : functions'.contains = functions.contains)

include injective tables

theorem lowerStatement_agree (corresponds : context.Corresponds rename names context')
    {statement statement' : Stmt} {rest : List Stmt}
    (variant : Stmt.Variant rename statement statement')
    (lowerable : Lowerable functions names (statement :: rest)) :
    Agree (fun one other => one.1.Corresponds rename (boundAfter names statement) other.1 ∧
        other.2 = one.2)
      (lowerStatement functions maker context statement)
      (lowerStatement functions' maker context' statement') := by
  have calls : ∀ callee ∈ statement.callees, functions.contains callee := by
    intro callee called
    exact lowerable.calls callee (by simp [called])
  cases variant with
  | @assign assign assign' same =>
      have sameName : assign'.name = rename assign.name := congrArg Assign.name same
      have sameLiteral : assign'.value.literal? = assign.value.literal? := by
        rw [← Expr.literal?_outline id assign'.value, ← Expr.literal?_outline rename assign.value]
        exact congrArg (fun outline => outline.value.literal?) same
      rw [lowerStatement, lowerStatement, sameLiteral]
      cases assign.value.literal? with
      | some value =>
          refine .bind_same fun label => .pure ⟨?_, rfl⟩
          rw [sameName]
          exact corresponds.bindConstant injective _ _
      | none =>
          have bound := ((boundInOrder_cons _ _ _).mp lowerable.values).1
          refine (lowerAssign_agree injective tables corresponds same bound calls).bind ?_
          rintro ⟨next, lowered⟩ ⟨next', _⟩ ⟨nextCorresponds, rfl⟩
          exact .pure ⟨nextCorresponds, rfl⟩
  | @declare declaration _ same =>
      -- The declaration has a renaming of its own, so the procedures are equal as they stand.
      have wellScoped := lowerable.declarations declaration List.mem_cons_self
      refine (lowerDeclaration_agree tables same wellScoped calls _ _).bind ?_
      rintro procedure _ rfl
      exact .pure ⟨corresponds, rfl⟩

theorem lowerStatements_agree (corresponds : context.Corresponds rename names context')
    {statements statements' : List Stmt}
    (variants : List.Forall₂ (Stmt.Variant rename) statements statements')
    (lowerable : Lowerable functions names statements) :
    Agree (fun one other => one.1.Corresponds rename
        (names ++ (statements.filterMap Stmt.assign?).map Assign.name) other.1 ∧ other.2 = one.2)
      (lowerStatements functions maker context statements)
      (lowerStatements functions' maker context' statements') := by
  induction variants generalizing context context' names with
  | nil =>
      refine .pure ⟨?_, rfl⟩
      simpa using corresponds
  | @cons statement _ rest _ first _ ih =>
      rw [lowerStatements_cons, lowerStatements_cons]
      refine (lowerStatement_agree injective tables corresponds first lowerable).bind ?_
      rintro ⟨next, code, made⟩ ⟨next', _⟩ ⟨nextCorresponds, rfl⟩
      refine (ih nextCorresponds lowerable.tail).bind ?_
      rintro ⟨last, others, fragments⟩ ⟨last', _⟩ ⟨lastCorresponds, rfl⟩
      exact .pure ⟨lastCorresponds.of_mem fun name => mem_boundAfter, rfl⟩

end Statements

theorem lowerProgram_agree {program program' : Program} (variant : program.Variant program')
    (wellScoped : program.WellScoped) (maker : FrameMaker F) :
    Agree Eq (lowerProgram maker (resolution program))
      (lowerProgram maker (resolution program')) := by
  have tables : (resolution program').functions.contains =
      (resolution program).functions.contains := by
    funext name
    apply Bool.eq_iff_iff.mpr
    have covers := covers_resolveFunctions program name
    have covers' := covers_resolveFunctions program' name
    rw [variant.functionNames_eq] at covers'
    exact covers'.trans covers.symm
  obtain ⟨rename, injective, statements, print⟩ := variant
  have lowerable := lowerable_of_accepted wellScoped
  have declared : ∀ callee ∈ program.print.exp.callees,
      (resolution program).functions.contains callee := by
    intro callee called
    apply (covers_resolveFunctions program callee).mpr
    exact wellScoped.calls callee (List.mem_append_right _ called)
  rw [lowerProgram, lowerProgram]
  refine .bind_same fun frame => ?_
  have start : Context.Corresponds rename [] ({ frame } : Context F) { frame } :=
    ⟨rfl, by simp, by simp, by simp [Context.Knows]⟩
  refine (lowerStatements_agree injective tables start statements lowerable).bind ?_
  rintro ⟨context, code, fragments⟩ ⟨context', _⟩ ⟨corresponds, rfl⟩
  have value := corresponds.lowerExpr_eq tables print wellScoped.print declared
  have printed : lowerPrint (resolution program').functions context' program'.print.exp =
      lowerPrint (resolution program).functions context program.print.exp := by
    rw [lowerPrint, lowerPrint, value]
  have sameFrame : context'.frame = context.frame := corresponds.frame
  simp only [resolution] at printed ⊢
  simp only [printed, sameFrame]
  exact .refl _

theorem binding_structure_suffices {program program' : Program}
    (variant : program.Variant program') :
    (∀ queue queue' : Diagnostic.Queue,
      (resolve program queue).1.isOk ↔ (resolve program' queue').1.isOk) ∧
    ∀ (queue queue' : Diagnostic.Queue) (resolved resolved' : Resolved),
      (resolve program queue).1 = .ok resolved → (resolve program' queue').1 = .ok resolved' →
        ∀ (F : Type) [Frame F] (maker : FrameMaker F) (supply : Supply),
          (lowerProgram maker resolved).run supply = (lowerProgram maker resolved').run supply := by
  constructor
  · intro queue queue'
    have sameFaults : reports program' = [] ↔ reports program = [] := by
      rw [reports_eq_nil, reports_eq_nil, variant.wellScoped_iff]
    rw [resolve_fst, resolve_fst]
    by_cases clean : reports program = []
    · simp [clean, sameFaults.mpr clean, Except.isOk, Except.toBool]
    · simp [clean, mt sameFaults.mp clean]
  · intro queue queue' resolved resolved' accepted accepted' F _ maker supply
    obtain ⟨wellScoped, rfl⟩ := wellScoped_of_resolve accepted
    obtain ⟨_, rfl⟩ := wellScoped_of_resolve accepted'
    exact (lowerProgram_agree variant wellScoped maker).run_eq supply

def namedAlike : Program where
  -- The parameter of the function is named like a variable of the main procedure.
  statements := [
    .assign { name := "x", value := .binary .lessThan (.literal 1) (.literal 2) },
    .declare {
      name := "f"
      returnType := .integer
      params := [{ type := .integer, name := "x" }]
      body := [{ name := "y", value := .binary .plus (.ident "x") (.literal 1) }]
      result := .binary .times (.ident "x") (.ident "y") }]
  print := { exp := .call "f" [.ident "x"] }

def namedApart : Program where
  -- It is now the local of the function that is named like the variable of the main procedure.
  statements := [
    .assign {
      name := "z"
      value := .binary .lessThan (.literal 1 ⟨6, 7⟩) (.literal 2 ⟨10, 11⟩)
      span := ⟨1, 11⟩ },
    .declare {
      name := "f"
      returnType := .boolean
      params := [{ type := .unknown, name := "x", span := ⟨20, 21⟩ }]
      body := [{ name := "z", value := .binary .plus (.ident "x") (.literal 1) }]
      result := .binary .times (.ident "x") (.ident "z") }]
  print := { exp := .call "f" [.ident "z"] }

theorem variant_namedApart : namedAlike.Variant namedApart := by
  refine ⟨Equiv.swap "x" "z", Equiv.injective _, ?_, by decide⟩
  refine .cons (.assign (by decide)) (.cons ?_ .nil)
  exact .declare ⟨Equiv.swap "y" "z", Equiv.injective _, by decide⟩

theorem binding_structure_suffices_namedApart :
    namedAlike.Variant namedApart ∧
      (resolve namedAlike {}).1 = .ok (resolution namedAlike) ∧
      (resolve namedApart {}).1 = .ok (resolution namedApart) ∧
      ∀ (layout : StackLayout) (supply : Supply),
        (lowerProgram layout.maker (resolution namedAlike)).run supply =
          (lowerProgram layout.maker (resolution namedApart)).run supply := by
  refine ⟨variant_namedApart, rfl, rfl, fun layout supply => ?_⟩
  exact (binding_structure_suffices variant_namedApart).2 {} {} _ _ rfl rfl StackFrame layout.maker
    supply

end Lower

end TreeCompiler
