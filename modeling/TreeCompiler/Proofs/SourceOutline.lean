import Mathlib.Data.List.Nodup
import TreeCompiler.Proofs.Scoping

set_option autoImplicit false

namespace TreeCompiler.Source

mutual

def Expr.outline (rename : String → String) : Expr → Expr
  | .literal value _ => .literal value
  | .ident name _ => .ident (rename name)
  | .binary op left right _ => .binary op (left.outline rename) (right.outline rename)
  | .negation operand _ => .negation (operand.outline rename)
  | .conditional guard thenBranch elseBranch _ =>
      .conditional (guard.outline rename) (thenBranch.outline rename) (elseBranch.outline rename)
  | .call callee args _ => .call callee (Expr.outlineAll rename args)

def Expr.outlineAll (rename : String → String) : List Expr → List Expr
  | [] => []
  | first :: rest => first.outline rename :: Expr.outlineAll rename rest

end

def Assign.outline (rename : String → String) (assign : Assign) : Assign where
  name := rename assign.name
  value := assign.value.outline rename

def Param.outline (rename : String → String) (param : Param) : Param where
  type := .unknown
  name := rename param.name

def Declaration.outline (rename : String → String) (declaration : Declaration) : Declaration where
  -- Types are forgotten as well. The function keeps its name.
  name := declaration.name
  returnType := .unknown
  params := declaration.params.map (Param.outline rename)
  body := declaration.body.map (Assign.outline rename)
  result := declaration.result.outline rename

mutual

@[simp] theorem Expr.identifiers_outline (rename : String → String) : (expr : Expr) →
    (expr.outline rename).identifiers = expr.identifiers.map rename
  | .literal _ _ => by simp [Expr.outline, Expr.identifiers]
  | .ident _ _ => by simp [Expr.outline, Expr.identifiers]
  | .binary _ left right _ => by
      simp [Expr.outline, Expr.identifiers, Expr.identifiers_outline rename left,
        Expr.identifiers_outline rename right]
  | .negation operand _ => by
      simp [Expr.outline, Expr.identifiers, Expr.identifiers_outline rename operand]
  | .conditional guard thenBranch elseBranch _ => by
      simp [Expr.outline, Expr.identifiers, Expr.identifiers_outline rename guard,
        Expr.identifiers_outline rename thenBranch, Expr.identifiers_outline rename elseBranch]
  | .call _ args _ => by
      simp [Expr.outline, Expr.identifiers, Expr.identifiersOfAll_outline rename args]

theorem Expr.identifiersOfAll_outline (rename : String → String) : (exprs : List Expr) →
    Expr.identifiersOfAll (Expr.outlineAll rename exprs) =
      (Expr.identifiersOfAll exprs).map rename
  | [] => by simp [Expr.outlineAll, Expr.identifiersOfAll]
  | first :: rest => by
      simp [Expr.outlineAll, Expr.identifiersOfAll, Expr.identifiers_outline rename first,
        Expr.identifiersOfAll_outline rename rest]

end

mutual

@[simp] theorem Expr.callees_outline (rename : String → String) : (expr : Expr) →
    (expr.outline rename).callees = expr.callees
  | .literal _ _ => by simp [Expr.outline, Expr.callees]
  | .ident _ _ => by simp [Expr.outline, Expr.callees]
  | .binary _ left right _ => by
      simp [Expr.outline, Expr.callees, Expr.callees_outline rename left,
        Expr.callees_outline rename right]
  | .negation operand _ => by
      simp [Expr.outline, Expr.callees, Expr.callees_outline rename operand]
  | .conditional guard thenBranch elseBranch _ => by
      simp [Expr.outline, Expr.callees, Expr.callees_outline rename guard,
        Expr.callees_outline rename thenBranch, Expr.callees_outline rename elseBranch]
  | .call _ args _ => by simp [Expr.outline, Expr.callees, Expr.calleesOfAll_outline rename args]

theorem Expr.calleesOfAll_outline (rename : String → String) : (exprs : List Expr) →
    Expr.calleesOfAll (Expr.outlineAll rename exprs) = Expr.calleesOfAll exprs
  | [] => by simp [Expr.outlineAll, Expr.calleesOfAll]
  | first :: rest => by
      simp [Expr.outlineAll, Expr.calleesOfAll, Expr.callees_outline rename first,
        Expr.calleesOfAll_outline rename rest]

end

@[simp] theorem Expr.literal?_outline (rename : String → String) (expr : Expr) :
    (expr.outline rename).literal? = expr.literal? := by
  cases expr <;> simp [Expr.outline, Expr.literal?]

theorem Declaration.callees_outline (rename : String → String) (declaration : Declaration) :
    (declaration.outline rename).callees = declaration.callees := by
  simp [Declaration.callees, Declaration.outline, List.flatMap_map, Assign.outline]

theorem Declaration.paramNames_outline (rename : String → String)
    (declaration : Declaration) :
    (declaration.outline rename).paramNames = declaration.paramNames.map rename := by
  simp [Declaration.paramNames, Declaration.outline, Param.outline, Function.comp_def]

theorem names_outline (rename : String → String) (assigns : List Assign) :
    (assigns.map (Assign.outline rename)).map Assign.name =
      (assigns.map Assign.name).map rename := by
  simp [Assign.outline, Function.comp_def]

variable {rename : String → String}

section Injective

variable (injective : Function.Injective rename)

include injective

theorem forall_mem_outline (expr : Expr) (names : List String) :
    (∀ name ∈ (expr.outline rename).identifiers, name ∈ names.map rename) ↔
      ∀ name ∈ expr.identifiers, name ∈ names := by
  simp only [Expr.identifiers_outline, List.forall_mem_map, List.mem_map_of_injective injective]

theorem boundInOrder_outline (names : List String) (assigns : List Assign) :
    BoundInOrder (names.map rename) (assigns.map (Assign.outline rename)) ↔
      BoundInOrder names assigns := by
  induction assigns generalizing names with
  | nil => simp
  | cons assign rest ih =>
      have later := ih (assign.name :: names)
      rw [List.map_cons] at later
      simp only [List.map_cons, boundInOrder_cons, Assign.outline,
        forall_mem_outline injective] at later ⊢
      rw [later]

theorem Declaration.wellScoped_outline (declaration : Declaration) :
    (declaration.outline rename).WellScoped ↔ declaration.WellScoped := by
  have params := List.nodup_map_iff injective (l := declaration.paramNames)
  have body := boundInOrder_outline injective declaration.paramNames declaration.body
  have result := forall_mem_outline injective declaration.result
    (declaration.paramNames ++ declaration.body.map Assign.name)
  rw [← declaration.paramNames_outline rename] at params body
  simp only [List.map_append, ← names_outline, ← declaration.paramNames_outline rename,
    List.mem_append] at result
  constructor
  · intro wellScoped
    exact ⟨params.mp wellScoped.params, body.mp wellScoped.body, result.mp wellScoped.result⟩
  · intro wellScoped
    exact ⟨params.mpr wellScoped.params, body.mpr wellScoped.body, result.mpr wellScoped.result⟩

end Injective

def Declaration.Variant (declaration declaration' : Declaration) : Prop :=
  ∃ rename, Function.Injective rename ∧ declaration'.outline id = declaration.outline rename

inductive Stmt.Variant (rename : String → String) : Stmt → Stmt → Prop
  | assign {assign assign' : Assign} (same : assign'.outline id = assign.outline rename) :
      Variant rename (.assign assign) (.assign assign')
  -- A declaration has names of its own, whatever those of the statements around it.
  | declare {declaration declaration' : Declaration} (same : declaration.Variant declaration') :
      Variant rename (.declare declaration) (.declare declaration')

/--
The programs have the same binding structure. They may differ in places, in types, and in names of
variables, which are changed in each function and outside of all functions independently.
-/
def Program.Variant (program program' : Program) : Prop :=
  ∃ rename, Function.Injective rename ∧
    List.Forall₂ (Stmt.Variant rename) program.statements program'.statements ∧
    program'.print.exp.outline id = program.print.exp.outline rename

theorem Declaration.Variant.name_eq {declaration declaration' : Declaration}
    (variant : declaration.Variant declaration') : declaration'.name = declaration.name := by
  obtain ⟨rename, _, same⟩ := variant
  have names : (declaration'.outline id).name = (declaration.outline rename).name := by rw [same]
  exact names

theorem Declaration.Variant.callees_eq {declaration declaration' : Declaration}
    (variant : declaration.Variant declaration') : declaration'.callees = declaration.callees := by
  obtain ⟨rename, _, same⟩ := variant
  rw [← declaration'.callees_outline id, same, declaration.callees_outline rename]

theorem Declaration.Variant.wellScoped_iff {declaration declaration' : Declaration}
    (variant : declaration.Variant declaration') :
    declaration'.WellScoped ↔ declaration.WellScoped := by
  obtain ⟨rename, injective, same⟩ := variant
  rw [← declaration'.wellScoped_outline Function.injective_id, same,
    declaration.wellScoped_outline injective]

section Statements

variable {statements statements' : List Stmt}

theorem callees_of_outline {expr expr' : Expr} (same : expr'.outline id = expr.outline rename) :
    expr'.callees = expr.callees := by
  rw [← Expr.callees_outline id, same, Expr.callees_outline]

theorem Stmt.Variant.callees_eq {statement statement' : Stmt}
    (variant : Stmt.Variant rename statement statement') :
    statement'.callees = statement.callees := by
  cases variant with
  | assign same => exact callees_of_outline (congrArg Assign.value same)
  | declare same => exact same.callees_eq

theorem variant_assigns (variants : List.Forall₂ (Stmt.Variant rename) statements statements') :
    (statements'.filterMap Stmt.assign?).map (Assign.outline id) =
      (statements.filterMap Stmt.assign?).map (Assign.outline rename) := by
  induction variants with
  | nil => rfl
  | cons first _ ih =>
      cases first with
      | assign same => exact congrArg₂ List.cons same ih
      | declare => exact ih

theorem variant_declarations
    (variants : List.Forall₂ (Stmt.Variant rename) statements statements') :
    List.Forall₂ Declaration.Variant (statements.filterMap Stmt.declaration?)
      (statements'.filterMap Stmt.declaration?) := by
  induction variants with
  | nil => exact .nil
  | cons first _ ih =>
      cases first with
      | assign => exact ih
      | declare same => exact .cons same ih

theorem variant_callees (variants : List.Forall₂ (Stmt.Variant rename) statements statements') :
    statements'.flatMap Stmt.callees = statements.flatMap Stmt.callees := by
  induction variants with
  | nil => rfl
  | cons first _ ih => rw [List.flatMap_cons, List.flatMap_cons, first.callees_eq, ih]

theorem variant_names {declarations declarations' : List Declaration}
    (variants : List.Forall₂ Declaration.Variant declarations declarations') :
    declarations'.map Declaration.name = declarations.map Declaration.name := by
  induction variants with
  | nil => rfl
  | cons first _ ih => rw [List.map_cons, List.map_cons, first.name_eq, ih]

theorem variant_wellScoped {declarations declarations' : List Declaration}
    (variants : List.Forall₂ Declaration.Variant declarations declarations') :
    (∀ declaration ∈ declarations', declaration.WellScoped) ↔
      ∀ declaration ∈ declarations, declaration.WellScoped := by
  induction variants with
  | nil => simp
  | cons first _ ih => rw [List.forall_mem_cons, List.forall_mem_cons, first.wellScoped_iff, ih]

end Statements

namespace Program.Variant

variable {program program' : Program} (variant : program.Variant program')

include variant

theorem functionNames_eq : program'.functionNames = program.functionNames := by
  obtain ⟨_, _, statements, _⟩ := variant
  exact variant_names (variant_declarations statements)

theorem callees_eq : program'.callees = program.callees := by
  obtain ⟨_, _, statements, print⟩ := variant
  rw [Program.callees, Program.callees, variant_callees statements, callees_of_outline print]

theorem wellScoped_iff : program'.WellScoped ↔ program.WellScoped := by
  have functionNames := variant.functionNames_eq
  have callees := variant.callees_eq
  obtain ⟨rename, injective, statements, print⟩ := variant
  have assigns : program'.assigns.map (Assign.outline id) =
      program.assigns.map (Assign.outline rename) := variant_assigns statements
  have values : BoundInOrder [] program'.assigns ↔ BoundInOrder [] program.assigns := by
    have outlined := boundInOrder_outline Function.injective_id [] program'.assigns
    rw [assigns, List.map_nil] at outlined
    rw [← outlined]
    exact boundInOrder_outline injective [] program.assigns
  have printed : (∀ name ∈ program'.print.exp.identifiers,
        name ∈ program'.assigns.map Assign.name) ↔
      ∀ name ∈ program.print.exp.identifiers, name ∈ program.assigns.map Assign.name := by
    rw [← forall_mem_outline Function.injective_id, ← names_outline, assigns, names_outline, print,
      forall_mem_outline injective]
  have declarations := variant_wellScoped (variant_declarations statements)
  constructor
  · intro wellScoped
    exact ⟨values.mp wellScoped.values, printed.mp wellScoped.print,
      declarations.mp wellScoped.declarations, functionNames ▸ wellScoped.functions,
      callees ▸ functionNames ▸ wellScoped.calls⟩
  · intro wellScoped
    exact ⟨values.mpr wellScoped.values, printed.mpr wellScoped.print,
      declarations.mpr wellScoped.declarations, functionNames ▸ wellScoped.functions,
      callees ▸ functionNames ▸ wellScoped.calls⟩

end Program.Variant

end TreeCompiler.Source
