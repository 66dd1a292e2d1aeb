import TreeCompiler.Proofs.Scoping
import TreeCompiler.Resolve.Program

set_option autoImplicit false

namespace TreeCompiler

open Source

theorem Bindings.contains_insert {α : Type} (bindings : Bindings α) (name other : String)
    (value : α) :
    (bindings.insert name value).contains other ↔ other = name ∨ bindings.contains other := by
  by_cases same : other = name <;> simp [contains, same]

@[simp] theorem Bindings.contains_empty {α : Type} (name : String) :
    (empty : Bindings α).contains name = false := rfl

def Bindings.Covers {α : Type} (bindings : Bindings α) (names : List String) : Prop :=
  ∀ name, bindings.contains name ↔ name ∈ names

theorem Bindings.covers_empty {α : Type} : (empty : Bindings α).Covers [] := by
  simp [Covers]

theorem Bindings.Covers.insert {α : Type} {bindings : Bindings α} {names : List String}
    (covers : bindings.Covers names) (name : String) (value : α) :
    (bindings.insert name value).Covers (name :: names) := by
  intro other
  rw [contains_insert, covers other, List.mem_cons]

theorem Bindings.Covers.of_mem {α : Type} {bindings : Bindings α} {names names' : List String}
    (covers : bindings.Covers names) (same : ∀ name, name ∈ names ↔ name ∈ names') :
    bindings.Covers names' := by
  intro name
  rw [covers name, same name]

theorem Bindings.Covers.insertNew_of_mem {α : Type} {bindings : Bindings α} {names : List String}
    (covers : bindings.Covers names) {name : String} (known : name ∈ names) (value : α) :
    bindings.insertNew name value = .error ⟨name⟩ := by
  simp [insertNew, (covers name).mpr known]

theorem Bindings.Covers.insertNew_of_not_mem {α : Type} {bindings : Bindings α}
    {names : List String} (covers : bindings.Covers names) {name : String} (new : name ∉ names)
    (value : α) : bindings.insertNew name value = .ok (bindings.insert name value) := by
  have absent : bindings.contains name = false := by
    rw [Bool.eq_false_iff, ne_eq, covers name]
    exact new
  simp [insertNew, absent]

-- Names that are bound one after another are new each time exactly if none repeats.
theorem nodup_cons_fresh {names rest : List String} {first : String} :
    (first :: rest).Nodup ∧ (∀ name ∈ first :: rest, name ∉ names) ↔
      first ∉ names ∧ rest.Nodup ∧ ∀ name ∈ rest, name ∉ first :: names := by
  rw [List.nodup_cons, List.forall_mem_cons]
  constructor
  · rintro ⟨⟨unrepeated, distinct⟩, new, fresh⟩
    refine ⟨new, distinct, fun name member known => ?_⟩
    rcases List.mem_cons.mp known with rfl | old
    · exact unrepeated member
    · exact fresh name member old
  · rintro ⟨new, distinct, fresh⟩
    refine ⟨⟨fun member => fresh first member List.mem_cons_self, distinct⟩, new, ?_⟩
    intro name member known
    exact fresh name member (List.mem_cons_of_mem first known)

namespace Resolve

variable {scope : Bindings Ty} {names : List String}

mutual

theorem unboundIn_eq_nil (covers : scope.Covers names) : (expr : Expr) →
    (unboundIn scope expr = [] ↔ ∀ name ∈ expr.identifiers, name ∈ names)
  | .literal _ _ => by simp [unboundIn, Expr.identifiers]
  | .ident name _ => by simp [unboundIn, Expr.identifiers, covers name]
  | .binary _ left right _ => by
      simp only [unboundIn, Expr.identifiers, List.append_eq_nil_iff, List.forall_mem_append,
        unboundIn_eq_nil covers left, unboundIn_eq_nil covers right]
  | .negation operand _ => by
      simp [unboundIn, Expr.identifiers, unboundIn_eq_nil covers operand]
  | .conditional guard thenBranch elseBranch _ => by
      simp only [unboundIn, Expr.identifiers, List.append_eq_nil_iff, List.forall_mem_append,
        unboundIn_eq_nil covers guard, unboundIn_eq_nil covers thenBranch,
        unboundIn_eq_nil covers elseBranch]
  | .call _ args _ => by
      simp [unboundIn, Expr.identifiers, unboundInAll_eq_nil covers args]

theorem unboundInAll_eq_nil (covers : scope.Covers names) : (exprs : List Expr) →
    (unboundInAll scope exprs = [] ↔ ∀ name ∈ Expr.identifiersOfAll exprs, name ∈ names)
  | [] => by simp [unboundInAll, Expr.identifiersOfAll]
  | first :: rest => by
      simp only [unboundInAll, Expr.identifiersOfAll, List.append_eq_nil_iff,
        List.forall_mem_append, unboundIn_eq_nil covers first, unboundInAll_eq_nil covers rest]

end

theorem covers_scopeAfter (covers : scope.Covers names) (assign : Assign) :
    (scopeAfter scope assign).Covers (assign.name :: names) := by
  unfold scopeAfter
  split
  next bound =>
    apply covers.of_mem
    intro name
    have known := (covers assign.name).mp bound
    by_cases same : name = assign.name <;> simp [same, known]
  next => exact covers.insert assign.name .unknown

theorem covers_resolveAssigns (covers : scope.Covers names) (assigns : List Assign) :
    (resolveAssigns scope assigns).1.Covers (names ++ assigns.map Assign.name) := by
  induction assigns generalizing scope names with
  | nil => simpa [resolveAssigns] using covers
  | cons assign rest ih =>
      have final := ih (covers_scopeAfter covers assign)
      simp only [resolveAssigns]
      apply final.of_mem
      intro name
      simp only [List.cons_append, List.map_cons, List.mem_cons, List.mem_append]
      tauto

theorem resolveAssigns_eq_nil (covers : scope.Covers names) (assigns : List Assign) :
    (resolveAssigns scope assigns).2 = [] ↔ BoundInOrder names assigns := by
  induction assigns generalizing scope names with
  | nil => simp [resolveAssigns]
  | cons assign rest ih =>
      simp only [resolveAssigns, List.append_eq_nil_iff, boundInOrder_cons,
        unboundIn_eq_nil covers, ih (covers_scopeAfter covers assign)]

theorem covers_resolveParams (covers : scope.Covers names) (params : List Param) :
    (resolveParams scope params).1.Covers (names ++ params.map Param.name) := by
  induction params generalizing scope names with
  | nil => simpa [resolveParams] using covers
  | cons param rest ih =>
      by_cases known : param.name ∈ names
      · simp only [resolveParams, covers.insertNew_of_mem known]
        apply (ih covers).of_mem
        intro name
        by_cases same : name = param.name <;> simp [same, known]
      · simp only [resolveParams, covers.insertNew_of_not_mem known]
        apply (ih (covers.insert param.name param.type)).of_mem
        intro name
        simp only [List.cons_append, List.map_cons, List.mem_cons, List.mem_append]
        tauto

theorem resolveParams_eq_nil (covers : scope.Covers names) (params : List Param) :
    (resolveParams scope params).2 = [] ↔
      (params.map Param.name).Nodup ∧ ∀ name ∈ params.map Param.name, name ∉ names := by
  induction params generalizing scope names with
  | nil => simp [resolveParams]
  | cons param rest ih =>
      rw [List.map_cons, nodup_cons_fresh]
      by_cases known : param.name ∈ names
      · simp [resolveParams, covers.insertNew_of_mem known, known]
      · simp only [resolveParams, covers.insertNew_of_not_mem known,
          ih (covers.insert param.name param.type), known, not_false_eq_true, true_and]

theorem resolveDeclaration_eq_nil (declaration : Declaration) :
    (resolveDeclaration declaration).2 = [] ↔ declaration.WellScoped := by
  have params := covers_resolveParams Bindings.covers_empty declaration.params
  have final := covers_resolveAssigns params declaration.body
  simp only [List.nil_append] at params final
  simp only [resolveDeclaration, List.append_eq_nil_iff,
    resolveParams_eq_nil Bindings.covers_empty, resolveAssigns_eq_nil params,
    unboundIn_eq_nil final, List.mem_append]
  constructor
  · rintro ⟨⟨⟨distinct, -⟩, body⟩, result⟩
    exact ⟨distinct, body, result⟩
  · rintro ⟨distinct, body, result⟩
    exact ⟨⟨⟨distinct, by simp⟩, body⟩, result⟩

theorem covers_resolveStatements {globals : Bindings Ty} (covers : globals.Covers names)
    (statements : List Stmt) :
    (resolveStatements globals statements).1.globals.Covers
      (names ++ (statements.filterMap Stmt.assign?).map Assign.name) := by
  induction statements generalizing globals names with
  | nil => simpa [resolveStatements] using covers
  | cons statement rest ih =>
      cases statement with
      | assign assign =>
          simp only [resolveStatements]
          apply (ih (covers_scopeAfter covers assign)).of_mem
          intro name
          simp only [Stmt.assign?, List.filterMap_cons, List.cons_append, List.map_cons,
            List.mem_cons, List.mem_append]
          tauto
      | declare declaration => exact ih covers

theorem resolveStatements_eq_nil {globals : Bindings Ty} (covers : globals.Covers names)
    (statements : List Stmt) :
    (resolveStatements globals statements).2 = [] ↔
      BoundInOrder names (statements.filterMap Stmt.assign?) ∧
        ∀ declaration ∈ statements.filterMap Stmt.declaration?, declaration.WellScoped := by
  induction statements generalizing globals names with
  | nil => simp [resolveStatements]
  | cons statement rest ih =>
      cases statement with
      | assign assign =>
          simp only [resolveStatements, List.append_eq_nil_iff, unboundIn_eq_nil covers,
            ih (covers_scopeAfter covers assign), Stmt.assign?, Stmt.declaration?,
            List.filterMap_cons, boundInOrder_cons, and_assoc]
      | declare declaration =>
          simp only [resolveStatements, List.append_eq_nil_iff, resolveDeclaration_eq_nil,
            ih covers, Stmt.assign?, Stmt.declaration?, List.filterMap_cons,
            List.forall_mem_cons]
          tauto

theorem resolveVariables_eq_nil (program : Program) :
    (resolveVariables program).2 = [] ↔
      BoundInOrder [] program.assigns ∧
        (∀ declaration ∈ program.declarations, declaration.WellScoped) ∧
        ∀ name ∈ program.print.exp.identifiers, name ∈ program.assigns.map Assign.name := by
  have globals := covers_resolveStatements Bindings.covers_empty program.statements
  rw [List.nil_append] at globals
  simp only [resolveVariables, List.append_eq_nil_iff, unboundIn_eq_nil globals,
    resolveStatements_eq_nil Bindings.covers_empty, and_assoc]
  rfl

namespace FunctionTable

variable {table : FunctionTable}

def extended (table : FunctionTable) (position : Nat) (declaration : Declaration) :
    FunctionTable :=
  ⟨table.registered.insert declaration.name { position, declaration }⟩

theorem covers_extended (covers : table.registered.Covers names) (position : Nat)
    (declaration : Declaration) :
    (table.extended position declaration).registered.Covers (declaration.name :: names) :=
  covers.insert declaration.name _

theorem register_of_mem (covers : table.registered.Covers names) {declaration : Declaration}
    (known : declaration.name ∈ names) (position : Nat) (rest : List Declaration) :
    table.register position (declaration :: rest) =
      ((table.register (position + 1) rest).1,
        .duplicate declaration.name declaration.span :: (table.register (position + 1) rest).2) := by
  simp only [register, covers.insertNew_of_mem known]

theorem register_of_not_mem (covers : table.registered.Covers names) {declaration : Declaration}
    (new : declaration.name ∉ names) (position : Nat) (rest : List Declaration) :
    table.register position (declaration :: rest) =
      (table.extended position declaration).register (position + 1) rest := by
  simp only [register, covers.insertNew_of_not_mem new, extended]

theorem covers_register (covers : table.registered.Covers names) (position : Nat)
    (declarations : List Declaration) :
    (table.register position declarations).1.registered.Covers
      (names ++ declarations.map Declaration.name) := by
  induction declarations generalizing table position names with
  | nil => simpa [register] using covers
  | cons declaration rest ih =>
      by_cases known : declaration.name ∈ names
      · rw [register_of_mem covers known]
        apply (ih covers (position + 1)).of_mem
        intro name
        by_cases same : name = declaration.name <;> simp [same, known]
      · rw [register_of_not_mem covers known]
        apply (ih (covers_extended covers position declaration) (position + 1)).of_mem
        intro name
        simp only [List.cons_append, List.map_cons, List.mem_cons, List.mem_append]
        tauto

theorem register_eq_nil (covers : table.registered.Covers names) (position : Nat)
    (declarations : List Declaration) :
    (table.register position declarations).2 = [] ↔
      (declarations.map Declaration.name).Nodup ∧
        ∀ name ∈ declarations.map Declaration.name, name ∉ names := by
  induction declarations generalizing table position names with
  | nil => simp [register]
  | cons declaration rest ih =>
      rw [List.map_cons, nodup_cons_fresh]
      by_cases known : declaration.name ∈ names
      · simp [register_of_mem covers known, known]
      · rw [register_of_not_mem covers known,
          ih (covers_extended covers position declaration) (position + 1)]
        simp only [known, not_false_eq_true, true_and]

theorem get?_register (covers : table.registered.Covers names) {name : String}
    {entry : Registered} (bound : table.registered.get? name = some entry) (position : Nat)
    (declarations : List Declaration) :
    (table.register position declarations).1.registered.get? name = some entry := by
  induction declarations generalizing table position names with
  | nil => exact bound
  | cons declaration rest ih =>
      by_cases known : declaration.name ∈ names
      · rw [register_of_mem covers known]
        exact ih covers bound (position + 1)
      · rw [register_of_not_mem covers known]
        apply ih (covers_extended covers position declaration)
        have different : name ≠ declaration.name := by
          rintro rfl
          exact known ((covers _).mp (by simp [Bindings.contains, bound]))
        simpa [extended, different] using bound

theorem isRegistered_register (covers : table.registered.Covers names) (position : Nat)
    (declarations : List Declaration)
    (distinct : (table.register position declarations).2 = []) (index : Nat)
    (declaration : Declaration) (found : declarations[index]? = some declaration) :
    (table.register position declarations).1.isRegistered (position + index) declaration := by
  induction declarations generalizing table position names index with
  | nil => simp at found
  | cons first rest ih =>
      have new : first.name ∉ names :=
        ((register_eq_nil covers position (first :: rest)).mp distinct).2 first.name (by simp)
      have covered := covers_extended covers position first
      rw [register_of_not_mem covers new] at distinct ⊢
      cases index with
      | zero =>
          obtain rfl : first = declaration := by simpa using found
          have bound : (table.extended position first).registered.get? first.name =
              some ⟨position, first⟩ := by
            simp [extended]
          have kept := get?_register covered bound (position + 1) rest
          simp [isRegistered, kept]
      | succ index =>
          have later := ih covered (position + 1) distinct index (by simpa using found)
          rwa [Nat.add_assoc, Nat.add_comm 1] at later

mutual

theorem unknownCalls_eq_nil (covers : table.registered.Covers names) : (expr : Expr) →
    (table.unknownCalls expr = [] ↔ ∀ callee ∈ expr.callees, callee ∈ names)
  | .literal _ _ => by simp [unknownCalls, Expr.callees]
  | .ident _ _ => by simp [unknownCalls, Expr.callees]
  | .binary _ left right _ => by
      simp only [unknownCalls, Expr.callees, List.append_eq_nil_iff, List.forall_mem_append,
        unknownCalls_eq_nil covers left, unknownCalls_eq_nil covers right]
  | .negation operand _ => by
      simp only [unknownCalls, Expr.callees, unknownCalls_eq_nil covers operand]
  | .conditional guard thenBranch elseBranch _ => by
      simp only [unknownCalls, Expr.callees, List.append_eq_nil_iff, List.forall_mem_append,
        unknownCalls_eq_nil covers guard, unknownCalls_eq_nil covers thenBranch,
        unknownCalls_eq_nil covers elseBranch]
  | .call callee args _ => by
      simp only [unknownCalls, Expr.callees, List.append_eq_nil_iff, List.forall_mem_cons,
        unknownCallsInAll_eq_nil covers args, contains, ← covers callee]
      by_cases known : table.registered.contains callee <;> simp [known]

theorem unknownCallsInAll_eq_nil (covers : table.registered.Covers names) :
    (exprs : List Expr) →
      (table.unknownCallsInAll exprs = [] ↔ ∀ callee ∈ Expr.calleesOfAll exprs, callee ∈ names)
  | [] => by simp [unknownCallsInAll, Expr.calleesOfAll]
  | first :: rest => by
      simp only [unknownCallsInAll, Expr.calleesOfAll, List.append_eq_nil_iff,
        List.forall_mem_append, unknownCalls_eq_nil covers first,
        unknownCallsInAll_eq_nil covers rest]

end

theorem unknownCallsInBody_eq_nil (covers : table.registered.Covers names)
    (declaration : Declaration) :
    table.unknownCallsInBody declaration = [] ↔
      ∀ callee ∈ declaration.callees, callee ∈ names := by
  simp only [unknownCallsInBody, Declaration.callees, List.append_eq_nil_iff,
    List.flatMap_eq_nil_iff, unknownCalls_eq_nil covers, List.forall_mem_append,
    List.mem_flatMap]
  grind

theorem unknownCallsInStatements_eq_nil (covers : table.registered.Covers names)
    (position : Nat) (statements : List Stmt)
    (registered : ∀ index declaration,
      (statements.filterMap Stmt.declaration?)[index]? = some declaration →
        table.isRegistered (position + index) declaration) :
    table.unknownCallsInStatements position statements = [] ↔
      ∀ callee ∈ statements.flatMap Stmt.callees, callee ∈ names := by
  induction statements generalizing position with
  | nil => simp [unknownCallsInStatements]
  | cons statement rest ih =>
      cases statement with
      | assign assign =>
          simp only [unknownCallsInStatements, List.flatMap_cons, Stmt.callees,
            List.append_eq_nil_iff, List.forall_mem_append, unknownCalls_eq_nil covers,
            ih position registered]
      | declare declaration =>
          have first : table.isRegistered position declaration :=
            registered 0 declaration rfl
          have later := ih (position + 1) fun index other found => by
            have shifted := registered (index + 1) other found
            rwa [← Nat.add_assoc, Nat.add_right_comm] at shifted
          simp only [unknownCallsInStatements, first, if_true, List.flatMap_cons, Stmt.callees,
            List.append_eq_nil_iff, List.forall_mem_append, unknownCallsInBody_eq_nil covers,
            later]

end FunctionTable

theorem covers_resolveFunctions (program : Program) :
    (resolveFunctions program).1.registered.Covers program.functionNames := by
  have none : (⟨.empty⟩ : FunctionTable).registered.Covers [] := Bindings.covers_empty
  exact FunctionTable.covers_register none 0 program.declarations

theorem resolveFunctions_eq_nil (program : Program) :
    (resolveFunctions program).2 = [] ↔
      program.functionNames.Nodup ∧
        ∀ callee ∈ program.callees, callee ∈ program.functionNames := by
  have none : (⟨.empty⟩ : FunctionTable).registered.Covers [] := Bindings.covers_empty
  have covers := FunctionTable.covers_register none 0 program.declarations
  have repeated := FunctionTable.register_eq_nil none 0 program.declarations
  simp only [List.not_mem_nil, not_false_eq_true, implies_true, and_true] at repeated
  simp only [resolveFunctions, List.append_eq_nil_iff, and_assoc]
  rw [repeated]
  -- Bodies of repeated declarations are passed over, so the calls count once none is repeated.
  refine and_congr_right fun distinct => ?_
  have registered := FunctionTable.isRegistered_register none 0 program.declarations
    (repeated.mpr distinct)
  rw [FunctionTable.unknownCallsInStatements_eq_nil covers 0 program.statements registered,
    FunctionTable.unknownCalls_eq_nil covers, Program.callees, List.forall_mem_append]
  rfl

theorem reports_eq_nil (program : Program) : reports program = [] ↔ program.WellScoped := by
  rw [reports, List.append_eq_nil_iff, resolveVariables_eq_nil, resolveFunctions_eq_nil]
  constructor
  · rintro ⟨⟨values, declarations, print⟩, functions, calls⟩
    exact ⟨values, print, declarations, functions, calls⟩
  · rintro ⟨values, print, declarations, functions, calls⟩
    exact ⟨⟨values, declarations, print⟩, functions, calls⟩

-- The limit decides which errors are kept, but each is counted.
theorem errorCount_addAll (queue : Diagnostic.Queue) (faults : List Report) :
    (queue.addAll (faults.map Report.diagnostic)).errorCount = queue.errorCount + faults.length := by
  induction faults generalizing queue with
  | nil => rfl
  | cons fault rest ih =>
      have counted : (queue.add fault.diagnostic).errorCount = queue.errorCount + 1 := by
        simp [Diagnostic.Queue.add]
      have later := ih (queue.add fault.diagnostic)
      simp only [Diagnostic.Queue.addAll, List.map_cons, List.foldl_cons] at later ⊢
      rw [later, counted, List.length_cons]
      omega

def resolution (program : Program) : Resolved where
  program := program
  scopes := (resolveVariables program).1
  functions := (resolveFunctions program).1

theorem resolve_fst (program : Program) (queue : Diagnostic.Queue) :
    (resolve program queue).1 =
      if reports program = [] then .ok (resolution program) else .error .reported := by
  have counted := errorCount_addAll queue (reports program)
  by_cases clean : reports program = []
  · simp [resolve, clean, Diagnostic.Queue.addAll, Diagnostic.Queue.errorsSince, resolution]
  · have some_fault : 0 < (reports program).length := List.length_pos_iff.mpr clean
    simp [resolve, Diagnostic.Queue.errorsSince, counted, clean, some_fault]

theorem wellScoped_of_resolve {program : Program} {queue : Diagnostic.Queue}
    {resolved : Resolved} (accepted : (resolve program queue).1 = .ok resolved) :
    program.WellScoped ∧ resolved = resolution program := by
  rw [resolve_fst] at accepted
  split at accepted
  next clean => exact ⟨(reports_eq_nil program).mp clean, (Except.ok.inj accepted).symm⟩
  next => cases accepted

theorem resolve_isOk_iff_wellScoped (program : Program) :
    (∀ queue : Diagnostic.Queue, (resolve program queue).1.isOk ↔ program.WellScoped) ∧
      ∀ queue queue' : Diagnostic.Queue,
        (resolve program queue).1 = (resolve program queue').1 := by
  constructor
  · intro queue
    rw [resolve_fst, ← reports_eq_nil]
    by_cases clean : reports program = [] <;> simp [clean, Except.isOk, Except.toBool]
  · intro queue queue'
    rw [resolve_fst, resolve_fst]

end Resolve

end TreeCompiler
