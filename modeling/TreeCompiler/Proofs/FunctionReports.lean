import Mathlib.Data.List.Dedup
import TreeCompiler.Proofs.VariableReports

set_option autoImplicit false

namespace TreeCompiler

open Source

theorem Bindings.Covers.size_eq {α : Type} {bindings : Bindings α} {names : List String}
    (covers : bindings.Covers names) : bindings.size = names.dedup.length := by
  have rearranged : bindings.names.Perm names.dedup := by
    rw [List.perm_ext_iff_of_nodup bindings.nodup_names names.nodup_dedup]
    intro name
    rw [mem_names, covers name, List.mem_dedup]
  rw [← rearranged.length_eq, Bindings.names, List.length_map, size]

mutual

def Source.Expr.calls : Expr → List (String × Span)
  | .literal _ _ => []
  | .ident _ _ => []
  | .binary _ left right _ => left.calls ++ right.calls
  | .negation operand _ => operand.calls
  | .conditional guard thenBranch elseBranch _ =>
      guard.calls ++ thenBranch.calls ++ elseBranch.calls
  | .call callee args span => (callee, span) :: Expr.callsOfAll args

def Source.Expr.callsOfAll : List Expr → List (String × Span)
  | [] => []
  | first :: rest => first.calls ++ Expr.callsOfAll rest

end

def Source.Declaration.calls (declaration : Declaration) : List (String × Span) :=
  declaration.body.flatMap (fun assign => assign.value.calls) ++ declaration.result.calls

def Source.declaredNames (statements : List Stmt) : List String :=
  (statements.filterMap Stmt.declaration?).map Declaration.name

@[simp] theorem Source.declaredNames_nil : declaredNames [] = [] := rfl

@[simp] theorem Source.declaredNames_assign (assign : Assign) (rest : List Stmt) :
    declaredNames (.assign assign :: rest) = declaredNames rest := rfl

@[simp] theorem Source.declaredNames_declare (declaration : Declaration) (rest : List Stmt) :
    declaredNames (.declare declaration :: rest) = declaration.name :: declaredNames rest := rfl

def Source.Stmt.countingCalls (declared : List String) : Stmt → List (String × Span)
  -- A statement that declares anew what an earlier one declares is passed over.
  | assign a => a.value.calls
  | declare d => if d.name ∈ declared then [] else d.calls

@[simp] theorem Source.Stmt.countingCalls_assign (declared : List String) (assign : Assign) :
    (Stmt.assign assign).countingCalls declared = assign.value.calls := rfl

@[simp] theorem Source.Stmt.countingCalls_declare (declared : List String)
    (declaration : Declaration) :
    (Stmt.declare declaration).countingCalls declared =
      if declaration.name ∈ declared then [] else declaration.calls := rfl

def Source.Program.countingCalls (program : Program) : List (String × Span) :=
  (withEarlier program.statements).flatMap (fun (earlier, statement) =>
      statement.countingCalls (declaredNames earlier))
    ++ program.print.exp.calls

namespace Resolve

def functionReports (program : Program) : List Report :=
  (repeated Declaration.name [] program.declarations).map
      (fun declaration => .duplicate declaration.name declaration.span)
    ++ undefinedUses program.functionNames program.countingCalls

namespace FunctionTable

variable {table : FunctionTable} {names : List String}

def firstDeclared? (position : Nat) (declarations : List Declaration) (name : String) :
    Option Registered :=
  ((declarations.zipIdx position).find? fun entry => entry.1.name = name).map fun entry =>
    { position := entry.2, declaration := entry.1 }

theorem registered_register (table : FunctionTable) (position : Nat)
    (declarations : List Declaration) (name : String) :
    (table.register position declarations).1.registered.get? name =
      (table.registered.get? name).or (firstDeclared? position declarations name) := by
  induction declarations generalizing table position with
  | nil => simp [register, firstDeclared?]
  | cons declaration rest ih =>
      by_cases same : declaration.name = name
      next =>
        subst same
        cases bound : table.registered.get? declaration.name <;>
          simp [register, Bindings.insertNew, Bindings.contains, bound, ih, firstDeclared?]
      next =>
        have different : name ≠ declaration.name := Ne.symm same
        cases bound : table.registered.get? declaration.name <;>
          simp [register, Bindings.insertNew, Bindings.contains, bound, ih, firstDeclared?, same,
            different]

theorem reports_register (covers : table.registered.Covers names) (position : Nat)
    (declarations : List Declaration) :
    (table.register position declarations).2 =
      (repeated Declaration.name names declarations).map fun declaration =>
        .duplicate declaration.name declaration.span := by
  induction declarations generalizing table position names with
  | nil => rfl
  | cons declaration rest ih =>
      rw [repeated_cons]
      by_cases known : declaration.name ∈ names
      next =>
        have same : table.registered.Covers (names ++ [declaration.name]) :=
          covers.of_mem (by simp [known])
        simp [register_of_mem covers known, ih same, known]
      next =>
        have extended : (table.extended position declaration).registered.Covers
            (names ++ [declaration.name]) :=
          (covers_extended covers position declaration).of_mem (by simp [or_comm])
        simp [register_of_not_mem covers known, ih extended, known]

-- One declaration at most stands for a name.
theorem isRegistered_unique {position position' : Nat} {declaration declaration' : Declaration}
    (first : table.isRegistered position declaration)
    (second : table.isRegistered position' declaration')
    (sameName : declaration.name = declaration'.name) : position = position' := by
  rw [isRegistered, Option.any_eq_true] at first second
  obtain ⟨entry, bound, placed⟩ := first
  obtain ⟨entry', bound', placed'⟩ := second
  rw [sameName, bound'] at bound
  cases bound
  simp only [decide_eq_true_eq] at placed placed'
  rw [← placed, ← placed']

theorem find?_zipIdx (isWanted : Declaration → Bool) (declarations : List Declaration) :
    (declarations.zipIdx.find? fun entry => isWanted entry.1).map Prod.fst =
      declarations.find? isWanted := by
  conv_rhs => rw [← List.zipIdx_map_fst 0 declarations]
  exact List.find?_map.symm

theorem get?_register_empty (declarations : List Declaration) (name : String) :
    (register ⟨.empty⟩ 0 declarations).1.get? name = declarations.find? (·.name = name) := by
  rw [get?, registered_register, ← find?_zipIdx]
  simp [firstDeclared?, Function.comp_def]

theorem isRegistered_of_split {declarations before after : List Declaration}
    {declaration : Declaration} (split : declarations = before ++ declaration :: after) :
    (register ⟨.empty⟩ 0 declarations).1.isRegistered before.length declaration ↔
      declaration.name ∉ before.map Declaration.name := by
  rw [isRegistered, registered_register, Bindings.get?_empty, Option.none_or, firstDeclared?, split,
    List.zipIdx_append, List.find?_append]
  have unplaced := find?_zipIdx (·.name = declaration.name) before
  cases found : before.zipIdx.find? fun entry => entry.1.name = declaration.name with
  | some entry =>
      -- An earlier declaration has the name, and stands at a smaller position.
      have member := List.mem_of_find?_eq_some found
      have named : entry.1.name = declaration.name := by simpa using List.find?_some found
      have smaller : entry.2 < before.length := List.snd_lt_of_mem_zipIdx member
      have taken : declaration.name ∈ before.map Declaration.name :=
        List.mem_map.mpr ⟨entry.1, List.fst_mem_of_mem_zipIdx member, named⟩
      simp [taken, smaller.ne]
  | none =>
      rw [found, Option.map_none, eq_comm, List.find?_eq_none] at unplaced
      have free : declaration.name ∉ before.map Declaration.name := by
        simpa using unplaced
      simp [free]

mutual

theorem unknownCalls_eq (covers : table.registered.Covers names) : (expr : Expr) →
    table.unknownCalls expr = undefinedUses names expr.calls
  | .literal _ _ => by simp [unknownCalls, undefinedUses, Expr.calls]
  | .ident _ _ => by simp [unknownCalls, undefinedUses, Expr.calls]
  | .binary _ left right _ => by
      simp [unknownCalls, Expr.calls, unknownCalls_eq covers left, unknownCalls_eq covers right]
  | .negation operand _ => by
      simp [unknownCalls, Expr.calls, unknownCalls_eq covers operand]
  | .conditional guard thenBranch elseBranch _ => by
      simp [unknownCalls, Expr.calls, unknownCalls_eq covers guard,
        unknownCalls_eq covers thenBranch, unknownCalls_eq covers elseBranch]
  | .call callee args _ => by
      rw [unknownCalls, unknownCallsInAll_eq covers args, Expr.calls]
      by_cases known : callee ∈ names <;>
        simp [contains, covers callee, known, undefinedUses]

theorem unknownCallsInAll_eq (covers : table.registered.Covers names) : (exprs : List Expr) →
    table.unknownCallsInAll exprs = undefinedUses names (Expr.callsOfAll exprs)
  | [] => by simp [unknownCallsInAll, undefinedUses, Expr.callsOfAll]
  | first :: rest => by
      simp [unknownCallsInAll, Expr.callsOfAll, unknownCalls_eq covers first,
        unknownCallsInAll_eq covers rest]

end

theorem unknownCallsInBody_eq (covers : table.registered.Covers names)
    (declaration : Declaration) :
    table.unknownCallsInBody declaration = undefinedUses names declaration.calls := by
  simp [unknownCallsInBody, Declaration.calls, unknownCalls_eq covers, undefinedUses,
    List.filter_flatMap, List.map_flatMap]

theorem unknownCallsInStatements_eq (covers : table.registered.Covers names) (position : Nat)
    (known : List String) (statements : List Stmt)
    (registered : ∀ before declaration after, statements = before ++ .declare declaration :: after →
      (table.isRegistered (position + (declaredNames before).length) declaration ↔
        declaration.name ∉ known ++ declaredNames before)) :
    table.unknownCallsInStatements position statements =
      undefinedUses names ((withEarlier statements).flatMap fun (earlier, statement) =>
        statement.countingCalls (known ++ declaredNames earlier)) := by
  induction statements generalizing position known with
  | nil => rfl
  | cons statement rest ih =>
      cases statement with
      | assign assign =>
          have later := ih position known fun before declaration after split =>
            registered (.assign assign :: before) declaration after (by rw [split]; rfl)
          simp [unknownCallsInStatements, later, unknownCalls_eq covers, List.flatMap_map]
      | declare declaration =>
          have first := registered [] declaration rest rfl
          have later := ih (position + 1) (known ++ [declaration.name])
            fun before other after split => by
              have shifted := registered (.declare declaration :: before) other after
                (by rw [split]; rfl)
              simpa [Nat.add_assoc, Nat.add_comm 1] using shifted
          simp only [declaredNames_nil, List.length_nil, Nat.add_zero, List.append_nil] at first
          by_cases taken : declaration.name ∈ known <;>
            simp [unknownCallsInStatements, later, unknownCallsInBody_eq covers, List.flatMap_map,
              first, taken, undefinedUses]

end FunctionTable

section Program

variable (program : Program)

theorem isRegistered_iff {position : Nat} {declaration : Declaration}
    (placed : program.declarations[position]? = some declaration) :
    (resolveFunctions program).1.isRegistered position declaration ↔
      declaration.name ∉ (program.declarations.take position).map Declaration.name := by
  obtain ⟨within, found⟩ := List.getElem?_eq_some_iff.mp placed
  have split : program.declarations =
      program.declarations.take position ++ declaration ::
        program.declarations.drop (position + 1) := by
    rw [← found, List.cons_getElem_drop_succ, List.take_append_drop]
  have first := FunctionTable.isRegistered_of_split split
  rwa [List.length_take, Nat.min_eq_left within.le] at first

theorem existsUnique_isRegistered {name : String} (declared : name ∈ program.functionNames) :
    ∃! position, ∃ declaration, program.declarations[position]? = some declaration ∧
      declaration.name = name ∧
        (resolveFunctions program).1.isRegistered position declaration := by
  have present : (program.declarations.find? (·.name = name)).isSome := by
    simpa [Program.functionNames] using declared
  obtain ⟨declaration, found⟩ := Option.isSome_iff_exists.mp present
  obtain ⟨named, before, after, split, others⟩ := List.find?_eq_some_iff_append.mp found
  have named : declaration.name = name := by simpa using named
  have placed : program.declarations[before.length]? = some declaration := by simp [split]
  have first : (resolveFunctions program).1.isRegistered before.length declaration :=
    (FunctionTable.isRegistered_of_split split).mpr (by simpa [named] using others)
  refine ⟨before.length, ⟨declaration, placed, named, first⟩, ?_⟩
  rintro position ⟨other, -, otherNamed, registered⟩
  exact FunctionTable.isRegistered_unique registered first (otherNamed.trans named.symm)

theorem reports_resolveFunctions :
    (resolveFunctions program).2 = functionReports program := by
  have none : (⟨.empty⟩ : FunctionTable).registered.Covers [] := Bindings.covers_empty
  have covers := covers_resolveFunctions program
  have calls := FunctionTable.unknownCallsInStatements_eq covers 0 [] program.statements
    fun before declaration after split => by
      have declared : program.declarations = before.filterMap Stmt.declaration? ++
          declaration :: after.filterMap Stmt.declaration? := by
        simp [Program.declarations, split, Stmt.declaration?]
      rw [Nat.zero_add, List.nil_append, declaredNames, List.length_map]
      exact FunctionTable.isRegistered_of_split declared
  have print := FunctionTable.unknownCalls_eq covers program.print.exp
  rw [functionReports, Program.countingCalls, undefinedUses_append, ← print,
    ← FunctionTable.reports_register none 0, ← List.append_assoc]
  simp only [List.nil_append] at calls
  rw [← calls]
  rfl

end Program

theorem resolveFunctions_exact (program : Program) :
    (∀ name, (resolveFunctions program).1.get? name = program.declarations.find? (·.name = name)) ∧
      (resolveFunctions program).1.size = program.functionNames.dedup.length ∧
      (∀ position declaration, program.declarations[position]? = some declaration →
        ((resolveFunctions program).1.isRegistered position declaration ↔
          declaration.name ∉ (program.declarations.take position).map Declaration.name)) ∧
      (∀ name ∈ program.functionNames, ∃! position, ∃ declaration,
        program.declarations[position]? = some declaration ∧ declaration.name = name ∧
          (resolveFunctions program).1.isRegistered position declaration) ∧
      (resolveFunctions program).2 = functionReports program := by
  refine ⟨FunctionTable.get?_register_empty program.declarations,
    (covers_resolveFunctions program).size_eq, fun position declaration placed => ?_,
    fun name declared => ?_, reports_resolveFunctions program⟩
  · exact isRegistered_iff program placed
  · exact existsUnique_isRegistered program declared

def callingUnknown : Declaration where
  name := "f"
  returnType := .integer
  params := []
  body := []
  result := .call "g" [] { start := 3, stop := 6 }

def declaredTwice : Program where
  -- The second declaration equals the first in every part, and is dropped all the same.
  statements := [.declare callingUnknown, .declare callingUnknown]
  print := { exp := .call "f" [] }

theorem resolveFunctions_exact_declaredTwice :
    declaredTwice.declarations[0]? = some callingUnknown ∧
      declaredTwice.declarations[1]? = some callingUnknown ∧
      (resolveFunctions declaredTwice).1.isRegistered 0 callingUnknown ∧
      ¬(resolveFunctions declaredTwice).1.isRegistered 1 callingUnknown ∧
      "f" ∈ declaredTwice.functionNames ∧
      (∃! position, ∃ declaration, declaredTwice.declarations[position]? = some declaration ∧
        declaration.name = "f" ∧
          (resolveFunctions declaredTwice).1.isRegistered position declaration) ∧
      (resolveFunctions declaredTwice).2 =
        [.duplicate "f" {}, .undefined "g" { start := 3, stop := 6 }] := by
  have first : declaredTwice.declarations[0]? = some callingUnknown := rfl
  have second : declaredTwice.declarations[1]? = some callingUnknown := rfl
  have declared : "f" ∈ declaredTwice.functionNames := by decide
  obtain ⟨-, -, positions, unique, reports⟩ := resolveFunctions_exact declaredTwice
  refine ⟨first, second, (positions 0 _ first).mpr (by decide), ?_, declared, unique "f" declared, ?_⟩
  · exact fun registered => (positions 1 _ second).mp registered (by decide)
  · rw [reports]
    rfl

end Resolve

end TreeCompiler
