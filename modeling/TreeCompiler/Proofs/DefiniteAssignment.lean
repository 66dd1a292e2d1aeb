import TreeCompiler.Proofs.ControlPaths
import TreeCompiler.Proofs.Emissions

set_option autoImplicit false

namespace TreeCompiler.Lower

open Code Source Resolve

variable {known : Set Temp} {scope : Scope}

mutual

theorem LowersTo.evaluable {expr : Expr} {supply final : Supply} {exp : Exp}
    (lowered : LowersTo scope expr supply exp final)
    (readable : ∀ name ∈ expr.identifiers, ∀ value, scope.value? name = some value →
      value.Evaluable known) : exp.Evaluable known := by
  cases lowered with
  | literal => exact .const _
  | ident bound => exact readable _ List.mem_cons_self _ bound
  | arithmetic _ leftLowered rightLowered =>
      simp only [Expr.identifiers, List.forall_mem_append] at readable
      exact .binop (leftLowered.evaluable readable.1) (rightLowered.evaluable readable.2) _
  | comparison leftLowered rightLowered =>
      simp only [Expr.identifiers, List.forall_mem_append] at readable
      exact .comparison (leftLowered.evaluable readable.1) (rightLowered.evaluable readable.2) _
  | negation operandLowered => exact .binop (.const _) (operandLowered.evaluable readable) _
  | conditional guardLowered thenLowered elseLowered =>
      simp only [Expr.identifiers, List.forall_mem_append] at readable
      exact .conditional (labelsApart_nextJoints supply) (guardLowered.evaluable readable.1.1)
        (thenLowered.evaluable readable.1.2) (elseLowered.evaluable readable.2) _
  | call _ argsLowered => exact .call (argsLowered.evaluable readable) _

theorem LowersAllTo.evaluable {exprs : List Expr} {supply final : Supply} {exps : List Exp}
    (lowered : LowersAllTo scope exprs supply exps final)
    (readable : ∀ name ∈ Expr.identifiersOfAll exprs, ∀ value, scope.value? name = some value →
      value.Evaluable known) : ∀ exp ∈ exps, exp.Evaluable known := by
  cases lowered with
  | nil => simp
  | cons firstLowered restLowered =>
      simp only [Expr.identifiersOfAll, List.forall_mem_append] at readable
      exact List.forall_mem_cons.mpr
        ⟨firstLowered.evaluable readable.1, restLowered.evaluable readable.2⟩

end

def Context.Readable (known : Set Temp) (names : List String) (context : Context StackFrame) :
    Prop :=
  ∀ name ∈ names, ∀ exp, context.value? name = some exp → exp.Evaluable known

section Readable

variable {names : List String} {context : Context StackFrame}

theorem Context.Readable.bindLocal (readable : context.Readable known names) (name : String)
    (temp : Temp) :
    (context.bindLocal name (.inReg temp)).Readable (insert temp known) (name :: names) := by
  intro other member exp bound
  rw [Context.value?_bindLocal] at bound
  split at bound
  next =>
    cases bound
    exact .temp (Set.mem_insert temp known)
  next differs =>
    have earlier := (List.mem_cons.mp member).resolve_left differs
    exact (readable other earlier exp bound).mono (Set.subset_insert temp known)

theorem Context.Readable.bindConstant (readable : context.Readable known names) (name : String)
    (label : Label) :
    (context.bindConstant name (.mem (.name label))).Readable known (name :: names) := by
  intro other member exp bound
  rw [Context.value?_bindConstant] at bound
  split at bound
  next =>
    cases bound
    exact .staticData label
  next differs => exact readable other ((List.mem_cons.mp member).resolve_left differs) exp bound

theorem readable_params {layout : StackLayout} {label : Label} {function : String} {count : Nat}
    {params : List Param} {formals : Bindings Access} (outer : Bindings Access)
    (bound : bindFormals function 0 .empty params (layout.frame label count).formals =
      .ok formals) :
    Context.Readable {layout.framePointer} (params.map Param.name)
      { frame := layout.frame label count, locals := formals.overlay outer } := by
  intro name isParam exp standsFor
  -- A parameter is a word of the frame, which takes the frame pointer to read.
  obtain ⟨access, isFormal, found⟩ := exists_formal bound isParam
  obtain ⟨index, _, rfl⟩ := List.mem_map.mp isFormal
  simp only [Context.value?, Bindings.get?_empty, Bindings.get?_overlay, found, Option.none_or,
    Option.some_or, Option.map_some, Option.some.injEq] at standsFor
  subst standsFor
  exact .frameWord (Set.mem_singleton _) _

end Readable

section Threads

variable {functions : FunctionTable} {static? : Assign → Option Int64} {ending : Expr}
  {context : Context StackFrame} {assigns : List Assign} {supply : Supply} {statements : List Stm}
  {data : List StaticData} {exp : Exp} {names : List String}

theorem ThreadTo.sound {code tail : List Stm} {rest : List Work}
    (lowered : ThreadTo functions static? ending context assigns supply statements data exp)
    (bound : BoundInOrder names assigns)
    (ends : ∀ name ∈ ending.identifiers, name ∈ names ++ assigns.map Assign.name)
    (readable : context.Readable known names)
    (onward : ∀ now, exp.Evaluable now → Sound now (.run code tail :: rest)) :
    Sound known (.run code (statements ++ tail) :: rest) := by
  -- Each move makes its temporary known, and there is one more name to read. What comes after the
  -- assignments only has to be sound where the expression at the end can be evaluated.
  induction lowered generalizing known names with
  | ending _ lowered =>
      exact onward known (lowered.evaluable fun name occurs =>
        readable name (by simpa using ends name occurs))
  | static _ _ _ ih =>
      rw [boundInOrder_cons] at bound
      exact ih bound.2 (fun name occurs => mem_names_cons.mp (ends name occurs))
        (readable.bindConstant _ _) onward
  | computed _ _ valueLowered _ ih =>
      rw [boundInOrder_cons] at bound
      rw [List.cons_append, sound_run_move]
      apply valueLowered.evaluable (fun name occurs => readable name (bound.1 name occurs)) known _
        (Set.Subset.refl known)
      rw [sound_set]
      exact ih bound.2 (fun name occurs => mem_names_cons.mp (ends name occurs))
        (readable.bindLocal _ _) onward

end Threads

section Procedures

variable {functions : FunctionTable} {layout : StackLayout} {supply final : Supply}

theorem DeclaresTo.sound {outer : Bindings Access} {declaration : Declaration}
    {procedure : Procedure StackFrame}
    (lowered : DeclaresTo functions layout outer declaration supply procedure final)
    (wellScoped : declaration.WellScoped) :
    Sound {layout.framePointer} [.run procedure.body.linear procedure.body.linear] := by
  obtain ⟨bound, bodyLowered, resultLowered⟩ := lowered
  have thread := bodyLowered.threadTo resultLowered
  rw [thread.linear_body rfl (by simp)]
  apply thread.sound wellScoped.body _ (readable_params outer bound)
  · intro now evaluable
    rw [sound_run_move]
    exact evaluable now _ (Set.Subset.refl now) (by simp)
  · intro name occurs
    exact List.mem_append.mpr (wellScoped.result name occurs)

theorem StatementsTo.sound {context last : Context StackFrame} {source : List Stmt}
    {statements : List Stm} {fragments : List (Fragment StackFrame)}
    (lowered :
      StatementsTo functions layout context source supply last statements fragments final)
    (wellScoped : ∀ declaration ∈ source.filterMap Stmt.declaration?, declaration.WellScoped) :
    ∀ procedure ∈ procedures fragments,
      Sound {layout.framePointer} [.run procedure.body.linear procedure.body.linear] := by
  induction lowered with
  | nil => simp [procedures]
  | literal _ _ ih => exact ih wellScoped
  | assign _ _ _ ih => exact ih wellScoped
  | declare declared _ ih =>
      obtain ⟨firstScoped, restScoped⟩ := List.forall_mem_cons.mp wellScoped
      exact List.forall_mem_cons.mpr ⟨declared.sound firstScoped, ih restScoped⟩

theorem ProgramTo.sound {resolved : Resolved} {fragments : List (Fragment StackFrame)}
    (lowered : ProgramTo layout resolved supply fragments final)
    (wellScoped : resolved.program.WellScoped) :
    ∀ procedure ∈ procedures fragments,
      Sound {layout.framePointer} [.run procedure.body.linear procedure.body.linear] := by
  obtain ⟨statementsLowered, printLowered⟩ := lowered
  have thread := statementsLowered.threadTo printLowered
  simp only [procedures, List.filterMap_append, List.forall_mem_append]
  refine ⟨statementsLowered.sound wellScoped.declarations, ?_⟩
  simp only [List.filterMap_cons, List.filterMap_nil, Fragment.procedure?,
    List.forall_mem_singleton]
  rw [← Stm.block_filter_append, thread.linear_body rfl (by simp)]
  apply thread.sound wellScoped.values wellScoped.print (by simp [Context.Readable])
  intro now evaluable
  rw [sound_run_exp, sound_call]
  exact evaluable now _ (Set.Subset.refl now) (by simp)

end Procedures

theorem lowerProgram_sets_before_reads {program : Program} {queue : Diagnostic.Queue}
    {resolved : Resolved} (accepted : (resolve program queue).1 = .ok resolved)
    (layout : StackLayout) (supply : Supply) :
    ∃ fragments final, (lowerProgram layout.maker resolved).run supply = .ok fragments final ∧
      ∀ procedure ∈ procedures fragments, ∀ touched left,
        Path [.run procedure.body.linear procedure.body.linear] touched left →
          (∀ before temp after, touched = before ++ .reads temp :: after →
            temp = layout.framePointer ∨ .sets temp ∈ before) ∧
          ¬Stuck left := by
  obtain ⟨wellScoped, rfl⟩ := wellScoped_of_resolve accepted
  obtain ⟨fragments, final, done⟩ := lowerProgram_stack_ok wellScoped layout supply
  exact ⟨fragments, final, done, (programTo_of_run done).sound wellScoped⟩

theorem lowerProgram_sets_before_reads_rebinding :
    let wordSize : WordSize := ⟨8, by decide, by decide⟩
    let (layout, supply) := (StackLayout.reserve wordSize).run {}
    (resolve rebinding {}).1 = .ok (resolution rebinding) ∧
      ∃ fragments final,
        (lowerProgram layout.maker (resolution rebinding)).run supply = .ok fragments final ∧
        ∀ procedure ∈ procedures fragments, ∀ touched left,
          Path [.run procedure.body.linear procedure.body.linear] touched left →
            (∀ before temp after, touched = before ++ .reads temp :: after →
              temp = layout.framePointer ∨ .sets temp ∈ before) ∧
            ¬Stuck left := by
  intro wordSize
  have accepted : (resolve rebinding {}).1 = .ok (resolution rebinding) := rfl
  exact ⟨accepted, lowerProgram_sets_before_reads accepted _ _⟩

end TreeCompiler.Lower
