import TreeCompiler.Proofs.Activation
import TreeCompiler.Proofs.LabelDiscipline

set_option autoImplicit false

namespace TreeCompiler.Lower

open Code Source Resolve

variable {table : FunctionTable} {layout : StackLayout} {supply final : Supply}

def Implements (table : FunctionTable) (layout : StackLayout) (declaration : Declaration)
    (procedure : Procedure StackFrame) : Prop :=
  ∃ outer supply final, DeclaresTo table layout outer declaration supply procedure final ∧
    Hidden layout supply.temps outer ∧ layout.framePointer.index < supply.temps

theorem StatementsTo.implements {context last : Context StackFrame} {source : List Stmt}
    {statements : List Stm} {fragments : List (Fragment StackFrame)}
    (lowered : StatementsTo table layout context source supply last statements fragments final)
    (pointer : layout.framePointer.index < supply.temps)
    (hidden : Hidden layout supply.temps context.locals) :
    List.Forall₂ (Implements table layout) (source.filterMap Stmt.declaration?)
      (procedures fragments) := by
  induction lowered with
  | nil => exact .nil
  | literal _ _ ih => exact ih pointer (hidden.erase _)
  | assign _ valueLowered _ ih =>
      have atMiddle := valueLowered.temps_le
      exact ih (by rw [Supply.temps_afterTemp]; omega) (hidden.insert pointer atMiddle _)
  | declare declared _ ih =>
      -- Later declarations see the same locals, further below the supply.
      have atMiddle := Supply.temps_mono declared.supply_le
      have restImplements := ih (Nat.lt_of_lt_of_le pointer atMiddle) (hidden.raise atMiddle)
      exact .cons ⟨_, _, _, declared, hidden, pointer⟩ restImplements

theorem not_runtimeCall_function {name : String} {args : List Value} {before after : World}
    {result : Value} : ¬RuntimeCall (Label.function name) args before result after := by
  generalize function : Label.function name = label
  rintro ⟨⟩
  exact Label.function_ne_print name function

theorem staticData_of_mem {fragments : List (Fragment StackFrame)}
    (distinct : (dataLabels fragments).Nodup) {word : StaticData}
    (listed : word ∈ fragments.filterMap Fragment.data?) :
    staticData fragments word.label = word.values.head?.map .word := by
  have found : (fragments.filterMap Fragment.data?).find? (fun other => other.label = word.label) =
      some word :=
    find?_of_nodup_map distinct listed
  rw [staticData, found, Option.map_eq_bind]
  rfl

section Programs

variable {resolved : Resolved} {fragments : List (Fragment StackFrame)}

theorem ProgramTo.find_implements (lowered : ProgramTo layout resolved supply fragments final)
    (pointer : layout.framePointer.index < supply.temps) (name : String) :
    Option.Rel (Implements resolved.functions layout)
      (resolved.program.declarations.find? fun declaration => declaration.name = name)
      (findProcedure? (Label.function name) fragments) := by
  obtain ⟨statementsLowered, _⟩ := lowered
  rw [findProcedure?_function rfl]
  apply find_procedure
  · rintro declaration procedure ⟨_, _, _, declared, _⟩
    exact declared.frame_label
  · apply statementsLowered.implements pointer
    intro name access bound
    simp at bound

theorem ProgramTo.callsAgree (lowered : ProgramTo layout resolved supply fragments final)
    (pointer : layout.framePointer.index < supply.temps)
    (fits : ∀ declaration ∈ resolved.program.declarations,
      layout.wordSize.KeepsApart declaration.params.length) (depth : Nat) :
    CallsAgree (resolved.program.functionValues depth) (callsWithin fragments depth) := by
  induction depth with
  | zero =>
      intro name args before result after
      simp [callsWithin, not_runtimeCall_function, Program.functionValues]
  | succ depth ih =>
      -- The calls in a body nest less deep than the one that runs it, on either side.
      intro name args before result after
      have corresponding := lowered.find_implements pointer name
      simp only [callsWithin, not_runtimeCall_function, false_or, Program.functionValues]
      generalize found : findProcedure? (Label.function name) fragments = procedure?
        at corresponding ⊢
      cases declared : resolved.program.declarations.find? fun declaration =>
          declaration.name = name with
      | none =>
          rw [declared] at corresponding
          cases corresponding
          simp
      | some declaration =>
          rw [declared] at corresponding
          cases corresponding with
          | @some _ procedure implements =>
              obtain ⟨outer, start, _, declares, hidden, pointerBelow⟩ := implements
              have declarationFits := fits declaration (List.mem_of_find?_eq_some declared)
              simpa using declares.runs_iff ih declarationFits pointerBelow hidden args before
                result after

theorem ProgramTo.callsPrint (lowered : ProgramTo layout resolved supply fragments final)
    (depth : Nat) {args : List Value} {before after : World} {result : Value} :
    callsWithin fragments depth Label.print args before result after ↔
      RuntimeCall Label.print args before result after := by
  have absent : Label.print ∉ procedureLabels fragments := by
    rw [lowered.procedureLabels_eq, List.mem_append, List.mem_map, List.mem_singleton]
    rintro (⟨name, _, same⟩ | same)
    · exact Label.function_ne_print name same
    · exact absurd same (by decide)
  cases depth with
  | zero => rfl
  | succ depth => simp [callsWithin, findProcedure?_eq_none absent]

theorem ProgramTo.nodup_dataLabels (lowered : ProgramTo layout resolved supply fragments final) :
    (dataLabels fragments).Nodup :=
  lowered.nodup_generatedLabels.sublist (dataLabels_sublist fragments)

theorem represents_empty {calls : Calls} {base : State} {bound : Nat} {frame : StackFrame} :
    Represents calls base bound (Context.scope { frame } table) .empty := by
  intro name exp standsFor
  simp [Context.scope, Context.value?] at standsFor

theorem ProgramTo.prints_iff (lowered : ProgramTo layout resolved supply fragments final)
    (pointer : layout.framePointer.index < supply.temps)
    (fits : ∀ declaration ∈ resolved.program.declarations,
      layout.wordSize.KeepsApart declaration.params.length) (value : Int64) :
    Prints fragments value ↔ resolved.program.EvaluatesTo value := by
  have agree := lowered.callsAgree pointer fits
  have callsPrint := lowered.callsPrint
  have distinct := lowered.nodup_dataLabels
  obtain @⟨_, statements, others, _, exp, _, statementsLowered, printLowered⟩ := lowered
  -- Data and procedures are looked up in all the fragments, which stay as they are from here on.
  generalize code : others ++ [_] = fragments at agree callsPrint distinct ⊢
  have mainFound : findProcedure? Label.main fragments = some _ :=
    code ▸ statementsLowered.findProcedure?_main rfl
  have holds : Holds (State.entry (layout.frame Label.main 0) [] { data := staticData fragments })
      others := by
    intro word listed
    rw [layout.entry_world]
    apply staticData_of_mem distinct
    rw [← code, List.filterMap_append]
    exact List.mem_append_left _ listed
  have printSingle : (Stm.exp (.call Label.print [exp])).linear =
      [.exp (.call Label.print [exp])] := rfl
  simp only [Prints, Program.EvaluatesTo, mainFound, Option.some.injEq, exists_and_left,
    exists_eq_left']
  refine exists_congr fun depth => ?_
  have body := statementsLowered.carriesOut (agree depth) represents_empty holds
  simp only [executes_body statementsLowered.single printSingle]
  rw [executes_print (agree depth) (callsPrint depth) body printLowered, layout.entry_world]
  simp [Program.evalWithin, Program.assigns]

/--
Lowering keeps the meaning of every accepted program, under a layout that was reserved before.
The formals of a frame must have words of their own (`StackLayout.nodup_formals_iff`).
-/
theorem lowerProgram_preserves_meaning {program : Program} {queue : Diagnostic.Queue}
    (accepted : (resolve program queue).1 = .ok resolved) {wordSize : WordSize}
    {earlier later : Supply}
    (reserves : (StackLayout.reserve wordSize).run earlier = (layout, later))
    (drawn : later ≤ supply)
    (fits : ∀ declaration ∈ program.declarations,
      wordSize.KeepsApart declaration.params.length) :
    ∃ fragments final, (lowerProgram layout.maker resolved).run supply = .ok fragments final ∧
      ∀ value, program.EvaluatesTo value ↔ Prints fragments value := by
  obtain ⟨wellScoped, rfl⟩ := wellScoped_of_resolve accepted
  obtain ⟨fragments, final, done⟩ := lowerProgram_stack_ok wellScoped layout supply
  rw [StackLayout.run_reserve, Prod.mk.injEq] at reserves
  obtain ⟨rfl, rfl⟩ := reserves
  have pointer : (StackLayout.reserved wordSize earlier).framePointer.index < supply.temps := by
    have atSupply := Supply.temps_mono drawn
    rw [Supply.temps_afterTemp, Supply.temps_afterTemp] at atSupply
    change earlier.temps < supply.temps
    omega
  exact ⟨fragments, final, done, fun value =>
    ((programTo_of_run done).prints_iff pointer fits value).symm⟩

end Programs

def evenOdd : Program where
  -- Both functions call each other, the first one before it is declared.
  statements := [
    .assign { name := "x", value := .literal 3 },
    .assign { name := "x", value := .binary .times (.ident "x") (.call "odd" [.ident "x"]) },
    .declare {
      name := "even"
      returnType := .integer
      params := [{ type := .integer, name := "n" }]
      body := []
      result := .conditional (.binary .lessThan (.ident "n") (.literal 1)) (.literal 1)
        (.call "odd" [.binary .minus (.ident "n") (.literal 1)]) },
    .declare {
      name := "odd"
      returnType := .integer
      params := [{ type := .integer, name := "n" }]
      body := [
        { name := "x", value := .binary .minus (.ident "n") (.literal 1) },
        { name := "n", value := .binary .lessThan (.ident "n") (.literal 1) }]
      result := .conditional (.ident "n") (.literal 0) (.call "even" [.ident "x"]) }]
  print := { exp := .binary .plus (.ident "x") (.negation (.call "even" [.ident "x"])) }

theorem lowerProgram_preserves_meaning_evenOdd :
    let wordSize : WordSize := ⟨8, by decide, by decide⟩
    let (layout, supply) := (StackLayout.reserve wordSize).run {}
    (resolve evenOdd {}).1 = .ok (resolution evenOdd) ∧
      ∃ fragments final,
        (lowerProgram layout.maker (resolution evenOdd)).run supply = .ok fragments final ∧
        Prints fragments 4 := by
  intro wordSize
  have accepted : (resolve evenOdd {}).1 = .ok (resolution evenOdd) := rfl
  have evaluates : evenOdd.EvaluatesTo 4 := ⟨4, by decide⟩
  obtain ⟨fragments, final, done, sameMeaning⟩ :=
    lowerProgram_preserves_meaning accepted (StackLayout.run_reserve wordSize {}) (le_refl _)
      (by decide)
  exact ⟨accepted, fragments, final, done, (sameMeaning 4).mp evaluates⟩

end TreeCompiler.Lower
