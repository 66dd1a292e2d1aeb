import TreeCompiler.Proofs.Activation
import TreeCompiler.Proofs.Transparency

set_option autoImplicit false

namespace TreeCompiler

open Code Source Resolve

namespace Source.Expr

def isLiteral : Expr → Bool
  | literal .. => true
  | _ => false

variable {expr : Expr}

theorem literal?_eq_some {value : Int64} (found : expr.literal? = some value) :
    ∃ span, expr = literal value span := by
  cases expr with
  | literal held span =>
      cases found
      exact ⟨span, rfl⟩
  | _ => cases found

theorem isNone_literal? (expr : Expr) : expr.literal?.isNone = !expr.isLiteral := by
  cases expr <;> rfl

theorem literal?_eq_none (missing : expr.literal? = none) : expr.isLiteral = false := by
  simpa [missing] using isNone_literal? expr

end Source.Expr

/-- The offset is that many words above the frame pointer, or the greatest one if that is less. -/
def StackLayout.PlacesFormal (layout : StackLayout) (index : Nat) (offset : Int64) : Prop :=
  offset.toInt = min (((index + 2) * layout.wordSize.bytes : Nat) : Int) Int64.maxValue.toInt

theorem StackLayout.formals_frame_get? (layout : StackLayout) (label : Label) {count index : Nat}
    (within : index < count) :
    ∃ offset, (layout.frame label count).formals[index]? = some (.inFrame offset) ∧
      layout.PlacesFormal index offset :=
  ⟨layout.formalOffset index, by simp [StackLayout.frame, within], layout.toInt_formalOffset index⟩

namespace Lower

/-- The code of the expression, whatever its names stand for and whichever names it draws. -/
def IsCodeFor (expr : Expr) (exp : Exp) : Prop :=
  ∃ scope supply final, (lowerExpr scope expr).run supply = .ok (.value exp) final

theorem LowersTo.isCodeFor {scope : Scope} {expr : Expr} {supply final : Supply} {exp : Exp}
    (lowered : LowersTo scope expr supply exp final) : IsCodeFor expr exp :=
  ⟨scope, supply, final, lowered.run⟩

def MovesValue (assign : Assign) (statement : Stm) : Prop :=
  ∃ temp exp, statement = .move (.temp temp) exp ∧ IsCodeFor assign.value exp

section Threads

variable {functions : FunctionTable} {static? : Assign → Option Int64} {ending : Expr}
  {context : Context StackFrame} {assigns : List Assign} {supply : Supply} {statements : List Stm}
  {data : List StaticData} {exp : Exp}

theorem ThreadTo.movesValues
    (lowered : ThreadTo functions static? ending context assigns supply statements data exp) :
    List.Forall₂ MovesValue (assigns.filter fun assign => (static? assign).isNone) statements := by
  induction lowered with
  | ending => exact .nil
  | static isStatic _ _ ih => simpa [isStatic] using ih
  | computed isComputed _ valueLowered _ ih =>
      rw [List.filter_cons_of_pos (by simp [isComputed])]
      exact .cons ⟨_, _, rfl, valueLowered.isCodeFor⟩ ih

theorem ThreadTo.ending_isCodeFor
    (lowered : ThreadTo functions static? ending context assigns supply statements data exp) :
    IsCodeFor ending exp := by
  induction lowered with
  | ending _ lowered => exact lowered.isCodeFor
  | static _ _ _ ih => exact ih
  | computed _ _ _ _ ih => exact ih

theorem ThreadTo.onlyMoves
    (lowered : ThreadTo functions static? ending context assigns supply statements data exp) :
    ∀ statement ∈ statements, ∃ temp source, statement = .move (.temp temp) source := by
  induction lowered with
  | ending => simp
  | static _ _ _ ih => exact ih
  | computed _ _ _ _ ih => exact List.forall_mem_cons.mpr ⟨⟨_, _, rfl⟩, ih⟩

theorem ThreadTo.busy
    (lowered : ThreadTo functions static? ending context assigns supply statements data exp) :
    ∀ statement ∈ statements, statement.isNop = false := by
  intro statement member
  obtain ⟨_, _, rfl⟩ := lowered.onlyMoves statement member
  rfl

theorem ThreadTo.linear_body
    (lowered : ThreadTo functions static? ending context assigns supply statements data exp)
    {last : Stm} (single : last.linear = [last]) (notNop : last ≠ .nop) :
    (Stm.block (statements ++ [last])).linear = statements ++ [last] := by
  have noneEmpty : statements.filter (fun statement => !statement.isNop) = statements :=
    List.filter_eq_self.mpr fun statement member => by simp [lowered.busy statement member]
  have eachSingle : statements.flatMap Stm.linear = statements.flatMap ([·]) := by
    apply List.flatMap_congr
    intro statement member
    obtain ⟨_, _, rfl⟩ := lowered.onlyMoves statement member
    rfl
  rw [Stm.linear_block_concat single notNop, noneEmpty, eachSingle, List.flatMap_singleton']

end Threads

theorem findProcedure?_of_mem {fragments : List (Fragment StackFrame)}
    {procedure : Procedure StackFrame}
    (distinct : (procedureLabels fragments).Nodup) (member : .procedure procedure ∈ fragments) :
    findProcedure? (Frame.label procedure.frame) fragments = some procedure :=
  find?_of_nodup_map distinct (List.mem_filterMap.mpr ⟨_, member, rfl⟩)

theorem ProgramTo.nodup_procedureLabels {layout : StackLayout} {resolved : Resolved}
    {supply final : Supply} {fragments : List (Fragment StackFrame)}
    (lowered : ProgramTo layout resolved supply fragments final)
    (distinct : resolved.program.functionNames.Nodup) : (procedureLabels fragments).Nodup := by
  rw [lowered.procedureLabels_eq]
  exact Lower.nodup_procedureLabels distinct

structure FunctionShape (layout : StackLayout) (declaration : Declaration)
    (procedure : Procedure StackFrame) : Prop where
  label : Frame.label procedure.frame = Label.function declaration.name
  formals : (Frame.formals procedure.frame).length = declaration.params.length
  places : ∀ index < declaration.params.length, ∃ offset,
    (Frame.formals procedure.frame)[index]? = some (.inFrame offset) ∧
      layout.PlacesFormal index offset
  body : ∃ moves exp, procedure.body.linear = moves ++ [.move (.temp layout.returnValue) exp] ∧
    List.Forall₂ MovesValue declaration.body moves ∧ IsCodeFor declaration.result exp

variable {functions : FunctionTable} {layout : StackLayout} {supply final : Supply}
  {context last : Context StackFrame}

theorem AssignsTo.movesValues {assigns : List Assign} {statements : List Stm}
    (lowered : AssignsTo functions context assigns supply last statements final) :
    List.Forall₂ MovesValue assigns statements := by
  induction lowered with
  | nil => exact .nil
  | cons valueLowered _ ih => exact .cons ⟨_, _, rfl, valueLowered.isCodeFor⟩ ih

theorem DeclaresTo.shape {outer : Bindings Access} {declaration : Declaration}
    {procedure : Procedure StackFrame}
    (lowered : DeclaresTo functions layout outer declaration supply procedure final) :
    FunctionShape layout declaration procedure := by
  have labelled := lowered.frame_label
  obtain ⟨_, bodyLowered, resultLowered⟩ := lowered
  have thread := bodyLowered.threadTo resultLowered
  exact {
    label := labelled
    formals := by simp [Frame.formals, StackLayout.frame]
    places := fun index within => layout.formals_frame_get? _ within
    body := ⟨_, _, thread.linear_body rfl (by simp), bodyLowered.movesValues,
      thread.ending_isCodeFor⟩ }

structure Emission where
  code : Stm
  fragments : List (Fragment StackFrame)

inductive Emits (layout : StackLayout) : Stmt → Emission → Prop
  -- The name stands for the data from then on, which takes no code.
  | literal {assign value span label} (literal : assign.value = .literal value span) :
      Emits layout (.assign assign)
        { code := .nop, fragments := [.data { label, values := [value] }] }
  | computed {assign statement} (computed : assign.value.isLiteral = false)
      (moves : MovesValue assign statement) :
      Emits layout (.assign assign) { code := statement, fragments := [] }
  -- The frame around a declaration is not touched.
  | declare {declaration procedure} (shape : FunctionShape layout declaration procedure) :
      Emits layout (.declare declaration) { code := .nop, fragments := [.procedure procedure] }

structure Emitted (layout : StackLayout) (source : List Stmt) (statements : List Stm)
    (fragments : List (Fragment StackFrame)) (emissions : List Emission) : Prop where
  each : List.Forall₂ (Emits layout) source emissions
  code : statements = emissions.map Emission.code
  fragments : fragments = emissions.flatMap Emission.fragments

theorem Emitted.cons {statement : Stmt} {source : List Stmt} {statements : List Stm}
    {fragments : List (Fragment StackFrame)} {emission : Emission} {emissions : List Emission}
    (first : Emits layout statement emission)
    (rest : Emitted layout source statements fragments emissions) :
    Emitted layout (statement :: source) (emission.code :: statements)
      (emission.fragments ++ fragments) (emission :: emissions) where
  each := .cons first rest.each
  code := by rw [rest.code, List.map_cons]
  fragments := by rw [rest.fragments, List.flatMap_cons]

def assignments (source : List Stmt) (emissions : List Emission) : List (Assign × Emission) :=
  (source.zip emissions).filterMap fun (statement, emission) => statement.assign?.map (·, emission)

def lastAssigned? {α : Type} (name : String) (assigned : List (Assign × α)) :
    Option (Assign × α) :=
  assigned.reverse.find? fun (assign, _) => assign.name = name

theorem lastAssigned?_cons {α : Type} (name : String) (assign : Assign) (left : α)
    (rest : List (Assign × α)) :
    lastAssigned? name ((assign, left) :: rest) =
      (lastAssigned? name rest).or (if assign.name = name then some (assign, left) else none) := by
  rw [lastAssigned?, List.reverse_cons, List.find?_append]
  congr 1
  by_cases same : assign.name = name <;> simp [same]

/-- The name stands for what its last assignment made of it, and for the same as before if none. -/
def StandsAfter {α : Type} (reads : α → Exp → Prop) (assigned : Option α)
    (before after : Option Exp) : Prop :=
  match assigned with
  | none => after = before
  | some entry => ∃ exp, after = some exp ∧ reads entry exp

theorem StandsAfter.rebound {α : Type} {reads : Assign × α → Exp → Prop} {name : String}
    {assign : Assign} {left : α} {rest : List (Assign × α)} {exp : Exp}
    {before after : Option Exp}
    (later : StandsAfter reads (lastAssigned? name rest)
      (if name = assign.name then some exp else before) after)
    (first : reads (assign, left) exp) :
    StandsAfter reads (lastAssigned? name ((assign, left) :: rest)) before after := by
  -- The first assignment only shows through if no later one is of the same name.
  rw [lastAssigned?_cons]
  cases found : lastAssigned? name rest with
  | some entry => simpa [found, StandsAfter] using later
  | none =>
      rw [found] at later
      obtain rfl : after = if name = assign.name then some exp else before := later
      by_cases same : name = assign.name
      · rw [if_pos same, if_pos same.symm]
        exact ⟨exp, rfl, first⟩
      · rw [if_neg same, if_neg (Ne.symm same)]
        rfl

inductive ReadsBack : Assign × Emission → Exp → Prop
  | literal {assign value span label code} (literal : assign.value = .literal value span) :
      ReadsBack (assign, { code, fragments := [.data { label, values := [value] }] })
        (.mem (.name label))
  | computed {assign temp source fragments} (computed : assign.value.isLiteral = false) :
      ReadsBack (assign, { code := .move (.temp temp) source, fragments }) (.temp temp)

theorem StatementsTo.emitted {source : List Stmt} {statements : List Stm}
    {fragments : List (Fragment StackFrame)}
    (lowered :
      StatementsTo functions layout context source supply last statements fragments final) :
    ∃ emissions, Emitted layout source statements fragments emissions ∧
      ∀ name, StandsAfter ReadsBack (lastAssigned? name (assignments source emissions))
        (context.value? name) (last.value? name) := by
  -- A name stands for a part of what its last assignment leaves, so the emissions and the names are
  -- found in one induction.
  induction lowered with
  | nil => exact ⟨[], ⟨.nil, rfl, rfl⟩, fun _ => rfl⟩
  | literal found _ ih =>
      obtain ⟨emissions, emitted, stands⟩ := ih
      obtain ⟨span, literal⟩ := Expr.literal?_eq_some found
      refine ⟨_, .cons (.literal literal) emitted, fun name => ?_⟩
      have later := stands name
      rw [Context.value?_bindConstant] at later
      exact later.rebound (.literal literal)
  | assign missing valueLowered _ ih =>
      obtain ⟨emissions, emitted, stands⟩ := ih
      have computed := Expr.literal?_eq_none missing
      refine ⟨_, .cons (.computed computed ⟨_, _, rfl, valueLowered.isCodeFor⟩) emitted,
        fun name => ?_⟩
      have later := stands name
      rw [Context.value?_bindLocal] at later
      exact later.rebound (.computed computed)
  | declare declared _ ih =>
      obtain ⟨emissions, emitted, stands⟩ := ih
      exact ⟨_, .cons (.declare declared.shape) emitted, stands⟩

def rebinding : Program where
  -- A name is assigned in both ways, and a function is named like the main procedure.
  statements := [
    .assign { name := "x", value := .literal 3 },
    .declare {
      name := "main"
      returnType := .integer
      params := [{ type := .integer, name := "a" }, { type := .integer, name := "b" }]
      body := [
        { name := "a", value := .literal 1 },
        { name := "y"
          value := .conditional (.binary .lessThan (.ident "a") (.ident "b")) (.ident "b")
            (.literal 2) }]
      result := .binary .plus (.ident "y") (.ident "b") },
    .assign {
      name := "x"
      value := .binary .lessThan (.ident "x") (.call "main" [.ident "x", .literal 0]) }]
  print := { exp := .conditional (.ident "x") (.literal 1) (.literal 0) }

end Lower

end TreeCompiler
