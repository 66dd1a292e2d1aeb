import Mathlib.Order.Nat
import TreeCompiler.Compile

set_option autoImplicit false

namespace TreeCompiler

open Code Source Resolve

namespace LowerM

variable {α β : Type} {supply final : Supply}

@[simp] theorem run_pure (value : α) :
    (pure value : LowerM α).run supply = .ok value supply := rfl

@[simp] theorem run_throw (error : LowerError) :
    (throw error : LowerM α).run supply = .error error supply := rfl

theorem run_bind_of_ok {action : LowerM α} {next : α → LowerM β} {value : α} {middle : Supply}
    (done : action.run supply = .ok value middle) :
    (action >>= next).run supply = (next value).run middle := by
  simp only [EStateM.run, bind, EStateM.bind] at done ⊢
  rw [done]

theorem run_bind_of_error {action : LowerM α} {next : α → LowerM β} {error : LowerError}
    {middle : Supply} (failed : action.run supply = .error error middle) :
    (action >>= next).run supply = .error error middle := by
  simp only [EStateM.run, bind, EStateM.bind] at failed ⊢
  rw [failed]

theorem run_bind_eq_ok {action : LowerM α} {next : α → LowerM β} {result : β} :
    (action >>= next).run supply = .ok result final ↔
      ∃ value middle, action.run supply = .ok value middle ∧
        (next value).run middle = .ok result final := by
  constructor
  · intro done
    cases first : action.run supply with
    | ok value middle =>
        rw [run_bind_of_ok first] at done
        exact ⟨value, middle, rfl, done⟩
    | error error middle =>
        rw [run_bind_of_error first] at done
        cases done
  · rintro ⟨value, middle, first, second⟩
    rw [run_bind_of_ok first, second]

theorem run_pure_eq_ok {value result : α} :
    (pure value : LowerM α).run supply = .ok result final ↔ value = result ∧ supply = final := by
  simp

theorem run_draw_eq_ok {action : StateM Supply α} {result : α} :
    (draw action).run supply = .ok result final ↔ action.run supply = (result, final) := by
  rw [run_draw]
  constructor
  · intro done
    cases done
    rfl
  · intro drawn
    rw [drawn]

theorem run_ofExcept_eq_ok {outcome : Except LowerError α} {result : α} :
    (ofExcept outcome).run supply = .ok result final ↔ outcome = .ok result ∧ supply = final := by
  cases outcome <;> simp [ofExcept]

end LowerM

namespace Code.Supply

def nextTemp (supply : Supply) : Temp := ⟨supply.temps⟩

def nextLabel (supply : Supply) : Label := Label.numbered supply.labels

def afterTemp (supply : Supply) : Supply := { supply with temps := supply.temps + 1 }

def afterLabel (supply : Supply) : Supply := { supply with labels := supply.labels + 1 }

def nextJoints (supply : Supply) : Lower.Joints where
  thenLabel := supply.nextLabel
  elseLabel := supply.afterLabel.nextLabel
  joinLabel := supply.afterLabel.afterLabel.nextLabel

def afterJoints (supply : Supply) : Supply := supply.afterLabel.afterLabel.afterLabel

@[simp] theorem temps_afterTemp (supply : Supply) :
    supply.afterTemp.temps = supply.temps + 1 := rfl

@[simp] theorem labels_afterTemp (supply : Supply) : supply.afterTemp.labels = supply.labels := rfl

@[simp] theorem temps_afterLabel (supply : Supply) : supply.afterLabel.temps = supply.temps := rfl

@[simp] theorem labels_afterLabel (supply : Supply) :
    supply.afterLabel.labels = supply.labels + 1 := rfl

@[simp] theorem temps_afterJoints (supply : Supply) : supply.afterJoints.temps = supply.temps := rfl

@[simp] theorem labels_afterJoints (supply : Supply) :
    supply.afterJoints.labels = supply.labels + 3 := rfl

theorem run_freshTemp_eq (supply : Supply) :
    freshTemp.run supply = (supply.nextTemp, supply.afterTemp) := rfl

theorem run_freshLabel_eq (supply : Supply) :
    freshLabel.run supply = (supply.nextLabel, supply.afterLabel) := rfl

theorem run_freshJoints_eq (supply : Supply) :
    Lower.freshJoints.run supply = (supply.nextJoints, supply.afterJoints) := rfl

-- A supply precedes those that are left of it after names have been drawn.
instance : Preorder Supply := Preorder.lift fun supply => (supply.temps, supply.labels)

theorem le_iff {supply final : Supply} :
    supply ≤ final ↔ supply.temps ≤ final.temps ∧ supply.labels ≤ final.labels := Iff.rfl

theorem temps_mono {supply final : Supply} (earlier : supply ≤ final) :
    supply.temps ≤ final.temps := earlier.1

theorem labels_mono {supply final : Supply} (earlier : supply ≤ final) :
    supply.labels ≤ final.labels := earlier.2

theorem le_afterTemp (supply : Supply) : supply ≤ supply.afterTemp := by simp [le_iff]

theorem le_afterLabel (supply : Supply) : supply ≤ supply.afterLabel := by simp [le_iff]

theorem le_afterJoints (supply : Supply) : supply ≤ supply.afterJoints := by simp [le_iff]

end Code.Supply

def StackLayout.reserved (wordSize : WordSize) (supply : Supply) : StackLayout where
  wordSize := wordSize
  framePointer := supply.nextTemp
  returnValue := supply.afterTemp.nextTemp

theorem StackLayout.run_reserve (wordSize : WordSize) (supply : Supply) :
    (StackLayout.reserve wordSize).run supply =
      (StackLayout.reserved wordSize supply, supply.afterTemp.afterTemp) := rfl

/-- The two temporaries that all frames share are not drawn from the supply any more. -/
structure StackLayout.DrawnBefore (layout : StackLayout) (supply : Supply) : Prop where
  pointer : layout.framePointer.index < layout.returnValue.index
  value : layout.returnValue.index < supply.temps

theorem StackLayout.DrawnBefore.distinct {layout : StackLayout} {supply : Supply}
    (before : layout.DrawnBefore supply) : layout.framePointer ≠ layout.returnValue :=
  fun same => Nat.ne_of_lt before.pointer (congrArg Temp.index same)

theorem StackLayout.DrawnBefore.later {layout : StackLayout} {supply final : Supply}
    (before : layout.DrawnBefore supply) (later : supply ≤ final) : layout.DrawnBefore final :=
  ⟨before.pointer, Nat.lt_of_lt_of_le before.value (Supply.temps_mono later)⟩

theorem StackLayout.drawnBefore_of_reserve {wordSize : WordSize} {layout : StackLayout}
    {earlier later supply : Supply}
    (reserves : (StackLayout.reserve wordSize).run earlier = (layout, later))
    (drawn : later ≤ supply) : layout.DrawnBefore supply := by
  rw [StackLayout.run_reserve, Prod.mk.injEq] at reserves
  obtain ⟨rfl, rfl⟩ := reserves
  exact StackLayout.DrawnBefore.later ⟨Nat.lt_succ_self _, Nat.lt_succ_self _⟩ drawn

theorem lowerOnStack_of_run {wordSize : WordSize} {resolved : Resolved}
    {fragments : List (Fragment StackFrame)} {final : Supply}
    (done : (Lower.lowerProgram (StackLayout.reserved wordSize {}).maker resolved).run
      (Supply.afterTemp (Supply.afterTemp {})) = .ok fragments final) :
    lowerOnStack wordSize resolved = .ok fragments := by
  simp only [lowerOnStack, StackLayout.run_reserve, done]

namespace Lower

open LowerM

mutual

/--
An expression and its code, with the supply before and after. This is the table of the lowering:
one rule for each form of expression that has code.
-/
inductive LowersTo (scope : Scope) : Expr → Supply → Exp → Supply → Prop
  | literal {value span supply} : LowersTo scope (.literal value span) supply (.const value) supply
  | ident {name span supply exp} (bound : scope.value? name = some exp) :
      LowersTo scope (.ident name span) supply exp supply
  | arithmetic {op instruction left right span supply middle final leftExp rightExp}
      (instructed : arithmetic? op = some instruction)
      (leftLowered : LowersTo scope left supply leftExp middle)
      (rightLowered : LowersTo scope right middle rightExp final) :
      LowersTo scope (.binary op left right span) supply
        (.binop instruction leftExp rightExp) final
  | comparison {left right span supply middle final leftExp rightExp}
      (leftLowered : LowersTo scope left supply leftExp middle)
      (rightLowered : LowersTo scope right middle rightExp final) :
      LowersTo scope (.binary .lessThan left right span) supply
        (.eseq (comparison leftExp rightExp final.nextTemp) (.temp final.nextTemp)) final.afterTemp
  | negation {operand span supply final exp} (lowered : LowersTo scope operand supply exp final) :
      LowersTo scope (.negation operand span) supply
        (.binop .minus (.const Lowered.truth) exp) final
  | conditional {guard thenBranch elseBranch span supply middle later final guardExp thenExp elseExp}
      (guardLowered : LowersTo scope guard supply.afterJoints.afterTemp guardExp middle)
      (thenLowered : LowersTo scope thenBranch middle thenExp later)
      (elseLowered : LowersTo scope elseBranch later elseExp final) :
      LowersTo scope (.conditional guard thenBranch elseBranch span) supply
        (.eseq
          (diamond supply.nextJoints
            (.cjump .equal guardExp (.const Lowered.truth) supply.nextJoints.thenLabel
              supply.nextJoints.elseLabel)
            thenExp elseExp supply.nextTemp)
          (.temp supply.nextTemp)) final
  | call {callee args span supply final exps} (declared : scope.declares callee)
      (argsLowered : LowersAllTo scope args supply exps final) :
      LowersTo scope (.call callee args span) supply (.call (Label.function callee) exps) final

inductive LowersAllTo (scope : Scope) : List Expr → Supply → List Exp → Supply → Prop
  | nil {supply} : LowersAllTo scope [] supply [] supply
  | cons {first rest supply middle final exp exps}
      (firstLowered : LowersTo scope first supply exp middle)
      (restLowered : LowersAllTo scope rest middle exps final) :
      LowersAllTo scope (first :: rest) supply (exp :: exps) final

end

variable {scope : Scope} {supply final : Supply}

theorem run_toExp (exp : Exp) :
    (ofExcept (Lowered.value exp).toExp).run supply = .ok exp supply := rfl

theorem run_toBranch (exp : Exp) (ifTrue ifFalse : Label) :
    (ofExcept ((Lowered.value exp).toBranch ifTrue ifFalse)).run supply =
      .ok (.cjump .equal exp (.const Lowered.truth) ifTrue ifFalse) supply := rfl

mutual

theorem lowersTo_of_run : (expr : Expr) → {supply : Supply} → {lowered : Lowered} →
    {final : Supply} → (lowerExpr scope expr).run supply = .ok lowered final →
      ∃ exp, lowered = .value exp ∧ LowersTo scope expr supply exp final
  | .literal value span, supply, lowered, final, done => by
      simp only [lowerExpr, run_pure_eq_ok] at done
      obtain ⟨rfl, rfl⟩ := done
      exact ⟨_, rfl, .literal⟩
  | .ident name span, supply, lowered, final, done => by
      simp only [lowerExpr] at done
      split at done
      next exp bound =>
        obtain ⟨rfl, rfl⟩ := run_pure_eq_ok.mp done
        exact ⟨_, rfl, .ident bound⟩
      next => cases done
  | .binary op left right span, supply, lowered, final, done => by
      simp only [lowerExpr, run_bind_eq_ok, run_ofExcept_eq_ok] at done
      obtain ⟨_, _, leftDone, leftExp, _, ⟨leftValue, rfl⟩, _, _, rightDone, rightExp, _,
        ⟨rightValue, rfl⟩, done⟩ := done
      obtain ⟨_, rfl, leftLowered⟩ := lowersTo_of_run left leftDone
      obtain ⟨_, rfl, rightLowered⟩ := lowersTo_of_run right rightDone
      cases leftValue
      cases rightValue
      cases op
      case lessThan =>
        simp only [arithmetic?, run_bind_eq_ok, run_draw_eq_ok, Supply.run_freshTemp_eq,
          run_pure_eq_ok] at done
        obtain ⟨_, _, drawn, rfl, rfl⟩ := done
        cases drawn
        exact ⟨_, rfl, .comparison leftLowered rightLowered⟩
      all_goals
        obtain ⟨rfl, rfl⟩ := run_pure_eq_ok.mp done
        exact ⟨_, rfl, .arithmetic rfl leftLowered rightLowered⟩
  | .negation operand span, supply, lowered, final, done => by
      simp only [lowerExpr, run_bind_eq_ok, run_ofExcept_eq_ok, run_pure_eq_ok] at done
      obtain ⟨_, _, operandDone, _, _, ⟨value, rfl⟩, rfl, rfl⟩ := done
      obtain ⟨_, rfl, operandLowered⟩ := lowersTo_of_run operand operandDone
      cases value
      exact ⟨_, rfl, .negation operandLowered⟩
  | .conditional guard thenBranch elseBranch span, supply, lowered, final, done => by
      simp only [lowerExpr, run_bind_eq_ok, run_draw_eq_ok, Supply.run_freshJoints_eq,
        Supply.run_freshTemp_eq, run_ofExcept_eq_ok, run_pure_eq_ok] at done
      obtain ⟨_, _, joints, _, _, temp, _, _, guardDone, branch, _, ⟨branchValue, rfl⟩, _, _,
        thenDone, thenExp, _, ⟨thenValue, rfl⟩, _, _, elseDone, elseExp, _, ⟨elseValue, rfl⟩,
        rfl, rfl⟩ := done
      cases joints
      cases temp
      obtain ⟨_, rfl, guardLowered⟩ := lowersTo_of_run guard guardDone
      obtain ⟨_, rfl, thenLowered⟩ := lowersTo_of_run thenBranch thenDone
      obtain ⟨_, rfl, elseLowered⟩ := lowersTo_of_run elseBranch elseDone
      cases branchValue
      cases thenValue
      cases elseValue
      exact ⟨_, rfl, .conditional guardLowered thenLowered elseLowered⟩
  | .call callee args span, supply, lowered, final, done => by
      simp only [lowerExpr] at done
      split at done
      next declared =>
        simp only [run_bind_eq_ok, run_pure_eq_ok] at done
        obtain ⟨exps, _, argsDone, rfl, rfl⟩ := done
        exact ⟨_, rfl, .call declared (lowersAllTo_of_run args argsDone)⟩
      next => cases done

theorem lowersAllTo_of_run : (exprs : List Expr) → {supply : Supply} → {exps : List Exp} →
    {final : Supply} → (lowerArgs scope exprs).run supply = .ok exps final →
      LowersAllTo scope exprs supply exps final
  | [], supply, exps, final, done => by
      simp only [lowerArgs, run_pure_eq_ok] at done
      obtain ⟨rfl, rfl⟩ := done
      exact .nil
  | first :: rest, supply, exps, final, done => by
      simp only [lowerArgs, run_bind_eq_ok, run_ofExcept_eq_ok, run_pure_eq_ok] at done
      obtain ⟨_, _, firstDone, _, _, ⟨value, rfl⟩, _, _, restDone, rfl, rfl⟩ := done
      obtain ⟨_, rfl, firstLowered⟩ := lowersTo_of_run first firstDone
      cases value
      exact .cons firstLowered (lowersAllTo_of_run rest restDone)

end

mutual

theorem LowersTo.run {expr : Expr} {supply final : Supply} {exp : Exp}
    (lowered : LowersTo scope expr supply exp final) :
    (lowerExpr scope expr).run supply = .ok (.value exp) final := by
  cases lowered with
  | literal => rfl
  | ident bound => simp [lowerExpr, bound]
  | arithmetic instructed leftLowered rightLowered =>
      simp only [lowerExpr]
      rw [run_bind_of_ok leftLowered.run, run_bind_of_ok (run_toExp _),
        run_bind_of_ok rightLowered.run, run_bind_of_ok (run_toExp _), instructed]
      rfl
  | comparison leftLowered rightLowered =>
      simp only [lowerExpr]
      rw [run_bind_of_ok leftLowered.run, run_bind_of_ok (run_toExp _),
        run_bind_of_ok rightLowered.run, run_bind_of_ok (run_toExp _)]
      rfl
  | negation operandLowered =>
      simp only [lowerExpr]
      rw [run_bind_of_ok operandLowered.run, run_bind_of_ok (run_toExp _)]
      rfl
  | conditional guardLowered thenLowered elseLowered =>
      simp only [lowerExpr]
      rw [run_bind_of_ok (run_draw_eq_ok.mpr (Supply.run_freshJoints_eq supply)),
        run_bind_of_ok (run_draw_eq_ok.mpr (Supply.run_freshTemp_eq _)),
        run_bind_of_ok guardLowered.run, run_bind_of_ok (run_toBranch _ _ _),
        run_bind_of_ok thenLowered.run, run_bind_of_ok (run_toExp _),
        run_bind_of_ok elseLowered.run, run_bind_of_ok (run_toExp _)]
      rfl
  | call declared argsLowered =>
      simp only [lowerExpr, declared, if_true]
      rw [run_bind_of_ok argsLowered.run]
      rfl

theorem LowersAllTo.run {exprs : List Expr} {supply final : Supply} {exps : List Exp}
    (lowered : LowersAllTo scope exprs supply exps final) :
    (lowerArgs scope exprs).run supply = .ok exps final := by
  cases lowered with
  | nil => rfl
  | cons firstLowered restLowered =>
      simp only [lowerArgs]
      rw [run_bind_of_ok firstLowered.run, run_bind_of_ok (run_toExp _),
        run_bind_of_ok restLowered.run]
      rfl

end

mutual

theorem LowersTo.supply_le {expr : Expr} {supply final : Supply} {exp : Exp}
    (lowered : LowersTo scope expr supply exp final) : supply ≤ final := by
  cases lowered with
  | literal => exact le_refl supply
  | ident => exact le_refl supply
  | arithmetic _ leftLowered rightLowered =>
      exact leftLowered.supply_le.trans rightLowered.supply_le
  | comparison leftLowered rightLowered =>
      have operands := leftLowered.supply_le.trans rightLowered.supply_le
      exact operands.trans (Supply.le_afterTemp _)
  | negation operandLowered => exact operandLowered.supply_le
  | conditional guardLowered thenLowered elseLowered =>
      have names : supply ≤ supply.afterJoints.afterTemp :=
        (Supply.le_afterJoints supply).trans (Supply.le_afterTemp _)
      have branches := thenLowered.supply_le.trans elseLowered.supply_le
      exact names.trans (guardLowered.supply_le.trans branches)
  | call _ argsLowered => exact argsLowered.supply_le

theorem LowersAllTo.supply_le {exprs : List Expr} {supply final : Supply} {exps : List Exp}
    (lowered : LowersAllTo scope exprs supply exps final) : supply ≤ final := by
  cases lowered with
  | nil => exact le_refl supply
  | cons firstLowered restLowered => exact firstLowered.supply_le.trans restLowered.supply_le

end

theorem LowersTo.temps_le {expr : Expr} {exp : Exp}
    (lowered : LowersTo scope expr supply exp final) : supply.temps ≤ final.temps :=
  Supply.temps_mono lowered.supply_le

theorem run_lowerExpr_eq_ok {expr : Expr} {lowered : Lowered} :
    (lowerExpr scope expr).run supply = .ok lowered final ↔
      ∃ exp, lowered = .value exp ∧ LowersTo scope expr supply exp final := by
  constructor
  · exact lowersTo_of_run expr
  · rintro ⟨exp, rfl, lowers⟩
    exact lowers.run

variable {F : Type} [Frame F] {functions : FunctionTable} {maker : FrameMaker F}

theorem run_lowerAssign_eq_ok {context next : Context F} {assign : Assign} {lowered : Lowered} :
    (lowerAssign functions context assign).run supply = .ok (next, lowered) final ↔
      ∃ exp middle access frame,
        LowersTo (context.scope functions) assign.value supply exp middle ∧
        (Frame.allocLocal false context.frame).run middle = ((access, frame), final) ∧
        next = ({ context with frame } : Context F).bindLocal assign.name access ∧
        lowered = .effect (.move (access.exp (Frame.framePointer frame)) exp) := by
  simp only [lowerAssign, run_bind_eq_ok, run_lowerExpr_eq_ok, run_draw_eq_ok, run_pure_eq_ok,
    run_ofExcept_eq_ok, Prod.mk.injEq]
  constructor
  · rintro ⟨_, middle, ⟨exp, rfl, lowers⟩, _, _, ⟨value, rfl⟩, ⟨access, frame⟩, _, drawn,
      ⟨rfl, rfl⟩, rfl⟩
    cases value
    exact ⟨exp, middle, access, frame, lowers, drawn, rfl, rfl⟩
  · rintro ⟨exp, middle, access, frame, lowers, drawn, rfl, rfl⟩
    exact ⟨_, middle, ⟨exp, rfl, lowers⟩, exp, middle, ⟨rfl, rfl⟩, (access, frame), final, drawn,
      ⟨rfl, rfl⟩, rfl⟩

theorem run_lowerAssigns_cons_eq_ok {context last : Context F} {assign : Assign}
    {rest : List Assign} {statements : List Stm} :
    (lowerAssigns functions context (assign :: rest)).run supply =
        .ok (last, statements) final ↔
      ∃ next lowered middle others,
        (lowerAssign functions context assign).run supply = .ok (next, lowered) middle ∧
        (lowerAssigns functions next rest).run middle = .ok (last, others) final ∧
        statements = lowered.toStm :: others := by
  simp only [lowerAssigns, run_bind_eq_ok, run_pure_eq_ok, Prod.mk.injEq]
  constructor
  · rintro ⟨⟨next, lowered⟩, middle, first, ⟨_, others⟩, _, second, ⟨rfl, rfl⟩, rfl⟩
    exact ⟨next, lowered, middle, others, first, second, rfl⟩
  · rintro ⟨next, lowered, middle, others, first, second, rfl⟩
    exact ⟨(next, lowered), middle, first, (last, others), final, second, ⟨rfl, rfl⟩, rfl⟩

def frameFor (maker : FrameMaker F) (supply : Supply) (declaration : Declaration) : F :=
  ((maker (Label.function declaration.name) declaration.params.length).run supply).1

def afterFrameFor (maker : FrameMaker F) (supply : Supply) (declaration : Declaration) : Supply :=
  ((maker (Label.function declaration.name) declaration.params.length).run supply).2

theorem run_lowerDeclaration_eq_ok {outer : Bindings Access} {declaration : Declaration}
    {procedure : Procedure F} :
    (lowerDeclaration functions maker outer declaration).run supply = .ok procedure final ↔
      ∃ formals context statements middle exp,
        bindFormals declaration.name 0 .empty declaration.params
          (Frame.formals (frameFor maker supply declaration)) = .ok formals ∧
        (lowerAssigns functions
            { frame := frameFor maker supply declaration, locals := formals.overlay outer }
            declaration.body).run (afterFrameFor maker supply declaration) =
          .ok (context, statements) middle ∧
        LowersTo (context.scope functions) declaration.result middle exp final ∧
        procedure = {
          frame := context.frame
          body := Frame.enclose context.frame
            (Stm.block (statements ++ [.move (Frame.returnValue context.frame) exp])) } := by
  simp only [lowerDeclaration, run_bind_eq_ok, run_lowerExpr_eq_ok, run_draw_eq_ok,
    run_pure_eq_ok, run_ofExcept_eq_ok]
  constructor
  · rintro ⟨_, _, made, formals, _, ⟨bound, rfl⟩, ⟨context, statements⟩, middle, body, _, _,
      ⟨exp, rfl, lowers⟩, _, _, ⟨value, rfl⟩, rfl, rfl⟩
    cases value
    obtain rfl : frameFor maker supply declaration = _ := congrArg Prod.fst made
    obtain rfl : afterFrameFor maker supply declaration = _ := congrArg Prod.snd made
    exact ⟨formals, context, statements, middle, exp, bound, body, lowers, rfl⟩
  · rintro ⟨formals, context, statements, middle, exp, bound, body, lowers, rfl⟩
    exact ⟨_, _, rfl, formals, _, ⟨bound, rfl⟩, (context, statements), middle, body, _, final,
      ⟨exp, rfl, lowers⟩, exp, final, ⟨rfl, rfl⟩, rfl, rfl⟩

@[simp] theorem frameFor_stack (layout : StackLayout) (supply : Supply)
    (declaration : Declaration) :
    frameFor layout.maker supply declaration =
      layout.frame (Label.function declaration.name) declaration.params.length := rfl

@[simp] theorem afterFrameFor_stack (layout : StackLayout) (supply : Supply)
    (declaration : Declaration) : afterFrameFor layout.maker supply declaration = supply := rfl

def lowerStatement (functions : FunctionTable) (maker : FrameMaker F) (context : Context F) :
    Stmt → LowerM (Context F × Stm × List (Fragment F))
  | .assign assign =>
      match assign.value.literal? with
      | some value => do
          let label ← LowerM.draw Supply.freshLabel
          return (context.bindConstant assign.name (.mem (.name label)), .nop,
            [.data { label, values := [value] }])
      | none => do
          let (next, lowered) ← lowerAssign functions context assign
          return (next, lowered.toStm, [])
  | .declare declaration => do
      let procedure ← lowerDeclaration functions maker context.locals declaration
      return (context, .nop, [.procedure procedure])

theorem run_lowerStatement_literal {context : Context F} {assign : Assign} {value : Int64}
    (literal : assign.value.literal? = some value) (supply : Supply) :
    (lowerStatement functions maker context (.assign assign)).run supply =
      .ok (context.bindConstant assign.name (.mem (.name supply.nextLabel)), .nop,
        [.data { label := supply.nextLabel, values := [value] }]) supply.afterLabel := by
  rw [lowerStatement, literal, run_bind_of_ok (run_draw_eq_ok.mpr (Supply.run_freshLabel_eq _)),
    run_pure]

theorem run_lowerStatement_assign {context next : Context F} {assign : Assign} {lowered : Lowered}
    (computed : assign.value.literal? = none)
    (done : (lowerAssign functions context assign).run supply = .ok (next, lowered) final) :
    (lowerStatement functions maker context (.assign assign)).run supply =
      .ok (next, lowered.toStm, []) final := by
  rw [lowerStatement, computed, run_bind_of_ok done, run_pure]

theorem run_lowerStatement_declare {context : Context F} {declaration : Declaration}
    {procedure : Procedure F}
    (done : (lowerDeclaration functions maker context.locals declaration).run supply =
      .ok procedure final) :
    (lowerStatement functions maker context (.declare declaration)).run supply =
      .ok (context, .nop, [.procedure procedure]) final := by
  rw [lowerStatement, run_bind_of_ok done, run_pure]

theorem lowerStatements_cons (context : Context F) (statement : Stmt) (rest : List Stmt) :
    lowerStatements functions maker context (statement :: rest) = (do
      let (next, first, made) ← lowerStatement functions maker context statement
      let (last, others, fragments) ← lowerStatements functions maker next rest
      return (last, first :: others, made ++ fragments)) := by
  cases statement with
  | assign assign =>
      cases literal : assign.value.literal? with
      | some value => simp [lowerStatements, lowerStatement, literal]
      | none => simp [lowerStatements, lowerStatement, literal]
  | declare declaration => simp [lowerStatements, lowerStatement]

def mainContext (maker : FrameMaker F) (supply : Supply) : Context F where
  frame := ((maker Label.main 0).run supply).1

def afterMainFrame (maker : FrameMaker F) (supply : Supply) : Supply :=
  ((maker Label.main 0).run supply).2

theorem run_lowerProgram (maker : FrameMaker F) (resolved : Resolved) (supply : Supply) :
    (lowerProgram maker resolved).run supply =
      (do
        let (context, statements, fragments) ← lowerStatements resolved.functions maker
          (mainContext maker supply) resolved.program.statements
        let last := (← lowerPrint resolved.functions context resolved.program.print.exp).toStm
        return fragments ++ [.procedure {
          frame := context.frame
          body := Frame.enclose context.frame (Stm.block (statements ++ [last])) }]
        : LowerM (List (Fragment F))).run (afterMainFrame maker supply) := by
  rw [lowerProgram, run_bind_of_ok (run_draw _ _)]
  rfl

theorem run_lowerPrint_eq_ok {context : Context F} {expr : Expr} {lowered : Lowered} :
    (lowerPrint functions context expr).run supply = .ok lowered final ↔
      ∃ exp, lowered = .value (.call Label.print [exp]) ∧
        LowersTo (context.scope functions) expr supply exp final := by
  simp only [lowerPrint, run_bind_eq_ok, run_lowerExpr_eq_ok, run_pure_eq_ok, run_ofExcept_eq_ok]
  constructor
  · rintro ⟨_, _, ⟨exp, rfl, lowers⟩, _, _, ⟨value, rfl⟩, rfl, rfl⟩
    cases value
    exact ⟨exp, rfl, lowers⟩
  · rintro ⟨exp, rfl, lowers⟩
    exact ⟨_, final, ⟨exp, rfl, lowers⟩, exp, final, ⟨rfl, rfl⟩, rfl, rfl⟩

theorem run_lowerProgram_eq_ok {resolved : Resolved} {fragments : List (Fragment F)} :
    (lowerProgram maker resolved).run supply = .ok fragments final ↔
      ∃ context statements others middle exp,
        (lowerStatements resolved.functions maker (mainContext maker supply)
            resolved.program.statements).run (afterMainFrame maker supply) =
          .ok (context, statements, others) middle ∧
        LowersTo (context.scope resolved.functions) resolved.program.print.exp middle exp final ∧
        fragments = others ++ [.procedure {
          frame := context.frame
          body := Frame.enclose context.frame
            (Stm.block (statements ++ [.exp (.call Label.print [exp])])) }] := by
  simp only [run_lowerProgram, run_bind_eq_ok, run_lowerPrint_eq_ok, run_pure_eq_ok]
  constructor
  · rintro ⟨⟨context, statements, others⟩, middle, done, _, _, ⟨exp, rfl, lowers⟩, rfl, rfl⟩
    exact ⟨context, statements, others, middle, exp, done, lowers, rfl⟩
  · rintro ⟨context, statements, others, middle, exp, done, lowers, rfl⟩
    exact ⟨(context, statements, others), middle, done, _, final, ⟨exp, rfl, lowers⟩, rfl, rfl⟩

end Lower

end TreeCompiler
