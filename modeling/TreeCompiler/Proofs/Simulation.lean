import TreeCompiler.Proofs.Computation
import TreeCompiler.Proofs.Evaluation
import TreeCompiler.Proofs.StackLowering

set_option autoImplicit false

namespace TreeCompiler.Lower

open Code Source Resolve

def CallsAgree (values : FunctionValues) (calls : Calls) : Prop :=
  ∀ name, calls.Gives (Label.function name) (values name)

/--
The code that stands for a name reads the variable of that name, in all states that agree with the
base on the temporaries below the bound.
-/
def Represents (calls : Calls) (base : State) (bound : Nat) (scope : Scope)
    (env : Bindings Int64) : Prop :=
  ∀ name exp, scope.value? name = some exp →
    Computes calls base bound bound bound exp (env.get? name)

variable {values : FunctionValues} {calls : Calls} {base : State} {bound : Nat} {scope : Scope}
  {env : Bindings Int64}

theorem labelsApart_nextJoints (supply : Supply) : LabelsApart supply.nextJoints := by
  have apart {one other : Nat} (differ : one ≠ other) : Label.numbered one ≠ Label.numbered other :=
    fun same => differ (Label.numbered_injective same)
  constructor
  · exact apart (by simp)
  · exact apart (by simp)
  · exact apart (by simp; omega)

theorem apply_arithmetic? {op : BinaryOp} {instruction : Arithmetic}
    (instructed : arithmetic? op = some instruction) : op.apply = instruction.apply := by
  cases op <;> cases instructed <;> rfl

mutual

theorem LowersTo.computes (agree : CallsAgree values calls)
    (represents : Represents calls base bound scope env) {expr : Expr}
    {supply final : Supply} {exp : Exp} (lowered : LowersTo scope expr supply exp final)
    (atBound : bound ≤ supply.temps) :
    Computes calls base bound supply.temps final.temps exp (expr.eval values env) := by
  cases lowered with
  | literal => exact .const _
  | ident bound => exact (represents _ _ bound).rebase (.refl _ _) (Nat.le_refl _) _
  | @arithmetic _ instruction _ _ _ _ _ _ _ _ instructed leftLowered rightLowered =>
      have atMiddle := leftLowered.temps_le
      have leftComputes := leftLowered.computes agree represents atBound
      have rightComputes := rightLowered.computes agree represents (atBound.trans atMiddle)
      have computes := leftComputes.binop rightComputes atBound atMiddle rightLowered.temps_le
        instruction
      rw [← apply_arithmetic? instructed] at computes
      exact computes
  | comparison leftLowered rightLowered =>
      have atMiddle := leftLowered.temps_le
      have leftComputes := leftLowered.computes agree represents atBound
      have rightComputes := rightLowered.computes agree represents (atBound.trans atMiddle)
      exact leftComputes.comparison rightComputes atBound atMiddle rightLowered.temps_le
  | negation operandLowered =>
      have operandComputes := operandLowered.computes agree represents atBound
      exact (Computes.const 1).binop operandComputes atBound (le_refl _)
        operandLowered.temps_le .minus
  | conditional guardLowered thenLowered elseLowered =>
      -- The temporary of the result is drawn first, so that all three parts keep clear of it.
      have atGuard : bound ≤ supply.afterJoints.afterTemp.temps := atBound.trans (Nat.le_succ _)
      have atThen := atGuard.trans guardLowered.temps_le
      have atElse := atThen.trans thenLowered.temps_le
      exact Computes.conditional (labelsApart_nextJoints supply)
        (guardLowered.computes agree represents atGuard)
        (thenLowered.computes agree represents atThen)
        (elseLowered.computes agree represents atElse) atBound guardLowered.temps_le
        thenLowered.temps_le elseLowered.temps_le
  | call _ argsLowered => exact .call (agree _) (argsLowered.compute agree represents atBound)

theorem LowersAllTo.compute (agree : CallsAgree values calls)
    (represents : Represents calls base bound scope env) {exprs : List Expr}
    {supply final : Supply} {exps : List Exp} (lowered : LowersAllTo scope exprs supply exps final)
    (atBound : bound ≤ supply.temps) :
    ComputesAll calls base bound supply.temps final.temps exps
      (Expr.evalAll values env exprs) := by
  cases lowered with
  | nil => exact .nil
  | cons firstLowered restLowered =>
      have atMiddle := firstLowered.temps_le
      have firstComputes := firstLowered.computes agree represents atBound
      have restCompute := restLowered.compute agree represents (atBound.trans atMiddle)
      exact .cons firstComputes restCompute atBound atMiddle (Supply.temps_mono restLowered.supply_le)

end

section Contexts

variable {table : FunctionTable} {context last : Context StackFrame} {after : State}

theorem Represents.raise (represents : Represents calls base bound scope env) {newBound : Nat}
    (atBound : bound ≤ newBound) : Represents calls base newBound scope env :=
  fun name exp standsFor => (represents name exp standsFor).rebase (.refl _ _) atBound _

theorem Represents.bindLocal
    (represents : Represents calls base bound (context.scope table) env)
    (near : base.Same (Below bound) after) {temp : Temp} (fresh : bound ≤ temp.index) {word : Int64}
    (held : after.temps temp = some (.word word)) (name : String) :
    Represents calls after (temp.index + 1) ((context.bindLocal name (.inReg temp)).scope table)
      (env.insert name word) := by
  intro other exp standsFor
  simp only [Context.scope, Context.value?_bindLocal] at standsFor
  rw [Bindings.get?_insert]
  split at standsFor
  next same =>
    cases standsFor
    rw [if_pos same]
    exact .temp held (Nat.lt_succ_self _)
  next differs =>
    rw [if_neg differs]
    exact (represents other exp standsFor).rebase near (Nat.le_succ_of_le fresh) _

theorem Represents.bindConstant
    (represents : Represents calls base bound (context.scope table) env) {label : Label}
    {word : Int64} (held : base.world.data label = some (.word word)) (name : String) :
    Represents calls base bound ((context.bindConstant name (.mem (.name label))).scope table)
      (env.insert name word) := by
  intro other exp standsFor
  simp only [Context.scope, Context.value?_bindConstant] at standsFor
  rw [Bindings.get?_insert]
  split at standsFor
  next same =>
    cases standsFor
    rw [if_pos same]
    exact .staticData held
  next differs =>
    rw [if_neg differs]
    exact represents other exp standsFor

theorem AssignsTo.carriesOut (agree : CallsAgree values calls) {assigns : List Assign}
    {statements : List Stm} {supply final : Supply}
    (lowered : AssignsTo table context assigns supply last statements final)
    (represents : Represents calls base supply.temps (context.scope table) env) :
    CarriesOut calls base supply.temps statements (evalAssigns values env assigns)
      fun after result => Represents calls after final.temps (last.scope table) result := by
  induction lowered generalizing base env with
  | nil => exact .nil represents
  | cons valueLowered restLowered ih =>
      have atMiddle := valueLowered.temps_le
      have computes := valueLowered.computes agree represents (le_refl _)
      apply CarriesOut.move computes atMiddle (Nat.le_succ_of_le atMiddle)
      intro word after near held
      exact ih (represents.bindLocal near atMiddle held _)

theorem eval_of_literal? {expr : Expr} {word : Int64} (literal : expr.literal? = some word)
    (values : FunctionValues) (env : Bindings Int64) :
    expr.eval values env = some word := by
  cases expr with
  | literal value span => simpa [Expr.literal?, Expr.eval] using literal
  | _ => cases literal

def Holds (state : State) (fragments : List (Fragment StackFrame)) : Prop :=
  ∀ data ∈ fragments.filterMap Fragment.data?,
    state.world.data data.label = data.values.head?.map .word

theorem StatementsTo.carriesOut (agree : CallsAgree values calls) {layout : StackLayout}
    {source : List Stmt} {statements : List Stm} {fragments : List (Fragment StackFrame)}
    {supply final : Supply}
    (lowered : StatementsTo table layout context source supply last statements fragments final)
    (represents : Represents calls base supply.temps (context.scope table) env)
    (holds : Holds base fragments) :
    CarriesOut calls base supply.temps statements
      (evalAssigns values env (source.filterMap Stmt.assign?))
      fun after result => Represents calls after final.temps (last.scope table) result := by
  induction lowered generalizing base env with
  | nil => exact .nil represents
  | literal literal _ ih =>
      obtain ⟨wordHeld, restHeld⟩ := List.forall_mem_cons.mp holds
      have restOut := ih (represents.bindConstant wordHeld _) restHeld
      simp only [Stmt.assign?, List.filterMap_cons, evalAssigns,
        eval_of_literal? literal values env]
      exact restOut.nop
  | assign _ valueLowered _ ih =>
      have atMiddle := valueLowered.temps_le
      have computes := valueLowered.computes agree represents (le_refl _)
      apply CarriesOut.move computes atMiddle (Nat.le_succ_of_le atMiddle)
      intro word after near held
      apply ih (represents.bindLocal near atMiddle held _)
      -- No assignment touches static data.
      intro data member
      rw [near.world]
      exact holds data member
  | declare declared _ ih =>
      have atMiddle := Supply.temps_mono declared.supply_le
      exact ((ih (represents.raise atMiddle) holds).keepFewer atMiddle).nop

end Contexts

end TreeCompiler.Lower
