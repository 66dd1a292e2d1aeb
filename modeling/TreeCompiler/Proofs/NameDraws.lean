import TreeCompiler.Proofs.Lowering

set_option autoImplicit false

namespace TreeCompiler

open Code Source

namespace Code.Supply

-- A supply also counts how many names of either kind are drawn.
instance : Add Supply where
  add one other := { temps := one.temps + other.temps, labels := one.labels + other.labels }

@[simp] theorem temps_add (one other : Supply) :
    (one + other).temps = one.temps + other.temps := rfl

@[simp] theorem labels_add (one other : Supply) :
    (one + other).labels = one.labels + other.labels := rfl

theorem add_assoc (one other third : Supply) : one + other + third = one + (other + third) := by
  change Supply.mk _ _ = Supply.mk _ _
  simp [Nat.add_assoc]

theorem add_comm (one other : Supply) : one + other = other + one := by
  change Supply.mk _ _ = Supply.mk _ _
  simp [Nat.add_comm]

theorem zero_add (supply : Supply) : ({} : Supply) + supply = supply := by
  change Supply.mk _ _ = supply
  simp

theorem add_temp (supply : Supply) : supply + { temps := 1 } = supply.afterTemp := rfl

theorem add_label (supply : Supply) : supply + { labels := 1 } = supply.afterLabel := rfl

theorem add_joints (supply : Supply) :
    supply + { temps := 1, labels := 3 } = supply.afterJoints.afterTemp := rfl

end Code.Supply

mutual

def Source.Expr.drawn : Expr → Supply
  | .literal _ _ => {}
  | .ident _ _ => {}
  | .binary op left right _ =>
      left.drawn + (right.drawn + { temps := if op = .lessThan then 1 else 0 })
  | .negation operand _ => operand.drawn
  | .conditional guard thenBranch elseBranch _ =>
      { temps := 1, labels := 3 } + (guard.drawn + (thenBranch.drawn + elseBranch.drawn))
  | .call _ args _ => Expr.drawnForAll args

def Source.Expr.drawnForAll : List Expr → Supply
  | [] => {}
  | first :: rest => first.drawn + Expr.drawnForAll rest

end

namespace Lower

variable {scope : Scope}

theorem drawn_arithmetic {op : BinaryOp} {instruction : Arithmetic}
    (instructed : arithmetic? op = some instruction) (left right : Expr) (span : Span) :
    (Expr.binary op left right span).drawn = left.drawn + right.drawn := by
  cases op with
  | lessThan => cases instructed
  | plus | minus | times => rw [Expr.drawn]; rfl

mutual

theorem LowersTo.final_eq {expr : Expr} {supply final : Supply} {exp : Exp}
    (lowered : LowersTo scope expr supply exp final) : final = supply + expr.drawn := by
  cases lowered with
  | literal => rfl
  | ident => rfl
  | arithmetic instructed leftLowered rightLowered =>
      rw [drawn_arithmetic instructed, rightLowered.final_eq, leftLowered.final_eq,
        Supply.add_assoc]
  | comparison leftLowered rightLowered =>
      rw [rightLowered.final_eq, leftLowered.final_eq, Expr.drawn, ← Supply.add_assoc,
        ← Supply.add_assoc]
      rfl
  | negation operandLowered => rw [operandLowered.final_eq, Expr.drawn]
  | conditional guardLowered thenLowered elseLowered =>
      rw [elseLowered.final_eq, thenLowered.final_eq, guardLowered.final_eq, Expr.drawn,
        ← Supply.add_assoc, ← Supply.add_assoc, ← Supply.add_assoc, Supply.add_joints]
  | call _ argsLowered => rw [argsLowered.final_eq, Expr.drawn]

theorem LowersAllTo.final_eq {exprs : List Expr} {supply final : Supply} {exps : List Exp}
    (lowered : LowersAllTo scope exprs supply exps final) :
    final = supply + Expr.drawnForAll exprs := by
  cases lowered with
  | nil => rfl
  | cons firstLowered restLowered =>
      rw [restLowered.final_eq, firstLowered.final_eq, Expr.drawnForAll, Supply.add_assoc]

end

end Lower

end TreeCompiler
