import Mathlib.Logic.Equiv.Basic
import TreeCompiler.Code.Fragment
import TreeCompiler.Frame.Stack
import TreeCompiler.Lower.Expr
import TreeCompiler.Proofs.CodeLabels

set_option autoImplicit false

namespace TreeCompiler

namespace Code

/--
A change of names in code. Different temporaries stay different, and so do different labels. Only
the labels that a supply hands out may change, and they change among themselves.
-/
structure Renaming where
  temp : Temp → Temp
  label : Label → Label
  temp_injective : Function.Injective temp
  label_injective : Function.Injective label
  label_numbered : ∀ index, ∃ other, label (Label.numbered index) = Label.numbered other
  label_fixed : ∀ kept, (∀ index, kept ≠ Label.numbered index) → label kept = kept

mutual

def Exp.rename (naming : Renaming) : Exp → Exp
  | .const value => .const value
  | .name label => .name (naming.label label)
  | .temp temp => .temp (naming.temp temp)
  | .binop op left right => .binop op (left.rename naming) (right.rename naming)
  | .mem address => .mem (address.rename naming)
  | .call function args => .call (naming.label function) (Exp.renameAll naming args)
  | .eseq effect value => .eseq (effect.rename naming) (value.rename naming)

def Exp.renameAll (naming : Renaming) : List Exp → List Exp
  | [] => []
  | first :: rest => first.rename naming :: Exp.renameAll naming rest

def Stm.rename (naming : Renaming) : Stm → Stm
  | .move target source => .move (target.rename naming) (source.rename naming)
  | .exp value => .exp (value.rename naming)
  | .jump target => .jump (naming.label target)
  | .cjump relation left right ifTrue ifFalse =>
      .cjump relation (left.rename naming) (right.rename naming) (naming.label ifTrue)
        (naming.label ifFalse)
  | .cmove relation left right target source =>
      .cmove relation (left.rename naming) (right.rename naming) (target.rename naming)
        (source.rename naming)
  | .seq first second => .seq (first.rename naming) (second.rename naming)
  | .label label => .label (naming.label label)
  | .nop => .nop

end

def StaticData.rename (naming : Renaming) (word : StaticData) : StaticData :=
  { word with label := naming.label word.label }

end Code

open Code

def Access.rename (naming : Renaming) : Access → Access
  | inFrame offset => inFrame offset
  | inReg temp => inReg (naming.temp temp)

def StackLayout.rename (naming : Renaming) (layout : StackLayout) : StackLayout where
  wordSize := layout.wordSize
  framePointer := naming.temp layout.framePointer
  returnValue := naming.temp layout.returnValue

def StackFrame.rename (naming : Renaming) (frame : StackFrame) : StackFrame where
  label := naming.label frame.label
  formals := frame.formals.map (Access.rename naming)
  layout := frame.layout.rename naming
  escaped := frame.escaped

def Code.Procedure.rename (naming : Renaming) (procedure : Procedure StackFrame) :
    Procedure StackFrame where
  frame := procedure.frame.rename naming
  body := procedure.body.rename naming

namespace Code

namespace Renaming

variable (naming : Renaming)

@[simp] theorem label_function (name : String) :
    naming.label (Label.function name) = Label.function name :=
  naming.label_fixed _ fun index same => Label.numbered_ne_function index name same.symm

@[simp] theorem label_main : naming.label Label.main = Label.main :=
  naming.label_fixed _ fun index same => Label.numbered_ne_main index same.symm

@[simp] theorem label_print : naming.label Label.print = Label.print :=
  naming.label_fixed _ fun index same => Label.numbered_ne_print index same.symm

theorem rename_followedBy (first second : Stm) :
    (first.followedBy second).rename naming =
      (first.rename naming).followedBy (second.rename naming) := by
  cases first <;> cases second <;> simp [Stm.followedBy, Stm.rename]

@[simp] theorem rename_block (statements : List Stm) :
    (Stm.block statements).rename naming = Stm.block (statements.map (Stm.rename naming)) := by
  induction statements with
  | nil => simp [Stm.rename]
  | cons first rest ih => simp [rename_followedBy, ih]

theorem rename_comparison (left right : Exp) (result : Temp) :
    (Lower.comparison left right result).rename naming =
      Lower.comparison (left.rename naming) (right.rename naming) (naming.temp result) := by
  simp [Lower.comparison, rename_followedBy, Stm.rename, Exp.rename]

theorem rename_diamond (joints : Lower.Joints) (branch : Stm) (thenValue elseValue : Exp)
    (result : Temp) :
    (Lower.diamond joints branch thenValue elseValue result).rename naming =
      Lower.diamond
        { thenLabel := naming.label joints.thenLabel
          elseLabel := naming.label joints.elseLabel
          joinLabel := naming.label joints.joinLabel }
        (branch.rename naming) (thenValue.rename naming) (elseValue.rename naming)
        (naming.temp result) := by
  simp [Lower.diamond, rename_followedBy, Stm.rename, Exp.rename]

theorem rename_stackFrame (layout : StackLayout) (label : Label) (count : Nat) :
    (layout.frame label count).rename naming =
      (layout.rename naming).frame (naming.label label) count := by
  simp [StackFrame.rename, StackLayout.frame, StackLayout.formalOffset, StackLayout.rename,
    Access.rename]

end Renaming

def Ascends (low low' : Nat) : List (Nat × Nat) → Prop
  | [] => True
  | (one, other) :: rest => low ≤ one ∧ low' ≤ other ∧ Ascends (one + 1) (other + 1) rest

theorem Ascends.le {low low' : Nat} {pairs : List (Nat × Nat)} (ascends : Ascends low low' pairs) :
    ∀ pair ∈ pairs, low ≤ pair.1 ∧ low' ≤ pair.2 := by
  induction pairs generalizing low low' with
  | nil => simp
  | cons first rest ih =>
      obtain ⟨atLow, atLow', restAscends⟩ := ascends
      refine List.forall_mem_cons.mpr ⟨⟨atLow, atLow'⟩, fun pair member => ?_⟩
      have later := ih restAscends pair member
      omega

theorem Ascends.exists_perm {low low' : Nat} {pairs : List (Nat × Nat)}
    (ascends : Ascends low low' pairs) :
    ∃ numbers : Equiv.Perm Nat, ∀ pair ∈ pairs, numbers pair.1 = pair.2 := by
  induction pairs generalizing low low' with
  | nil => exact ⟨Equiv.refl Nat, by simp⟩
  | cons first rest ih =>
      obtain ⟨_, _, restAscends⟩ := ascends
      obtain ⟨numbers, sends⟩ := ih restAscends
      -- Exchanging two numbers that the other pairs do not have leaves these as they are.
      refine ⟨numbers.trans (Equiv.swap (numbers first.1) first.2),
        List.forall_mem_cons.mpr ⟨by simp, fun pair member => ?_⟩⟩
      have later := restAscends.le pair member
      have left : pair.2 ≠ numbers first.1 := by
        intro same
        rw [← sends pair member] at same
        have equal := numbers.injective same
        omega
      have right : pair.2 ≠ first.2 := by omega
      rw [Equiv.trans_apply, sends pair member, Equiv.swap_apply_of_ne_of_ne left right]

def alongside (one other : Nat) : Nat → List (Nat × Nat)
  | 0 => []
  | count + 1 => (one, other) :: alongside (one + 1) (other + 1) count

theorem mem_alongside {one other count index : Nat} (bound : index < count) :
    (one + index, other + index) ∈ alongside one other count := by
  induction count generalizing one other index with
  | zero => exact absurd bound (Nat.not_lt_zero index)
  | succ count ih =>
      cases index with
      | zero => exact List.mem_cons_self
      | succ index =>
          have later :
              (one + 1 + index, other + 1 + index) ∈ alongside (one + 1) (other + 1) count :=
            ih (Nat.lt_of_succ_lt_succ bound)
          rw [Nat.add_right_comm one, Nat.add_right_comm other] at later
          exact List.mem_cons_of_mem _ later

theorem Ascends.lower {low low' lower lower' : Nat} {pairs : List (Nat × Nat)}
    (ascends : Ascends low low' pairs) (atLow : lower ≤ low) (atLow' : lower' ≤ low') :
    Ascends lower lower' pairs := by
  cases pairs with
  | nil => trivial
  | cons first rest =>
      obtain ⟨atFirst, atFirst', restAscends⟩ := ascends
      exact ⟨Nat.le_trans atLow atFirst, Nat.le_trans atLow' atFirst', restAscends⟩

theorem Ascends.alongside {low low' one other count : Nat} {pairs : List (Nat × Nat)}
    (ascends : Ascends (one + count) (other + count) pairs) (atLow : low ≤ one)
    (atLow' : low' ≤ other) : Ascends low low' (alongside one other count ++ pairs) := by
  induction count generalizing low low' one other with
  | zero => exact ascends.lower atLow atLow'
  | succ count ih =>
      refine ⟨atLow, atLow', ih ?_ (Nat.le_refl _) (Nat.le_refl _)⟩
      rwa [Nat.add_right_comm one, Nat.add_right_comm other]

def renumber (numbers : Equiv.Perm Nat) (label : Label) : Label :=
  match label.index? with
  | some index => Label.numbered (numbers index)
  | none => label

@[simp] theorem renumber_numbered (numbers : Equiv.Perm Nat) (index : Nat) :
    renumber numbers (Label.numbered index) = Label.numbered (numbers index) := by
  simp [renumber]

theorem renumber_renumber (numbers : Equiv.Perm Nat) (label : Label) :
    renumber numbers.symm (renumber numbers label) = label := by
  cases found : label.index? with
  | some index => rw [Label.eq_numbered_of_index? found]; simp
  | none => simp [renumber, found]

def Renaming.ofPerms (temps labels : Equiv.Perm Nat) : Renaming where
  temp temp := ⟨temps temp.index⟩
  label := renumber labels
  temp_injective := by
    intro one other same
    have equal := temps.injective (congrArg Temp.index same)
    cases one
    cases other
    simpa using equal
  label_injective := Function.LeftInverse.injective (renumber_renumber labels)
  label_numbered index := ⟨labels index, renumber_numbered labels index⟩
  label_fixed := by
    intro kept notNumbered
    cases found : kept.index? with
    | some index => exact absurd (Label.eq_numbered_of_index? found) (notNumbered index)
    | none => simp [renumber, found]

structure Renaming.Sends (naming : Renaming) (temps labels : List (Nat × Nat)) : Prop where
  temp : ∀ pair ∈ temps, naming.temp ⟨pair.1⟩ = ⟨pair.2⟩
  label : ∀ pair ∈ labels, naming.label (Label.numbered pair.1) = Label.numbered pair.2

theorem exists_renaming {temps labels : List (Nat × Nat)} (tempsAscend : Ascends 0 0 temps)
    (labelsAscend : Ascends 0 0 labels) : ∃ naming : Renaming, naming.Sends temps labels := by
  obtain ⟨tempNumbers, sendsTemps⟩ := tempsAscend.exists_perm
  obtain ⟨labelNumbers, sendsLabels⟩ := labelsAscend.exists_perm
  refine ⟨.ofPerms tempNumbers labelNumbers, fun pair member => ?_, fun pair member => ?_⟩
  · exact congrArg Temp.mk (sendsTemps pair member)
  · rw [← sendsLabels pair member]
    exact renumber_numbered labelNumbers pair.1

end Code

end TreeCompiler
