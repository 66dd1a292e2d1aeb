import TreeCompiler.Code.Fragment
import TreeCompiler.Frame.Stack
import TreeCompiler.Proofs.CodeLabels

set_option autoImplicit false

namespace TreeCompiler.Code

/-- Addresses are told from words. One in a frame is counted from the frame pointer. -/
inductive Value
  | word (value : Int64)
  | frame (offset : Int64)
  | data (label : Label)
  deriving DecidableEq, Repr

def Arithmetic.apply : Arithmetic → Int64 → Int64 → Int64
  | plus, left, right => left + right
  | minus, left, right => left - right
  | times, left, right => left * right

def Arithmetic.apply? : Arithmetic → Value → Value → Option Value
  | op, .word left, .word right => some (.word (op.apply left right))
  | plus, .frame offset, .word value => some (.frame (offset + value))
  | plus, .word value, .frame offset => some (.frame (value + offset))
  | minus, .frame offset, .word value => some (.frame (offset - value))
  | _, _, _ => none

def Relation.holds : Relation → Int64 → Int64 → Bool
  | equal, left, right => left = right
  | notEqual, left, right => left ≠ right
  | less, left, right => left < right
  | lessEqual, left, right => left ≤ right
  | greater, left, right => right < left
  | greaterEqual, left, right => right ≤ left

structure World where
  data : Label → Option Value
  output : List Int64 := []

/-- An activation: its temporaries and the words of its frame, so far as they have been written. -/
structure State where
  temps : Temp → Option Value
  words : Int64 → Option Value
  world : World

inductive Place
  | temp (temp : Temp)
  | memory (address : Value)

namespace State

def setTemp (state : State) (temp : Temp) (value : Value) : State :=
  { state with temps := fun other => if other = temp then some value else state.temps other }

def setWord (state : State) (offset : Int64) (value : Value) : State :=
  { state with words := fun other => if other = offset then some value else state.words other }

def setData (state : State) (label : Label) (value : Value) : State :=
  { state with
    world.data := fun other => if other = label then some value else state.world.data other }

def load? (state : State) : Value → Option Value
  | .word _ => none
  | .frame offset => state.words offset
  | .data label => state.world.data label

def write? (state : State) (value : Value) : Place → Option State
  | .temp temp => some (state.setTemp temp value)
  | .memory (.frame offset) => some (state.setWord offset value)
  | .memory (.data label) => some (state.setData label value)
  | .memory (.word _) => none

end State

def afterLabel? (label : Label) : List Stm → Option (List Stm)
  | [] => none
  | .label other :: rest => if other = label then some rest else afterLabel? label rest
  | _ :: rest => afterLabel? label rest

abbrev Calls := Label → List Value → World → Value → World → Prop

mutual

inductive Evaluates (calls : Calls) : Exp → State → Value → State → Prop
  | const {value state} : Evaluates calls (.const value) state (.word value) state
  | name {label state} : Evaluates calls (.name label) state (.data label) state
  | temp {temp value state} (held : state.temps temp = some value) :
      Evaluates calls (.temp temp) state value state
  -- Operands are evaluated from left to right.
  | binop {op left right leftValue rightValue value state middle final}
      (leftDone : Evaluates calls left state leftValue middle)
      (rightDone : Evaluates calls right middle rightValue final)
      (applied : op.apply? leftValue rightValue = some value) :
      Evaluates calls (.binop op left right) state value final
  | mem {address location value state final}
      (addressDone : Evaluates calls address state location final)
      (held : final.load? location = some value) : Evaluates calls (.mem address) state value final
  | call {function args values result state middle world}
      (argsDone : EvaluatesAll calls args state values middle)
      (called : calls function values middle.world result world) :
      Evaluates calls (.call function args) state result { middle with world }
  | eseq {effect value result state middle final}
      (effectDone : Executes calls effect.linear effect.linear state middle)
      (valueDone : Evaluates calls value middle result final) :
      Evaluates calls (.eseq effect value) state result final

inductive EvaluatesAll (calls : Calls) : List Exp → State → List Value → State → Prop
  | nil {state} : EvaluatesAll calls [] state [] state
  | cons {first rest value values state middle final}
      (firstDone : Evaluates calls first state value middle)
      (restDone : EvaluatesAll calls rest middle values final) :
      EvaluatesAll calls (first :: rest) state (value :: values) final

inductive Locates (calls : Calls) : Exp → State → Place → State → Prop
  | temp {temp state} : Locates calls (.temp temp) state (.temp temp) state
  | mem {address location state final} (addressDone : Evaluates calls address state location final) :
      Locates calls (.mem address) state (.memory location) final

/--
Execution of what is left of a statement list, to its end. Jumps look for their label in the whole
list. A conditional move evaluates all its operands.
-/
inductive Executes (calls : Calls) : List Stm → List Stm → State → State → Prop
  | done {code state} : Executes calls code [] state state
  | nop {code rest state final} (next : Executes calls code rest state final) :
      Executes calls code (.nop :: rest) state final
  | label {label code rest state final} (next : Executes calls code rest state final) :
      Executes calls code (.label label :: rest) state final
  | exp {exp value code rest state middle final} (expDone : Evaluates calls exp state value middle)
      (next : Executes calls code rest middle final) :
      Executes calls code (.exp exp :: rest) state final
  | move {target source place value code rest state located middle written final}
      (targetDone : Locates calls target state place located)
      (sourceDone : Evaluates calls source located value middle)
      (wrote : middle.write? value place = some written)
      (next : Executes calls code rest written final) :
      Executes calls code (.move target source :: rest) state final
  | jump {target found code rest state final} (goes : afterLabel? target code = some found)
      (next : Executes calls code found state final) :
      Executes calls code (.jump target :: rest) state final
  | cjump {relation left right ifTrue ifFalse leftValue rightValue found code rest state middle
        compared final}
      (leftDone : Evaluates calls left state (.word leftValue) middle)
      (rightDone : Evaluates calls right middle (.word rightValue) compared)
      (goes : afterLabel? (if relation.holds leftValue rightValue then ifTrue else ifFalse) code =
        some found)
      (next : Executes calls code found compared final) :
      Executes calls code (.cjump relation left right ifTrue ifFalse :: rest) state final
  | cmove {relation left right target source leftValue rightValue place value code rest state
        middle compared located sourced written final}
      (leftDone : Evaluates calls left state (.word leftValue) middle)
      (rightDone : Evaluates calls right middle (.word rightValue) compared)
      (targetDone : Locates calls target compared place located)
      (sourceDone : Evaluates calls source located value sourced)
      (wrote : (if relation.holds leftValue rightValue then sourced.write? value place
        else some sourced) = some written)
      (next : Executes calls code rest written final) :
      Executes calls code (.cmove relation left right target source :: rest) state final

end

inductive RuntimeCall : Calls
  -- Nothing is said of what printing returns.
  | print {value world result} :
      RuntimeCall Label.print [.word value] world result
        { world with output := world.output ++ [value] }

def State.pass (state : State) (formal : Access) (value : Value) : State :=
  match formal with
  | .inFrame offset => state.setWord offset value
  | .inReg temp => state.setTemp temp value

def State.passAll (state : State) : List Access → List Value → State
  | formal :: formals, value :: values => (state.pass formal value).passAll formals values
  | _, _ => state

def State.entry (frame : StackFrame) (args : List Value) (world : World) : State :=
  let bare : State := {
    temps := fun temp => if temp = frame.layout.framePointer then some (.frame 0) else none
    words := fun _ => none
    world }
  bare.passAll frame.formals args

/-- A procedure runs in an activation of its own and leaves its result in a temporary of that. -/
inductive Procedure.Runs (calls : Calls) (procedure : Procedure StackFrame) :
    List Value → World → Value → World → Prop
  | intro {args world final result} (arity : args.length = procedure.frame.formals.length)
      (bodyDone : Executes calls procedure.body.linear procedure.body.linear
        (State.entry procedure.frame args world) final)
      (returned : final.temps procedure.frame.layout.returnValue = some result) :
      procedure.Runs calls args world result final.world

/-- Calls that nest no deeper than the depth. The runtime is always there. -/
def callsWithin (fragments : List (Fragment StackFrame)) : Nat → Calls
  | 0 => RuntimeCall
  | depth + 1 => fun function args before result after =>
      RuntimeCall function args before result after ∨
        ∃ procedure, findProcedure? function fragments = some procedure ∧
          procedure.Runs (callsWithin fragments depth) args before result after

def staticData (fragments : List (Fragment StackFrame)) (label : Label) : Option Value := do
  let data ← (fragments.filterMap Fragment.data?).find? fun data => data.label = label
  let value ← data.values.head?
  return .word value

/-- The main procedure runs to its end, and the value is all that is printed on the way. -/
def Prints (fragments : List (Fragment StackFrame)) (value : Int64) : Prop :=
  ∃ depth main final, findProcedure? Label.main fragments = some main ∧
    Executes (callsWithin fragments depth) main.body.linear main.body.linear
      (State.entry main.frame [] { data := staticData fragments }) final ∧
    final.world.output = [value]

section Steps

variable {calls : Calls} {code rest : List Stm} {state final : State}

@[simp] theorem executes_nil : Executes calls code [] state final ↔ final = state := by
  constructor
  · rintro ⟨⟩
    rfl
  · rintro rfl
    exact .done

@[simp] theorem executes_nop :
    Executes calls code (.nop :: rest) state final ↔ Executes calls code rest state final := by
  constructor
  · rintro ⟨⟩
    assumption
  · exact .nop

@[simp] theorem executes_label {label : Label} :
    Executes calls code (.label label :: rest) state final ↔
      Executes calls code rest state final := by
  constructor
  · intro run
    cases run with
    | label next => exact next
  · exact .label

theorem executes_exp {exp : Exp} :
    Executes calls code (.exp exp :: rest) state final ↔
      ∃ value middle, Evaluates calls exp state value middle ∧
        Executes calls code rest middle final := by
  constructor
  · intro run
    cases run with
    | exp expDone next => exact ⟨_, _, expDone, next⟩
  · rintro ⟨value, middle, expDone, next⟩
    exact .exp expDone next

theorem executes_move_temp {temp : Temp} {source : Exp} :
    Executes calls code (.move (.temp temp) source :: rest) state final ↔
      ∃ value middle, Evaluates calls source state value middle ∧
        Executes calls code rest (middle.setTemp temp value) final := by
  constructor
  · intro run
    cases run with
    | move targetDone sourceDone wrote next =>
        cases targetDone
        cases wrote
        exact ⟨_, _, sourceDone, next⟩
  · rintro ⟨value, middle, sourceDone, next⟩
    exact .move .temp sourceDone rfl next

theorem executes_jump {target : Label} :
    Executes calls code (.jump target :: rest) state final ↔
      ∃ found, afterLabel? target code = some found ∧ Executes calls code found state final := by
  constructor
  · intro run
    cases run with
    | jump goes next => exact ⟨_, goes, next⟩
  · rintro ⟨found, goes, next⟩
    exact .jump goes next

theorem executes_cjump {relation : Relation} {left right : Exp} {ifTrue ifFalse : Label} :
    Executes calls code (.cjump relation left right ifTrue ifFalse :: rest) state final ↔
      ∃ leftValue rightValue middle compared found,
        Evaluates calls left state (.word leftValue) middle ∧
        Evaluates calls right middle (.word rightValue) compared ∧
        afterLabel? (if relation.holds leftValue rightValue then ifTrue else ifFalse) code =
          some found ∧
        Executes calls code found compared final := by
  constructor
  · intro run
    cases run with
    | cjump leftDone rightDone goes next => exact ⟨_, _, _, _, _, leftDone, rightDone, goes, next⟩
  · rintro ⟨_, _, _, _, _, leftDone, rightDone, goes, next⟩
    exact .cjump leftDone rightDone goes next

theorem executes_cmove_temp {relation : Relation} {left right source : Exp} {temp : Temp} :
    Executes calls code (.cmove relation left right (.temp temp) source :: rest) state final ↔
      ∃ leftValue rightValue value middle compared sourced,
        Evaluates calls left state (.word leftValue) middle ∧
        Evaluates calls right middle (.word rightValue) compared ∧
        Evaluates calls source compared value sourced ∧
        Executes calls code rest
          (if relation.holds leftValue rightValue then sourced.setTemp temp value else sourced)
          final := by
  constructor
  · intro run
    cases run with
    | cmove leftDone rightDone targetDone sourceDone wrote next =>
        cases targetDone
        rw [State.write?, ← apply_ite some, Option.some.injEq] at wrote
        exact ⟨_, _, _, _, _, _, leftDone, rightDone, sourceDone, wrote ▸ next⟩
  · rintro ⟨_, _, _, _, _, _, leftDone, rightDone, sourceDone, next⟩
    refine .cmove leftDone rightDone .temp sourceDone ?_ next
    rw [State.write?, ← apply_ite some]

theorem Executes.cons_mono {statement : Stm} {other : List Stm}
    (mono : ∀ {state final}, Executes calls code rest state final →
      Executes calls code other state final)
    (run : Executes calls code (statement :: rest) state final) :
    Executes calls code (statement :: other) state final := by
  cases run with
  | nop next => exact .nop (mono next)
  | label next => exact .label (mono next)
  | exp expDone next => exact .exp expDone (mono next)
  | move targetDone sourceDone wrote next => exact .move targetDone sourceDone wrote (mono next)
  | jump goes next => exact .jump goes next
  | cjump leftDone rightDone goes next => exact .cjump leftDone rightDone goes next
  | cmove leftDone rightDone targetDone sourceDone wrote next =>
      exact .cmove leftDone rightDone targetDone sourceDone wrote (mono next)

theorem executes_cons_congr {statement : Stm} {other : List Stm}
    (same : ∀ {state final}, Executes calls code rest state final ↔
      Executes calls code other state final) :
    Executes calls code (statement :: rest) state final ↔
      Executes calls code (statement :: other) state final :=
  ⟨Executes.cons_mono same.mp, Executes.cons_mono same.mpr⟩

theorem executes_block {statements : List Stm}
    (single : ∀ statement ∈ statements, statement.linear = [statement]) :
    Executes calls code (Stm.block statements).linear state final ↔
      Executes calls code statements state final := by
  induction statements generalizing state final with
  | nil => simp [Stm.linear]
  | cons first rest ih =>
      obtain ⟨firstSingle, restSingle⟩ := List.forall_mem_cons.mp single
      rcases Stm.followedBy_cases first (Stm.block rest) with rfl | empty | sequence
      · rw [Stm.block_cons, Stm.nop_followedBy, executes_nop, ih restSingle]
      · -- Nothing is left of the rest, so that it runs like the empty list.
        rw [Stm.block_cons, empty, Stm.followedBy_nop, firstSingle]
        apply executes_cons_congr
        intro state final
        rw [← ih restSingle, empty]
        exact executes_nop.symm
      · rw [Stm.block_cons, sequence, Stm.linear, firstSingle]
        exact executes_cons_congr (ih restSingle)

end Steps

end TreeCompiler.Code
