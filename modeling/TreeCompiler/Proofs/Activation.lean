import Mathlib.Data.List.Nodup
import TreeCompiler.Proofs.Simulation

set_option autoImplicit false

namespace TreeCompiler

open Code Source Resolve

/--
The offsets of as many formals fit in a word, but for that of the last one, which is then cut off
to the greatest word.
-/
def WordSize.KeepsApart (wordSize : WordSize) (formals : Nat) : Prop :=
  (formals * wordSize.bytes : Int) < Int64.maxValue.toInt

instance (wordSize : WordSize) (formals : Nat) : Decidable (wordSize.KeepsApart formals) :=
  inferInstanceAs (Decidable (_ < _))

theorem WordSize.keepsApart_of_le_one (wordSize : WordSize) {formals : Nat} (few : formals ≤ 1) :
    wordSize.KeepsApart formals := by
  have small := Nat.mul_le_mul few wordSize.bounded
  have great : 1024 < Int64.maxValue.toInt := by decide
  rw [WordSize.KeepsApart]
  omega

theorem toInt_ofIntClamp_of_nonneg {value : Int} (nonneg : 0 ≤ value) :
    (Int64.ofIntClamp value).toInt = min value Int64.maxValue.toInt := by
  have lower : Int64.minValue.toInt ≤ value := by
    have negative : Int64.minValue.toInt ≤ 0 := by decide
    omega
  by_cases fits : value ≤ Int64.maxValue.toInt
  · rw [Int64.toInt_ofIntClamp lower fits]
    omega
  · rw [Int64.ofIntClamp, dif_pos lower, dif_neg fits]
    omega

namespace StackLayout

variable (layout : StackLayout) (label : Label)

theorem toInt_formalOffset (index : Nat) :
    (layout.formalOffset index).toInt =
      min (((index + 2) * layout.wordSize.bytes : Nat) : Int) Int64.maxValue.toInt := by
  have exact_offset : ((index : Int) + 2) * layout.wordSize.bytes =
      ((index + 2) * layout.wordSize.bytes : Nat) := by push_cast; rfl
  rw [formalOffset, exact_offset, toInt_ofIntClamp_of_nonneg (Int.natCast_nonneg _)]

theorem formalOffset_ne {count one other : Nat} (fits : layout.wordSize.KeepsApart count)
    (earlier : one < other) (within : other < count) :
    layout.formalOffset one ≠ layout.formalOffset other := by
  intro same
  -- Only the last formal of a frame can lie at an offset that is cut off, so the earlier one is not.
  have offsets := congrArg Int64.toInt same
  have apart : (one + 2) * layout.wordSize.bytes < (other + 2) * layout.wordSize.bytes :=
    Nat.mul_lt_mul_of_pos_right (by omega) layout.wordSize.positive
  have small : (one + 2) * layout.wordSize.bytes ≤ count * layout.wordSize.bytes :=
    Nat.mul_le_mul_right _ (by omega)
  rw [toInt_formalOffset, toInt_formalOffset] at offsets
  rw [WordSize.KeepsApart] at fits
  omega

theorem formalOffset_eq {count : Nat} (exceeds : ¬layout.wordSize.KeepsApart (count + 2)) :
    layout.formalOffset count = layout.formalOffset (count + 1) := by
  have later : (count + 2) * layout.wordSize.bytes ≤ (count + 1 + 2) * layout.wordSize.bytes :=
    Nat.mul_le_mul_right _ (by omega)
  apply Int64.toInt_inj.mp
  rw [toInt_formalOffset, toInt_formalOffset]
  rw [WordSize.KeepsApart] at exceeds
  omega

theorem nodup_formals_iff (count : Nat) :
    (layout.frame label count).formals.Nodup ↔ layout.wordSize.KeepsApart count := by
  constructor
  · intro distinct
    by_contra exceeds
    have several : 2 ≤ count := by
      by_contra few
      exact exceeds (WordSize.keepsApart_of_le_one _ (by omega))
    obtain ⟨fewer, rfl⟩ := Nat.exists_eq_add_of_le' several
    have same := layout.formalOffset_eq exceeds
    have equal := List.inj_on_of_nodup_map distinct (List.mem_range.mpr (by omega))
      (List.mem_range.mpr (by omega)) (congrArg Access.inFrame same)
    omega
  · intro fits
    apply List.Nodup.map_on _ List.nodup_range
    intro one oneWithin other otherWithin same
    rw [List.mem_range] at oneWithin otherWithin
    have sameOffset := Access.inFrame.inj same
    rcases Nat.lt_trichotomy one other with earlier | equal | later
    · exact absurd sameOffset (layout.formalOffset_ne fits earlier otherWithin)
    · exact equal
    · exact absurd sameOffset.symm (layout.formalOffset_ne fits later oneWithin)

end StackLayout

namespace Code

def HeldAt (state : State) (place : Access) (word : Int64) : Prop :=
  ∃ offset, place = .inFrame offset ∧ state.words offset = some (.word word)

theorem State.passAll_words_of_notMem {formals : List Access} {offset : Int64}
    (absent : .inFrame offset ∉ formals) (state : State) (values : List Value) :
    (state.passAll formals values).words offset = state.words offset := by
  induction formals generalizing state values with
  | nil => rfl
  | cons formal rest ih =>
      rw [List.mem_cons, not_or] at absent
      cases values with
      | nil => rfl
      | cons value values =>
          rw [passAll, ih absent.2]
          cases formal with
          | inReg temp => rfl
          | inFrame other =>
              have differs : offset ≠ other := fun same => absent.1 (congrArg _ same)
              simp [pass, setWord, differs]

theorem State.passAll_heldAt {offsets : List Int64}
    (distinct : (offsets.map Access.inFrame).Nodup) (state : State) {args : List Int64}
    (arity : args.length = offsets.length) :
    List.Forall₂ (HeldAt (state.passAll (offsets.map .inFrame) (args.map .word)))
      (offsets.map .inFrame) args := by
  induction offsets generalizing state args with
  | nil =>
      rw [List.length_nil, List.length_eq_zero_iff] at arity
      subst arity
      exact .nil
  | cons offset rest ih =>
      rw [List.map_cons, List.nodup_cons] at distinct
      cases args with
      | nil => simp at arity
      | cons word words =>
          refine .cons ⟨offset, rfl, ?_⟩ (ih distinct.2 _ (by simpa using arity))
          -- The argument stays where it was put, since no later one is put there.
          rw [List.map_cons, List.map_cons, passAll, passAll_words_of_notMem distinct.1]
          simp [pass, setWord]

theorem State.passAll_temps (offsets : List Int64) (state : State) (values : List Value) :
    (state.passAll (offsets.map .inFrame) values).temps = state.temps := by
  induction offsets generalizing state values with
  | nil => rfl
  | cons offset rest ih =>
      cases values with
      | nil => rfl
      | cons value values => exact ih _ values

theorem State.passAll_world (offsets : List Int64) (state : State) (values : List Value) :
    (state.passAll (offsets.map .inFrame) values).world = state.world := by
  induction offsets generalizing state values with
  | nil => rfl
  | cons offset rest ih =>
      cases values with
      | nil => rfl
      | cons value values => exact ih _ values

end Code

namespace StackLayout

variable (layout : StackLayout) (label : Label) (count : Nat) (args : List Value) (world : World)

theorem formals_frame :
    (layout.frame label count).formals =
      ((List.range count).map layout.formalOffset).map .inFrame := by
  rw [List.map_map]
  rfl

theorem entry_temps (temp : Temp) :
    (State.entry (layout.frame label count) args world).temps temp =
      if temp = layout.framePointer then some (.frame 0) else none := by
  rw [State.entry, formals_frame, State.passAll_temps]
  rfl

theorem entry_world : (State.entry (layout.frame label count) args world).world = world := by
  rw [State.entry, formals_frame, State.passAll_world]

theorem entry_heldAt {count : Nat} (fits : layout.wordSize.KeepsApart count)
    {words : List Int64} (arity : words.length = count) :
    List.Forall₂ (HeldAt (State.entry (layout.frame label count) (words.map .word) world))
      (layout.frame label count).formals words := by
  have distinct := (layout.nodup_formals_iff label count).mpr fits
  rw [formals_frame] at distinct ⊢
  rw [State.entry, formals_frame]
  exact State.passAll_heldAt distinct _ (by simpa using arity)

end StackLayout

namespace Lower

variable {values : FunctionValues} {calls : Calls} {table : FunctionTable} {layout : StackLayout}

theorem alike_empty {P : Access → Int64 → Prop} (name : String) :
    Option.Rel P ((Bindings.empty : Bindings Access).get? name)
      ((Bindings.empty : Bindings Int64).get? name) := by
  rw [Bindings.get?_empty, Bindings.get?_empty]
  exact .none

theorem bindFormals_alike {P : Access → Int64 → Prop} {function : String} {params : List Param}
    {formals : List Access} {args : List Int64} (held : List.Forall₂ P formals args)
    (count : params.length = formals.length) {index : Nat} {places result : Bindings Access}
    {env : Bindings Int64}
    (alike : ∀ name, Option.Rel P (places.get? name) (env.get? name))
    (bound : bindFormals function index places params formals = .ok result) :
    ∃ bindings, bindArgs env params args = some bindings ∧
      ∀ name, Option.Rel P (result.get? name) (bindings.get? name) := by
  induction held generalizing params index places env with
  | nil =>
      rw [List.length_nil, List.length_eq_zero_iff] at count
      subst count
      cases bound
      exact ⟨env, rfl, alike⟩
  | @cons formal word formals words headHeld _ ih =>
      cases params with
      | nil => simp at count
      | cons param params =>
          apply ih (by simpa using count) _ bound
          intro name
          rw [Bindings.get?_insert, Bindings.get?_insert]
          split
          · exact .some headHeld
          · exact alike name

theorem length_of_bindArgs {params : List Param} {args : List Int64}
    {env bindings : Bindings Int64} (bound : bindArgs env params args = some bindings) :
    args.length = params.length := by
  induction params generalizing args env with
  | nil =>
      cases args with
      | nil => rfl
      | cons word words => cases bound
  | cons param params ih =>
      cases args with
      | nil => cases bound
      | cons word words => simpa using ih bound

def Hidden (layout : StackLayout) (bound : Nat) (outer : Bindings Access) : Prop :=
  -- The activation of a declaration leaves the variables around it unset.
  ∀ name access, outer.get? name = some access →
    ∃ temp, access = .inReg temp ∧ temp.index < bound ∧ temp ≠ layout.framePointer

theorem Hidden.insert {bound : Nat} {outer : Bindings Access} (hidden : Hidden layout bound outer)
    {temp : Temp} (pointer : layout.framePointer.index < bound) (fresh : bound ≤ temp.index)
    (name : String) : Hidden layout (temp.index + 1) (outer.insert name (.inReg temp)) := by
  intro other access bound
  rw [Bindings.get?_insert] at bound
  split at bound
  next =>
    cases bound
    refine ⟨temp, rfl, Nat.lt_succ_self _, ?_⟩
    rintro rfl
    omega
  next =>
    obtain ⟨temp, rfl, below, notPointer⟩ := hidden other access bound
    exact ⟨temp, rfl, by omega, notPointer⟩

theorem Hidden.erase {bound : Nat} {outer : Bindings Access} (hidden : Hidden layout bound outer)
    (name : String) : Hidden layout bound (outer.erase name) := by
  intro other access bound
  rw [Bindings.get?_erase] at bound
  split at bound
  next => cases bound
  next => exact hidden other access bound

theorem Hidden.raise {bound newBound : Nat} {outer : Bindings Access}
    (hidden : Hidden layout bound outer) (atBound : bound ≤ newBound) :
    Hidden layout newBound outer := by
  intro name access held
  obtain ⟨temp, rfl, below, notPointer⟩ := hidden name access held
  exact ⟨temp, rfl, by omega, notPointer⟩

theorem represents_entry {label : Label} {count : Nat} {world : World} {words : List Int64}
    {formals outer : Bindings Access} {env : Bindings Int64} {bound : Nat}
    (alike : ∀ name, Option.Rel
      (HeldAt (State.entry (layout.frame label count) (words.map .word) world))
      (formals.get? name) (env.get? name))
    (pointer : layout.framePointer.index < bound) (hidden : Hidden layout bound outer) :
    Represents calls (State.entry (layout.frame label count) (words.map .word) world) bound
      (Context.scope { frame := layout.frame label count, locals := formals.overlay outer } table)
      env := by
  intro name exp standsFor
  simp only [Context.scope, Context.value?, Bindings.get?_empty, Option.none_or,
    Bindings.get?_overlay] at standsFor
  have paired := alike name
  generalize env.get? name = read at paired ⊢
  cases own : formals.get? name with
  | some access =>
      rw [own] at paired standsFor
      cases paired with
      | some held =>
          obtain ⟨offset, rfl, inWord⟩ := held
          cases standsFor
          exact .frameWord ((layout.entry_temps _ _ _ _ _).trans (if_pos rfl)) pointer inWord
  | none =>
      -- The name is bound around the declaration only: its temporary is not set in this activation.
      rw [own] at paired standsFor
      cases paired
      simp only [Option.none_or, Option.map_eq_some_iff] at standsFor
      obtain ⟨access, around, rfl⟩ := standsFor
      obtain ⟨temp, rfl, below, notPointer⟩ := hidden name access around
      exact .temp ((layout.entry_temps _ _ _ _ _).trans (if_neg notPointer)) below

theorem executes_body {statements : List Stm} {last : Stm} {state final : State} {code : List Stm}
    (single : ∀ statement ∈ statements, statement.linear = [statement])
    (lastSingle : last.linear = [last]) :
    Executes calls code (Stm.block (statements ++ [last])).linear state final ↔
      Executes calls code (statements ++ [last]) state final :=
  executes_block (List.forall_mem_append.mpr ⟨single, by simpa using lastSingle⟩)

section Endings

variable {base : State} {bound : Nat} {statements code : List Stm}
  {outcome : Option (Bindings Int64)} {scope : Scope} {supply final : Supply} {expr : Expr}
  {exp : Exp}

theorem executes_return (agree : CallsAgree values calls)
    (body : CarriesOut calls base bound statements outcome
      fun after env => Represents calls after supply.temps scope env)
    (lowered : LowersTo scope expr supply exp final) (returnValue : Temp) (result : Value)
    (after : World) :
    (∃ last, Executes calls code (statements ++ [.move (.temp returnValue) exp]) base last ∧
      last.temps returnValue = some result ∧ last.world = after) ↔
    ∃ value, outcome.bind (expr.eval values) = some value ∧ result = .word value ∧
      after = base.world := by
  have computes {state : State} {env : Bindings Int64}
      (represents : Represents calls state supply.temps scope env) :=
    lowered.computes agree represents (Nat.le_refl _)
  constructor
  · rintro ⟨last, run, returned, rfl⟩
    obtain ⟨between, moveRun, only⟩ := body.only_then computes run
    obtain ⟨_, middle, expDone, ended⟩ := executes_move_temp.mp moveRun
    obtain ⟨value, given, rfl, sameWorld⟩ := only expDone
    rw [executes_nil] at ended
    subst ended
    rw [State.setTemp_temps, Option.some.injEq] at returned
    exact ⟨value, given, returned.symm, sameWorld⟩
  · rintro ⟨value, given, rfl, rfl⟩
    obtain ⟨between, middle, expDone, sameWorld, onward⟩ := body.runs_then computes given
    refine ⟨middle.setTemp returnValue (.word value), onward ?_, State.setTemp_temps _ _ _,
      sameWorld⟩
    exact executes_move_temp.mpr ⟨_, _, expDone, .done⟩

theorem executes_print (agree : CallsAgree values calls)
    (callsPrint : ∀ {args before result after}, calls Label.print args before result after ↔
      RuntimeCall Label.print args before result after)
    (body : CarriesOut calls base bound statements outcome
      fun after env => Represents calls after supply.temps scope env)
    (lowered : LowersTo scope expr supply exp final) (output : List Int64) :
    (∃ last, Executes calls code (statements ++ [.exp (.call Label.print [exp])]) base last ∧
      last.world.output = output) ↔
    ∃ value, outcome.bind (expr.eval values) = some value ∧
      output = base.world.output ++ [value] := by
  have computes {state : State} {env : Bindings Int64}
      (represents : Represents calls state supply.temps scope env) :=
    lowered.computes agree represents (Nat.le_refl _)
  constructor
  · rintro ⟨last, run, rfl⟩
    obtain ⟨between, printRun, only⟩ := body.only_then computes run
    obtain ⟨_, _, callDone, ended⟩ := executes_exp.mp printRun
    rw [executes_nil] at ended
    subst ended
    cases callDone with
    | call argsDone called =>
        cases argsDone with
        | cons expDone restDone =>
            cases restDone
            obtain ⟨value, given, rfl, sameWorld⟩ := only expDone
            cases callsPrint.mp called
            exact ⟨value, given, by rw [sameWorld]⟩
  · rintro ⟨value, given, rfl⟩
    obtain ⟨between, middle, expDone, sameWorld, onward⟩ := body.runs_then computes given
    have called : calls Label.print [.word value] middle.world (.word value)
        { middle.world with output := middle.world.output ++ [value] } :=
      callsPrint.mpr .print
    refine ⟨_, onward (executes_exp.mpr ⟨_, _, .call (.cons expDone .nil) called, .done⟩), ?_⟩
    rw [← sameWorld]

end Endings

section Declarations

variable {outer : Bindings Access} {declaration : Declaration} {supply middle final : Supply}

theorem carriesOut_body (agree : CallsAgree values calls) {formals : Bindings Access}
    {context : Context StackFrame} {statements : List Stm}
    (bound : bindFormals declaration.name 0 .empty declaration.params
      (layout.frame (Label.function declaration.name) declaration.params.length).formals =
        .ok formals)
    (bodyLowered : AssignsTo table
      { frame := layout.frame (Label.function declaration.name) declaration.params.length
        locals := formals.overlay outer }
      declaration.body supply context statements middle)
    (fits : layout.wordSize.KeepsApart declaration.params.length)
    (pointer : layout.framePointer.index < supply.temps)
    (hidden : Hidden layout supply.temps outer) {args : List Int64}
    (arity : args.length = declaration.params.length) (world : World) :
    ∃ params, bindArgs .empty declaration.params args = some params ∧
      CarriesOut calls
        (State.entry (layout.frame (Label.function declaration.name) declaration.params.length)
          (args.map .word) world)
        supply.temps statements (evalAssigns values params declaration.body)
        fun after env => Represents calls after middle.temps (context.scope table) env := by
  have held := layout.entry_heldAt (Label.function declaration.name) world fits arity
  have count : declaration.params.length =
      (layout.frame (Label.function declaration.name) declaration.params.length).formals.length := by
    simp [StackLayout.frame]
  obtain ⟨params, given, alike⟩ := bindFormals_alike held count alike_empty bound
  exact ⟨params, given, bodyLowered.carriesOut agree (represents_entry alike pointer hidden)⟩

theorem DeclaresTo.runs_iff {procedure : Procedure StackFrame} (agree : CallsAgree values calls)
    (lowered : DeclaresTo table layout outer declaration supply procedure final)
    (fits : layout.wordSize.KeepsApart declaration.params.length)
    (pointer : layout.framePointer.index < supply.temps)
    (hidden : Hidden layout supply.temps outer)
    (args : List Int64) (before : World) (result : Value) (after : World) :
    procedure.Runs calls (args.map .word) before result after ↔
      ∃ value, declaration.apply values args = some value ∧ result = .word value ∧
        after = before := by
  obtain ⟨bound, bodyLowered, resultLowered⟩ := lowered
  have applied (params : Bindings Int64)
      (given : bindArgs .empty declaration.params args = some params) :
      declaration.apply values args = (do
        let env ← evalAssigns values params declaration.body
        declaration.result.eval values env) := by
    rw [Declaration.apply, given]
    rfl
  constructor
  · rintro ⟨arity, bodyDone, returned⟩
    have count : args.length = declaration.params.length := by
      simpa [StackLayout.frame] using arity
    obtain ⟨params, given, body⟩ :=
      carriesOut_body agree bound bodyLowered fits pointer hidden count before
    rw [executes_body bodyLowered.single rfl] at bodyDone
    rw [applied params given]
    have meaning := (executes_return agree body resultLowered _ _ _).mp
      ⟨_, bodyDone, returned, rfl⟩
    rwa [layout.entry_world] at meaning
  · rintro ⟨value, results, rfl, rfl⟩
    -- The function gives a value only for as many arguments as the procedure takes.
    have bindable : (bindArgs .empty declaration.params args).isSome := by
      rw [Declaration.apply] at results
      cases given : bindArgs .empty declaration.params args with
      | none => simp [given] at results
      | some params => rfl
    obtain ⟨params, given⟩ := Option.isSome_iff_exists.mp bindable
    have count := length_of_bindArgs given
    obtain ⟨_, sameParams, body⟩ :=
      carriesOut_body agree bound bodyLowered fits pointer hidden count after
    rw [given, Option.some.injEq] at sameParams
    subst sameParams
    rw [applied params given] at results
    obtain ⟨last, run, returned, rfl⟩ := (executes_return agree body resultLowered _ _ _).mpr
      ⟨value, results, rfl, (layout.entry_world _ _ _ _).symm⟩
    refine .intro (by simpa [StackLayout.frame] using count) ?_ returned
    rw [executes_body bodyLowered.single rfl]
    exact run

end Declarations

end Lower

end TreeCompiler
