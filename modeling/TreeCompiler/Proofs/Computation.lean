import TreeCompiler.Lower.Expr
import TreeCompiler.Proofs.Machine

set_option autoImplicit false

namespace TreeCompiler.Code

structure State.Same (keep : Temp → Prop) (state other : State) : Prop where
  temps : ∀ temp, keep temp → other.temps temp = state.temps temp
  words : other.words = state.words
  world : other.world = state.world

def Below (bound : Nat) (temp : Temp) : Prop := temp.index < bound

def Outside (low high : Nat) (temp : Temp) : Prop := temp.index < low ∨ high ≤ temp.index

namespace State.Same

variable {keep kept : Temp → Prop} {state other last : State} {bound low high : Nat}

theorem refl (keep : Temp → Prop) (state : State) : state.Same keep state :=
  ⟨fun _ _ => rfl, rfl, rfl⟩

theorem trans (first : state.Same keep other) (second : other.Same keep last) :
    state.Same keep last where
  temps temp kept := (second.temps temp kept).trans (first.temps temp kept)
  words := second.words.trans first.words
  world := second.world.trans first.world

theorem mono (same : state.Same kept other) (fewer : ∀ temp, keep temp → kept temp) :
    state.Same keep other :=
  ⟨fun temp asked => same.temps temp (fewer temp asked), same.words, same.world⟩

theorem widen {lower higher : Nat} (same : state.Same (Outside low high) other)
    (atLow : lower ≤ low) (atHigh : high ≤ higher) : state.Same (Outside lower higher) other := by
  apply same.mono
  intro temp outside
  simp only [Outside] at *
  omega

theorem join {middle : Nat} (first : state.Same (Outside low middle) other)
    (second : other.Same (Outside middle high) last) (atLow : low ≤ middle)
    (atMiddle : middle ≤ high) : state.Same (Outside low high) last :=
  (first.widen (Nat.le_refl low) atMiddle).trans (second.widen atLow (Nat.le_refl high))

theorem moved (same : state.Same (Outside low low) other) (place : Nat) :
    state.Same (Outside place place) other := by
  -- The range is empty, so it leaves out no temporary at all.
  apply same.mono
  intro temp _
  exact Nat.lt_or_ge temp.index low

theorem below (same : state.Same (Outside low high) other) (above : bound ≤ low) :
    state.Same (Below bound) other := by
  apply same.mono
  intro temp lower
  simp only [Below, Outside] at *
  omega

theorem fewer {newBound : Nat} (same : state.Same (Below newBound) other)
    (atBound : bound ≤ newBound) : state.Same (Below bound) other :=
  same.mono fun _ below => Nat.lt_of_lt_of_le below atBound

theorem setTemp (state : State) {temp : Temp} (value : Value) (unkept : ¬keep temp) :
    state.Same keep (state.setTemp temp value) := by
  refine ⟨fun other asked => ?_, rfl, rfl⟩
  have differs : other ≠ temp := by
    rintro rfl
    exact unkept asked
  simp [State.setTemp, differs]

end State.Same

@[simp] theorem State.setTemp_temps (state : State) (temp : Temp) (value : Value) :
    (state.setTemp temp value).temps temp = some value := by
  simp [State.setTemp]

/--
Where a state agrees with the base on all temporaries below the bound, the expression gives the
result, as a word, and does not come to an end if there is none. It writes only to temporaries
from the low to the high one.
-/
structure Computes (calls : Calls) (base : State) (bound low high : Nat) (exp : Exp)
    (result : Option Int64) : Prop where
  runs : ∀ {state value}, base.Same (Below bound) state → result = some value →
    ∃ final, Evaluates calls exp state (.word value) final ∧ state.Same (Outside low high) final
  only : ∀ {state value final}, base.Same (Below bound) state →
    Evaluates calls exp state value final →
      ∃ word, result = some word ∧ value = .word word ∧ state.Same (Outside low high) final

structure ComputesAll (calls : Calls) (base : State) (bound low high : Nat) (exps : List Exp)
    (results : Option (List Int64)) : Prop where
  runs : ∀ {state values}, base.Same (Below bound) state → results = some values →
    ∃ final, EvaluatesAll calls exps state (values.map .word) final ∧
      state.Same (Outside low high) final
  only : ∀ {state values final}, base.Same (Below bound) state →
    EvaluatesAll calls exps state values final →
      ∃ words, results = some words ∧ values = words.map .word ∧
        state.Same (Outside low high) final

section Computes

variable {calls : Calls} {base : State} {bound low middle high : Nat} {exp left right : Exp}
  {result leftResult rightResult : Option Int64}

theorem Computes.widen {lower higher : Nat} (computes : Computes calls base bound low high exp result)
    (atLow : lower ≤ low) (atHigh : high ≤ higher) :
    Computes calls base bound lower higher exp result where
  runs near given := by
    obtain ⟨final, done, same⟩ := computes.runs near given
    exact ⟨final, done, same.widen atLow atHigh⟩
  only near done := by
    obtain ⟨word, given, isWord, same⟩ := computes.only near done
    exact ⟨word, given, isWord, same.widen atLow atHigh⟩

theorem Computes.rebase {other : State} {newBound : Nat}
    (computes : Computes calls base bound low low exp result)
    (near : base.Same (Below bound) other) (atBound : bound ≤ newBound) (place : Nat) :
    Computes calls other newBound place place exp result := by
  have nearBase {state : State} (nearOther : other.Same (Below newBound) state) :
      base.Same (Below bound) state :=
    near.trans (nearOther.fewer atBound)
  constructor
  case runs =>
    intro state value nearOther given
    obtain ⟨final, done, same⟩ := computes.runs (nearBase nearOther) given
    exact ⟨final, done, same.moved place⟩
  case only =>
    intro state value final nearOther done
    obtain ⟨word, given, isWord, same⟩ := computes.only (nearBase nearOther) done
    exact ⟨word, given, isWord, same.moved place⟩

theorem Computes.const (value : Int64) :
    Computes calls base bound low high (.const value) (some value) where
  runs _ given := by
    cases given
    exact ⟨_, .const, .refl _ _⟩
  only _ done := by
    cases done
    exact ⟨value, rfl, rfl, .refl _ _⟩

theorem Computes.temp {temp : Temp} (held : base.temps temp = result.map .word)
    (below : temp.index < bound) : Computes calls base bound low high (.temp temp) result where
  runs near given := by
    refine ⟨_, .temp ?_, .refl _ _⟩
    rw [near.temps temp below, held, given]
    rfl
  only near done := by
    cases done with
    | temp read =>
        rw [near.temps temp below, held, Option.map_eq_some_iff] at read
        obtain ⟨word, given, rfl⟩ := read
        exact ⟨word, given, rfl, .refl _ _⟩

theorem Computes.staticData {label : Label} (held : base.world.data label = result.map .word) :
    Computes calls base bound low high (.mem (.name label)) result where
  runs near given := by
    refine ⟨_, .mem .name ?_, .refl _ _⟩
    rw [State.load?, near.world, held, given]
    rfl
  only near done := by
    cases done with
    | mem addressDone read =>
        cases addressDone
        rw [State.load?, near.world, held, Option.map_eq_some_iff] at read
        obtain ⟨word, given, rfl⟩ := read
        exact ⟨word, given, rfl, .refl _ _⟩

theorem Computes.frameWord {framePointer : Temp} {offset : Int64}
    (points : base.temps framePointer = some (.frame 0)) (below : framePointer.index < bound)
    (held : base.words offset = result.map .word) :
    Computes calls base bound low high (.mem (.binop .plus (.temp framePointer) (.const offset)))
      result := by
  have pointsNear {state : State} (near : base.Same (Below bound) state) :
      state.temps framePointer = some (.frame 0) := by
    rw [near.temps framePointer below, points]
  have reads {state : State} (near : base.Same (Below bound) state) :
      state.load? (.frame (0 + offset)) = result.map .word := by
    rw [State.load?, Int64.zero_add, near.words, held]
  constructor
  case runs =>
    intro state value near given
    refine ⟨state, .mem (.binop (.temp (pointsNear near)) .const rfl) ?_, .refl _ _⟩
    rw [reads near, given]
    rfl
  case only =>
    intro state value final near done
    cases done with
    | mem addressDone read =>
        cases addressDone with
        | binop pointerDone offsetDone applied =>
            cases offsetDone
            cases pointerDone with
            | temp held =>
                rw [pointsNear near, Option.some.injEq] at held
                subst held
                cases applied
                rw [reads near, Option.map_eq_some_iff] at read
                obtain ⟨word, given, rfl⟩ := read
                exact ⟨word, given, rfl, .refl _ _⟩

theorem Computes.binop (leftComputes : Computes calls base bound low middle left leftResult)
    (rightComputes : Computes calls base bound middle high right rightResult)
    (atBound : bound ≤ low) (atLow : low ≤ middle) (atMiddle : middle ≤ high) (op : Arithmetic) :
    Computes calls base bound low high (.binop op left right) (do
      let leftValue ← leftResult
      let rightValue ← rightResult
      return op.apply leftValue rightValue) where
  runs near given := by
    simp only [Option.bind_eq_bind, Option.bind_eq_some_iff, Option.pure_def,
      Option.some.injEq] at given
    obtain ⟨leftValue, leftGiven, rightValue, rightGiven, rfl⟩ := given
    obtain ⟨between, leftDone, leftSame⟩ := leftComputes.runs near leftGiven
    have nearBetween := near.trans (leftSame.below atBound)
    obtain ⟨final, rightDone, rightSame⟩ := rightComputes.runs nearBetween rightGiven
    exact ⟨final, .binop leftDone rightDone rfl, leftSame.join rightSame atLow atMiddle⟩
  only near done := by
    cases done with
    | binop leftDone rightDone applied =>
        obtain ⟨leftValue, rfl, rfl, leftSame⟩ := leftComputes.only near leftDone
        have nearBetween := near.trans (leftSame.below atBound)
        obtain ⟨rightValue, rfl, rfl, rightSame⟩ := rightComputes.only nearBetween rightDone
        cases applied
        exact ⟨_, rfl, rfl, leftSame.join rightSame atLow atMiddle⟩

theorem linear_comparison (left right : Exp) (temp : Temp) :
    (Lower.comparison left right temp).linear =
      [.move (.temp temp) (.const 0), .cmove .less left right (.temp temp) (.const 1)] := rfl

theorem comparison_final {state between compared : State} (holds : Bool)
    (leftSame : (state.setTemp ⟨high⟩ (.word 0)).Same (Outside low middle) between)
    (rightSame : between.Same (Outside middle high) compared)
    (atLow : low ≤ middle) (atMiddle : middle ≤ high) :
    let final := if holds then compared.setTemp ⟨high⟩ (.word 1) else compared
    final.temps ⟨high⟩ = some (.word (if holds then 1 else 0)) ∧
      state.Same (Outside low (high + 1)) final := by
  have operandsSame := leftSame.join rightSame atLow atMiddle
  have cleared : compared.temps ⟨high⟩ = some (.word 0) := by
    rw [operandsSame.temps ⟨high⟩ (.inr (Nat.le_refl high)), State.setTemp_temps]
  have written (before : State) (value : Value) :
      before.Same (Outside low (high + 1)) (before.setTemp ⟨high⟩ value) := by
    apply State.Same.setTemp
    simp only [Outside]
    omega
  have sameSoFar : state.Same (Outside low (high + 1)) compared :=
    (written state _).trans (operandsSame.widen (Nat.le_refl low) (Nat.le_succ high))
  cases holds with
  | false => exact ⟨cleared, sameSoFar⟩
  | true => exact ⟨State.setTemp_temps _ _ _, sameSoFar.trans (written compared _)⟩

theorem Computes.comparison (leftComputes : Computes calls base bound low middle left leftResult)
    (rightComputes : Computes calls base bound middle high right rightResult)
    (atBound : bound ≤ low) (atLow : low ≤ middle) (atMiddle : middle ≤ high) :
    Computes calls base bound low (high + 1)
      (.eseq (Lower.comparison left right ⟨high⟩) (.temp ⟨high⟩)) (do
        let leftValue ← leftResult
        let rightValue ← rightResult
        return if leftValue < rightValue then 1 else 0) := by
  have nearCleared {state : State} (near : base.Same (Below bound) state) :
      base.Same (Below bound) (state.setTemp ⟨high⟩ (.word 0)) := by
    refine near.trans (State.Same.setTemp state _ ?_)
    simp only [Below]
    omega
  constructor
  case runs =>
    intro state value near given
    simp only [Option.bind_eq_bind, Option.bind_eq_some_iff, Option.pure_def,
      Option.some.injEq] at given
    obtain ⟨leftValue, leftGiven, rightValue, rightGiven, rfl⟩ := given
    obtain ⟨between, leftDone, leftSame⟩ := leftComputes.runs (nearCleared near) leftGiven
    have nearBetween := (nearCleared near).trans (leftSame.below atBound)
    obtain ⟨compared, rightDone, rightSame⟩ := rightComputes.runs nearBetween rightGiven
    obtain ⟨held, same⟩ := comparison_final (Relation.less.holds leftValue rightValue) leftSame
      rightSame atLow atMiddle
    simp only [Relation.holds, decide_eq_true_eq] at held same
    refine ⟨_, .eseq ?_ (.temp held), same⟩
    rw [linear_comparison, executes_move_temp]
    refine ⟨_, _, .const, ?_⟩
    rw [executes_cmove_temp]
    refine ⟨_, _, _, _, _, _, leftDone, rightDone, .const, ?_⟩
    simp [Relation.holds]
  case only =>
    intro state value final near done
    cases done with
    | eseq effectDone valueDone =>
        rw [linear_comparison, executes_move_temp] at effectDone
        obtain ⟨_, _, constDone, effectDone⟩ := effectDone
        cases constDone
        rw [executes_cmove_temp] at effectDone
        obtain ⟨leftValue, rightValue, _, between, compared, _, leftDone, rightDone, sourceDone,
          ended⟩ := effectDone
        obtain ⟨_, rfl, leftWord, leftSame⟩ := leftComputes.only (nearCleared near) leftDone
        have nearBetween := (nearCleared near).trans (leftSame.below atBound)
        obtain ⟨_, rfl, rightWord, rightSame⟩ := rightComputes.only nearBetween rightDone
        cases leftWord
        cases rightWord
        cases sourceDone
        obtain ⟨held, same⟩ := comparison_final (Relation.less.holds leftValue rightValue) leftSame
          rightSame atLow atMiddle
        rw [executes_nil] at ended
        subst ended
        cases valueDone with
        | temp read =>
            rw [held, Option.some.injEq] at read
            refine ⟨_, rfl, ?_, same⟩
            rw [← read]
            simp [Relation.holds]

section Diamond

variable {joints : Lower.Joints} {guard thenExp elseExp : Exp} {temp : Temp} {state final : State}

def diamondCode (joints : Lower.Joints) (guard thenExp elseExp : Exp) (temp : Temp) : List Stm := [
  .cjump .equal guard (.const 1) joints.thenLabel joints.elseLabel,
  .label joints.elseLabel,
  .move (.temp temp) elseExp,
  .jump joints.joinLabel,
  .label joints.thenLabel,
  .move (.temp temp) thenExp,
  .label joints.joinLabel]

theorem linear_diamond :
    (Lower.diamond joints (.cjump .equal guard (.const 1) joints.thenLabel joints.elseLabel)
      thenExp elseExp temp).linear = diamondCode joints guard thenExp elseExp temp := rfl

structure LabelsApart (joints : Lower.Joints) : Prop where
  elseThen : joints.elseLabel ≠ joints.thenLabel
  elseJoin : joints.elseLabel ≠ joints.joinLabel
  thenJoin : joints.thenLabel ≠ joints.joinLabel

theorem afterLabel?_else :
    afterLabel? joints.elseLabel (diamondCode joints guard thenExp elseExp temp) = some [
      .move (.temp temp) elseExp, .jump joints.joinLabel, .label joints.thenLabel,
      .move (.temp temp) thenExp, .label joints.joinLabel] := by
  simp [diamondCode, afterLabel?]

theorem afterLabel?_then (apart : LabelsApart joints) :
    afterLabel? joints.thenLabel (diamondCode joints guard thenExp elseExp temp) =
      some [.move (.temp temp) thenExp, .label joints.joinLabel] := by
  simp [diamondCode, afterLabel?, apart.elseThen]

theorem afterLabel?_join (apart : LabelsApart joints) :
    afterLabel? joints.joinLabel (diamondCode joints guard thenExp elseExp temp) = some [] := by
  simp [diamondCode, afterLabel?, apart.elseJoin, apart.thenJoin]

theorem executes_branch (apart : LabelsApart joints) (taken : Bool) :
    let code := diamondCode joints guard thenExp elseExp temp
    (∃ found,
      afterLabel? (if taken then joints.thenLabel else joints.elseLabel) code = some found ∧
        Executes calls code found state final) ↔
      ∃ value written, Evaluates calls (if taken then thenExp else elseExp) state value written ∧
        final = written.setTemp temp value := by
  cases taken with
  | true =>
      simp only [if_true, afterLabel?_then apart, Option.some.injEq, exists_eq_left',
        executes_move_temp, executes_label, executes_nil]
  | false =>
      -- The else branch stands first, and jumps over the other to the end.
      simp only [Bool.false_eq_true, if_false, afterLabel?_else, afterLabel?_join apart,
        Option.some.injEq, exists_eq_left', executes_move_temp, executes_jump, executes_nil]

theorem executes_diamond (apart : LabelsApart joints) :
    let code := diamondCode joints guard thenExp elseExp temp
    Executes calls code code state final ↔
      ∃ guardValue between value written,
        Evaluates calls guard state (.word guardValue) between ∧
        Evaluates calls (if guardValue = 1 then thenExp else elseExp) between value written ∧
        final = written.setTemp temp value := by
  intro code
  refine executes_cjump.trans ⟨?_, ?_⟩
  · rintro ⟨guardValue, _, between, _, found, guardDone, constDone, goes, run⟩
    cases constDone
    obtain ⟨value, written, branchDone, rfl⟩ := (executes_branch apart _).mp ⟨found, goes, run⟩
    simp only [Relation.holds, decide_eq_true_eq] at branchDone
    exact ⟨guardValue, between, value, written, guardDone, branchDone, rfl⟩
  · rintro ⟨guardValue, between, value, written, guardDone, branchDone, rfl⟩
    obtain ⟨found, goes, run⟩ := (executes_branch apart (Relation.equal.holds guardValue 1)).mpr
      ⟨value, written, by simpa [Relation.holds] using branchDone, rfl⟩
    exact ⟨guardValue, 1, between, between, found, guardDone, .const, goes, run⟩

end Diamond

theorem Computes.conditional {joints : Lower.Joints} (apart : LabelsApart joints) {later : Nat}
    {guard thenExp elseExp : Exp} {guardResult thenResult elseResult : Option Int64}
    (guardComputes : Computes calls base bound (low + 1) middle guard guardResult)
    (thenComputes : Computes calls base bound middle later thenExp thenResult)
    (elseComputes : Computes calls base bound later high elseExp elseResult)
    (atBound : bound ≤ low) (atLow : low + 1 ≤ middle) (atMiddle : middle ≤ later)
    (atLater : later ≤ high) :
    Computes calls base bound low high
      (.eseq
        (Lower.diamond joints (.cjump .equal guard (.const 1) joints.thenLabel joints.elseLabel)
          thenExp elseExp ⟨low⟩)
        (.temp ⟨low⟩)) (do
      let guardValue ← guardResult
      if guardValue = 1 then thenResult else elseResult) := by
  have branchComputes (guardValue : Int64) :
      Computes calls base bound middle high (if guardValue = 1 then thenExp else elseExp)
        (if guardValue = 1 then thenResult else elseResult) := by
    split
    · exact thenComputes.widen (Nat.le_refl _) atLater
    · exact elseComputes.widen atMiddle (Nat.le_refl _)
  have above : bound ≤ low + 1 := Nat.le_succ_of_le atBound
  have atEnd : middle ≤ high := Nat.le_trans atMiddle atLater
  -- The result is written last, to a temporary that no part of the conditional uses.
  have finalSame {state between written : State} (value : Value)
      (guardSame : state.Same (Outside (low + 1) middle) between)
      (branchSame : between.Same (Outside middle high) written) :
      state.Same (Outside low high) (written.setTemp ⟨low⟩ value) := by
    have partsSame := guardSame.join branchSame atLow atEnd
    refine (partsSame.widen (Nat.le_succ low) (Nat.le_refl high)).trans
      (State.Same.setTemp written value ?_)
    simp only [Outside]
    omega
  constructor
  case runs =>
    intro state value near given
    simp only [Option.bind_eq_bind, Option.bind_eq_some_iff] at given
    obtain ⟨guardValue, guardGiven, branchGiven⟩ := given
    obtain ⟨between, guardDone, guardSame⟩ := guardComputes.runs near guardGiven
    have nearBetween := near.trans (guardSame.below above)
    obtain ⟨written, branchDone, branchSame⟩ :=
      (branchComputes guardValue).runs nearBetween branchGiven
    refine ⟨_, .eseq ?_ (.temp (State.setTemp_temps _ _ _)), finalSame _ guardSame branchSame⟩
    exact (executes_diamond apart).mpr ⟨_, _, _, _, guardDone, branchDone, rfl⟩
  case only =>
    intro state value final near done
    cases done with
    | eseq effectDone valueDone =>
        rw [linear_diamond] at effectDone
        obtain ⟨guardValue, between, branchValue, written, guardDone, branchDone, rfl⟩ :=
          (executes_diamond apart).mp effectDone
        obtain ⟨_, rfl, guardWord, guardSame⟩ := guardComputes.only near guardDone
        cases guardWord
        have nearBetween := near.trans (guardSame.below above)
        obtain ⟨word, branchGiven, rfl, branchSame⟩ :=
          (branchComputes guardValue).only nearBetween branchDone
        cases valueDone with
        | temp read =>
            rw [State.setTemp_temps, Option.some.injEq] at read
            exact ⟨word, branchGiven, read.symm, finalSame _ guardSame branchSame⟩

theorem ComputesAll.nil : ComputesAll calls base bound low high [] (some []) where
  runs _ given := by
    cases given
    exact ⟨_, .nil, .refl _ _⟩
  only _ done := by
    cases done
    exact ⟨[], rfl, rfl, .refl _ _⟩

theorem ComputesAll.cons {exps : List Exp} {results : Option (List Int64)}
    (firstComputes : Computes calls base bound low middle exp result)
    (restCompute : ComputesAll calls base bound middle high exps results)
    (atBound : bound ≤ low) (atLow : low ≤ middle) (atMiddle : middle ≤ high) :
    ComputesAll calls base bound low high (exp :: exps) (do
      let value ← result
      let values ← results
      return value :: values) where
  runs near given := by
    simp only [Option.bind_eq_bind, Option.bind_eq_some_iff, Option.pure_def,
      Option.some.injEq] at given
    obtain ⟨value, firstGiven, values, restGiven, rfl⟩ := given
    obtain ⟨between, firstDone, firstSame⟩ := firstComputes.runs near firstGiven
    have nearBetween := near.trans (firstSame.below atBound)
    obtain ⟨final, restDone, restSame⟩ := restCompute.runs nearBetween restGiven
    exact ⟨final, .cons firstDone restDone, firstSame.join restSame atLow atMiddle⟩
  only near done := by
    cases done with
    | cons firstDone restDone =>
        obtain ⟨word, rfl, rfl, firstSame⟩ := firstComputes.only near firstDone
        have nearBetween := near.trans (firstSame.below atBound)
        obtain ⟨words, rfl, rfl, restSame⟩ := restCompute.only nearBetween restDone
        exact ⟨word :: words, rfl, rfl, firstSame.join restSame atLow atMiddle⟩

def Calls.Gives (calls : Calls) (function : Label) (values : List Int64 → Option Int64) : Prop :=
  ∀ args before result after, calls function (args.map .word) before result after ↔
    ∃ value, values args = some value ∧ result = .word value ∧ after = before

theorem Computes.call {args : List Exp} {results : Option (List Int64)} {function : Label}
    {values : List Int64 → Option Int64} (gives : calls.Gives function values)
    (argsCompute : ComputesAll calls base bound low high args results) :
    Computes calls base bound low high (.call function args) (do
      let words ← results
      values words) where
  runs near given := by
    simp only [Option.bind_eq_bind, Option.bind_eq_some_iff] at given
    obtain ⟨words, argsGiven, valueGiven⟩ := given
    obtain ⟨final, argsDone, same⟩ := argsCompute.runs near argsGiven
    have called := (gives words final.world _ final.world).mpr ⟨_, valueGiven, rfl, rfl⟩
    exact ⟨final, .call argsDone called, same⟩
  only near done := by
    cases done with
    | call argsDone called =>
        obtain ⟨words, rfl, rfl, same⟩ := argsCompute.only near argsDone
        obtain ⟨value, valueGiven, rfl, rfl⟩ := (gives _ _ _ _).mp called
        exact ⟨value, valueGiven, rfl, same⟩

end Computes

/--
From the base, the statements lead to a state that is good for the outcome, and do not come to
their end if there is none. They keep the temporaries below the bound.
-/
structure CarriesOut {α : Type} (calls : Calls) (base : State) (bound : Nat)
    (statements : List Stm) (outcome : Option α) (Good : State → α → Prop) : Prop where
  runs : ∀ {result}, outcome = some result →
    ∃ after, base.Same (Below bound) after ∧ Good after result ∧
      ∀ {code rest final}, Executes calls code rest after final →
        Executes calls code (statements ++ rest) base final
  only : ∀ {code rest final}, Executes calls code (statements ++ rest) base final →
    ∃ result after, outcome = some result ∧ base.Same (Below bound) after ∧ Good after result ∧
      Executes calls code rest after final

section CarriesOut

variable {α : Type} {calls : Calls} {base : State} {bound : Nat} {statements : List Stm}
  {Good : State → α → Prop}

theorem CarriesOut.nil {result : α} (good : Good base result) :
    CarriesOut calls base bound [] (some result) Good where
  runs given := by
    cases given
    exact ⟨base, .refl _ _, good, fun run => run⟩
  only run := ⟨result, base, rfl, .refl _ _, good, run⟩

theorem CarriesOut.nop {outcome : Option α}
    (restOut : CarriesOut calls base bound statements outcome Good) :
    CarriesOut calls base bound (.nop :: statements) outcome Good where
  runs given := by
    obtain ⟨after, same, good, onward⟩ := restOut.runs given
    exact ⟨after, same, good, fun run => .nop (onward run)⟩
  only run := restOut.only (executes_nop.mp run)

theorem CarriesOut.keepFewer {newBound : Nat} {outcome : Option α}
    (carriesOut : CarriesOut calls base newBound statements outcome Good)
    (atBound : bound ≤ newBound) : CarriesOut calls base bound statements outcome Good where
  runs given := by
    obtain ⟨after, same, good, onward⟩ := carriesOut.runs given
    exact ⟨after, same.fewer atBound, good, onward⟩
  only run := by
    obtain ⟨result, after, given, same, good, onward⟩ := carriesOut.only run
    exact ⟨result, after, given, same.fewer atBound, good, onward⟩

theorem CarriesOut.move {high newBound : Nat} {exp : Exp} {value : Option Int64}
    {outcome : Int64 → Option α} (computes : Computes calls base bound bound high exp value)
    (atBound : bound ≤ high) (atHigh : bound ≤ newBound)
    (restOut : ∀ {word after}, base.Same (Below bound) after →
      after.temps ⟨high⟩ = some (.word word) →
        CarriesOut calls after newBound statements (outcome word) Good) :
    CarriesOut calls base bound (.move (.temp ⟨high⟩) exp :: statements) (do
      let word ← value
      outcome word) Good := by
  have written {state : State} (word : Value) (same : base.Same (Outside bound high) state) :
      base.Same (Below bound) (state.setTemp ⟨high⟩ word) := by
    refine (same.below (Nat.le_refl bound)).trans (State.Same.setTemp state word ?_)
    simp only [Below]
    omega
  constructor
  case runs =>
    intro result given
    simp only [Option.bind_eq_bind, Option.bind_eq_some_iff] at given
    obtain ⟨word, valueGiven, restGiven⟩ := given
    obtain ⟨middle, expDone, same⟩ := computes.runs (.refl _ _) valueGiven
    have near := written (.word word) same
    obtain ⟨after, restSame, good, onward⟩ :=
      (restOut near (State.setTemp_temps _ _ _)).runs restGiven
    refine ⟨after, near.trans (restSame.fewer atHigh), good, fun run => ?_⟩
    exact executes_move_temp.mpr ⟨_, _, expDone, onward run⟩
  case only =>
    intro code rest final run
    obtain ⟨_, middle, expDone, restRun⟩ := executes_move_temp.mp run
    obtain ⟨word, rfl, rfl, same⟩ := computes.only (.refl _ _) expDone
    have near := written (.word word) same
    obtain ⟨result, after, restGiven, restSame, good, onward⟩ :=
      (restOut near (State.setTemp_temps _ _ _)).only restRun
    exact ⟨result, after, restGiven, near.trans (restSame.fewer atHigh), good, onward⟩

section Afterwards

variable {newBound low high : Nat} {exp : Exp} {outcome : Option α} {value : α → Option Int64}

theorem CarriesOut.runs_then (carriesOut : CarriesOut calls base bound statements outcome Good)
    (computes : ∀ {after result}, Good after result →
      Computes calls after newBound low high exp (value result))
    {word : Int64} (given : outcome.bind value = some word) :
    ∃ after final, Evaluates calls exp after (.word word) final ∧ final.world = base.world ∧
      ∀ {code rest last}, Executes calls code rest after last →
        Executes calls code (statements ++ rest) base last := by
  obtain ⟨result, outcomeGiven, valueGiven⟩ := Option.bind_eq_some_iff.mp given
  obtain ⟨after, near, good, onward⟩ := carriesOut.runs outcomeGiven
  obtain ⟨final, expDone, same⟩ := (computes good).runs (.refl _ _) valueGiven
  exact ⟨after, final, expDone, same.world.trans near.world, onward⟩

theorem CarriesOut.only_then (carriesOut : CarriesOut calls base bound statements outcome Good)
    (computes : ∀ {after result}, Good after result →
      Computes calls after newBound low high exp (value result))
    {code rest : List Stm} {last : State} (run : Executes calls code (statements ++ rest) base last) :
    ∃ after, Executes calls code rest after last ∧
      ∀ {result final}, Evaluates calls exp after result final →
        ∃ word, outcome.bind value = some word ∧ result = .word word ∧
          final.world = base.world := by
  obtain ⟨result, after, outcomeGiven, near, good, restRun⟩ := carriesOut.only run
  refine ⟨after, restRun, fun expDone => ?_⟩
  obtain ⟨word, valueGiven, isWord, same⟩ := (computes good).only (.refl _ _) expDone
  exact ⟨word, Option.bind_eq_some_iff.mpr ⟨result, outcomeGiven, valueGiven⟩, isWord,
    same.world.trans near.world⟩

end Afterwards

end CarriesOut

end TreeCompiler.Code
