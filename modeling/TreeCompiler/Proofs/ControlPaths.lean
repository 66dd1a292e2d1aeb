import Mathlib.Data.Set.Insert
import TreeCompiler.Proofs.Computation

set_option autoImplicit false

namespace TreeCompiler.Code

inductive Touch
  | reads (temp : Temp)
  -- Only a move is sure to set its target.
  | sets (temp : Temp)
  deriving DecidableEq, Repr

inductive Work
  | eval (exp : Exp)
  | set (temp : Temp)
  | run (code rest : List Stm)
  | goto (code : List Stm) (target : Label)

namespace Work

def touches : Work → List Touch
  | eval (.temp temp) => [.reads temp]
  | set temp => [.sets temp]
  | _ => []

/--
What a statement comes down to in each of the ways to go on from it. Operands are evaluated from
left to right and both targets of a branch are followed. A conditional move may leave its target as
it was, so it reads it.
-/
def waysOf (code rest : List Stm) : Stm → List (List Work)
  | .move (.temp temp) source => [[eval source, set temp, run code rest]]
  | .move target source => [[eval target, eval source, run code rest]]
  | .exp value => [[eval value, run code rest]]
  | .jump target => [[goto code target]]
  | .cjump _ left right ifTrue ifFalse =>
      [[eval left, eval right, goto code ifTrue], [eval left, eval right, goto code ifFalse]]
  | .cmove _ left right target source =>
      [[eval left, eval right, eval target, eval source, run code rest]]
  | .seq first second => [[run code (first :: second :: rest)]]
  | .label _ | .nop => [[run code rest]]

def ways : Work → List (List Work)
  | eval (.const _) | eval (.name _) | eval (.temp _) | set _ | run _ [] => [[]]
  | eval (.binop _ left right) => [[eval left, eval right]]
  | eval (.mem address) => [[eval address]]
  | eval (.call _ args) => [args.map eval]
  | eval (.eseq effect value) => [[run effect.linear effect.linear, eval value]]
  | run code (statement :: rest) => waysOf code rest statement
  | goto code target => (afterLabel? target code).toList.map fun found => [run code found]

end Work

/-- A control path, which may stop anywhere: what it touches, and the work that is then left. -/
inductive Path : List Work → List Touch → List Work → Prop
  | stop {work} : Path work [] work
  | step {first rest way touched left} (goes : way ∈ first.ways)
      (onward : Path (way ++ rest) touched left) :
      Path (first :: rest) (first.touches ++ touched) left

def Stuck : List Work → Prop
  | [] => False
  | first :: _ => first.ways = []

def SetBeforeRead (known : Set Temp) (touched : List Touch) : Prop :=
  ∀ before temp after, touched = before ++ .reads temp :: after →
    temp ∈ known ∨ .sets temp ∈ before

/--
However a path goes through the work, it reads only temporaries that are known or that it has set,
and it does not break off.
-/
def Sound (known : Set Temp) (work : List Work) : Prop :=
  ∀ touched left, Path work touched left → SetBeforeRead known touched ∧ ¬Stuck left

section Touches

variable {known : Set Temp} {temp : Temp} {touched : List Touch}

@[simp] theorem setBeforeRead_nil : SetBeforeRead known [] := by
  intro before temp after split
  simp at split

@[simp] theorem setBeforeRead_reads :
    SetBeforeRead known (.reads temp :: touched) ↔
      temp ∈ known ∧ SetBeforeRead known touched := by
  constructor
  · intro ordered
    constructor
    · simpa using ordered [] temp touched rfl
    · rintro before other after rfl
      simpa using ordered (.reads temp :: before) other after rfl
  · rintro ⟨isKnown, ordered⟩ before other after split
    -- The read in question is this one, or one further on.
    cases before with
    | nil =>
        cases split
        exact .inl isKnown
    | cons first before =>
        obtain ⟨rfl, rest_split⟩ := List.cons.inj split
        exact (ordered before other after rest_split).imp_right (List.mem_cons_of_mem _)

@[simp] theorem setBeforeRead_sets :
    SetBeforeRead known (.sets temp :: touched) ↔ SetBeforeRead (insert temp known) touched := by
  constructor
  · rintro ordered before other after rfl
    rcases ordered (.sets temp :: before) other after rfl with isKnown | isSet
    · exact .inl (Set.mem_insert_of_mem temp isKnown)
    · rcases List.mem_cons.mp isSet with same | earlier
      · cases same
        exact .inl (Set.mem_insert _ known)
      · exact .inr earlier
  · intro ordered before other after split
    cases before with
    | nil => cases split
    | cons first before =>
        obtain ⟨rfl, rest_split⟩ := List.cons.inj split
        rcases ordered before other after rest_split with isKnown | isSet
        · rcases isKnown with rfl | isKnown
          · exact .inr List.mem_cons_self
          · exact .inl isKnown
        · exact .inr (List.mem_cons_of_mem _ isSet)

theorem SetBeforeRead.mono {more : Set Temp} (ordered : SetBeforeRead known touched)
    (included : known ⊆ more) : SetBeforeRead more touched :=
  fun before temp after split => (ordered before temp after split).imp_left (@included temp)

end Touches

section Sound

variable {known more : Set Temp} {temp : Temp} {first : Work} {rest : List Work}
  {code others : List Stm}

theorem Sound.mono {work : List Work} (sound : Sound known work) (included : known ⊆ more) :
    Sound more work :=
  fun touched left path => (sound touched left path).imp_left fun ordered => ordered.mono included

@[simp] theorem sound_nil : Sound known [] := by
  rintro touched left ⟨⟩
  exact ⟨setBeforeRead_nil, id⟩

-- One step, as long as what it touches can be told apart from what comes later.
theorem sound_step
    (atOnce : ∀ {touched}, SetBeforeRead known (first.touches ++ touched) ↔
      SetBeforeRead more touched) :
    Sound known (first :: rest) ↔
      first.ways ≠ [] ∧ ∀ way ∈ first.ways, Sound more (way ++ rest) := by
  constructor
  · intro sound
    refine ⟨(sound [] _ .stop).2, fun way goes touched left onward => ?_⟩
    obtain ⟨ordered, goesOn⟩ := sound _ left (.step goes onward)
    exact ⟨atOnce.mp ordered, goesOn⟩
  · rintro ⟨notStuck, onward⟩ touched left path
    cases path with
    | stop => exact ⟨setBeforeRead_nil, notStuck⟩
    | step goes path =>
        obtain ⟨ordered, goesOn⟩ := onward _ goes _ left path
        exact ⟨atOnce.mpr ordered, goesOn⟩

theorem sound_onward (way : List Work) (quiet : first.touches = []) (only : first.ways = [way]) :
    Sound known (first :: rest) ↔ Sound known (way ++ rest) := by
  rw [sound_step (by rw [quiet]; exact Iff.rfl), only]
  simp

@[simp] theorem sound_set : Sound known (.set temp :: rest) ↔ Sound (insert temp known) rest := by
  rw [sound_step setBeforeRead_sets]
  simp [Work.ways]

@[simp] theorem sound_temp :
    Sound known (.eval (.temp temp) :: rest) ↔ temp ∈ known ∧ Sound known rest := by
  have onward (isKnown : temp ∈ known) :
      Sound known (.eval (.temp temp) :: rest) ↔ Sound known rest := by
    rw [sound_step (setBeforeRead_reads.trans (and_iff_right isKnown))]
    simp [Work.ways]
  constructor
  · intro sound
    have atOnce := (sound [.reads temp] rest (.step List.mem_cons_self .stop)).1
    have isKnown := (setBeforeRead_reads.mp atOnce).1
    exact ⟨isKnown, (onward isKnown).mp sound⟩
  · rintro ⟨isKnown, sound⟩
    exact (onward isKnown).mpr sound

@[simp] theorem sound_const (value : Int64) :
    Sound known (.eval (.const value) :: rest) ↔ Sound known rest :=
  sound_onward [] rfl rfl

@[simp] theorem sound_name (label : Label) :
    Sound known (.eval (.name label) :: rest) ↔ Sound known rest :=
  sound_onward [] rfl rfl

@[simp] theorem sound_binop (op : Arithmetic) (left right : Exp) :
    Sound known (.eval (.binop op left right) :: rest) ↔
      Sound known (.eval left :: .eval right :: rest) :=
  sound_onward [.eval left, .eval right] rfl rfl

@[simp] theorem sound_mem (address : Exp) :
    Sound known (.eval (.mem address) :: rest) ↔ Sound known (.eval address :: rest) :=
  sound_onward [.eval address] rfl rfl

@[simp] theorem sound_call (function : Label) (args : List Exp) :
    Sound known (.eval (.call function args) :: rest) ↔ Sound known (args.map .eval ++ rest) :=
  sound_onward (args.map .eval) rfl rfl

@[simp] theorem sound_eseq (effect : Stm) (value : Exp) :
    Sound known (.eval (.eseq effect value) :: rest) ↔
      Sound known (.run effect.linear effect.linear :: .eval value :: rest) :=
  sound_onward [.run effect.linear effect.linear, .eval value] rfl rfl

@[simp] theorem sound_run_nil : Sound known (.run code [] :: rest) ↔ Sound known rest :=
  sound_onward [] rfl rfl

@[simp] theorem sound_run_label (label : Label) :
    Sound known (.run code (.label label :: others) :: rest) ↔
      Sound known (.run code others :: rest) :=
  sound_onward [.run code others] rfl rfl

@[simp] theorem sound_run_exp (value : Exp) :
    Sound known (.run code (.exp value :: others) :: rest) ↔
      Sound known (.eval value :: .run code others :: rest) :=
  sound_onward [.eval value, .run code others] rfl rfl

@[simp] theorem sound_run_move (source : Exp) :
    Sound known (.run code (.move (.temp temp) source :: others) :: rest) ↔
      Sound known (.eval source :: .set temp :: .run code others :: rest) :=
  sound_onward [.eval source, .set temp, .run code others] rfl rfl

@[simp] theorem sound_run_cmove (relation : Relation) (left right target source : Exp) :
    Sound known (.run code (.cmove relation left right target source :: others) :: rest) ↔
      Sound known
        (.eval left :: .eval right :: .eval target :: .eval source :: .run code others :: rest) :=
  sound_onward [.eval left, .eval right, .eval target, .eval source, .run code others] rfl rfl

@[simp] theorem sound_run_jump (target : Label) :
    Sound known (.run code (.jump target :: others) :: rest) ↔
      Sound known (.goto code target :: rest) :=
  sound_onward [.goto code target] rfl rfl

@[simp] theorem sound_run_cjump (relation : Relation) (left right : Exp) (ifTrue ifFalse : Label) :
    Sound known (.run code (.cjump relation left right ifTrue ifFalse :: others) :: rest) ↔
      Sound known (.eval left :: .eval right :: .goto code ifTrue :: rest) ∧
        Sound known (.eval left :: .eval right :: .goto code ifFalse :: rest) := by
  rw [sound_step Iff.rfl]
  simp [Work.ways, Work.waysOf]

theorem sound_goto {target : Label} (found : afterLabel? target code = some others) :
    Sound known (.goto code target :: rest) ↔ Sound known (.run code others :: rest) :=
  sound_onward [.run code others] rfl (by simp [Work.ways, found])

-- A conditional move does not count as setting its target, and reads it.
example (temp : Temp) :
    ¬Sound ∅ [.run [] [.cmove .less (.const 0) (.const 1) (.temp temp) (.const 1)]] := by
  simp

end Sound

def Exp.Evaluable (known : Set Temp) (exp : Exp) : Prop :=
  ∀ now rest, known ⊆ now → Sound now rest → Sound now (.eval exp :: rest)

namespace Exp.Evaluable

variable {known more now : Set Temp} {left right : Exp} {register : Temp}

theorem mono {exp : Exp} (evaluable : exp.Evaluable known) (included : known ⊆ more) :
    exp.Evaluable more :=
  fun now rest reached => evaluable now rest (included.trans reached)

theorem const (value : Int64) : (Exp.const value).Evaluable known :=
  fun _ _ _ sound => (sound_const value).mpr sound

theorem temp (isKnown : register ∈ known) : (Exp.temp register).Evaluable known :=
  fun _ _ included sound => sound_temp.mpr ⟨included isKnown, sound⟩

theorem binop (leftEvaluable : left.Evaluable known) (rightEvaluable : right.Evaluable known)
    (op : Arithmetic) : (Exp.binop op left right).Evaluable known := by
  intro now rest included sound
  rw [sound_binop]
  exact leftEvaluable now _ included (rightEvaluable now rest included sound)

theorem staticData (label : Label) : (Exp.mem (.name label)).Evaluable known := by
  intro now rest _ sound
  simpa using sound

theorem frameWord (isKnown : register ∈ known) (offset : Int64) :
    (Exp.mem (.binop .plus (.temp register) (.const offset))).Evaluable known := by
  intro now rest included sound
  simpa using ⟨included isKnown, sound⟩

theorem args {args : List Exp} (evaluable : ∀ arg ∈ args, arg.Evaluable known)
    (included : known ⊆ now) {rest : List Work} (sound : Sound now rest) :
    Sound now (args.map .eval ++ rest) := by
  induction args with
  | nil => exact sound
  | cons first others ih =>
      obtain ⟨firstEvaluable, othersEvaluable⟩ := List.forall_mem_cons.mp evaluable
      exact firstEvaluable now _ included (ih othersEvaluable)

theorem call {args : List Exp} (evaluable : ∀ arg ∈ args, arg.Evaluable known)
    (function : Label) : (Exp.call function args).Evaluable known := by
  intro now rest included sound
  rw [sound_call]
  exact Evaluable.args evaluable included sound

theorem comparison (leftEvaluable : left.Evaluable known) (rightEvaluable : right.Evaluable known)
    (temp : Temp) :
    (Exp.eseq (Lower.comparison left right temp) (.temp temp)).Evaluable known := by
  intro now rest included sound
  -- The temporary is set to zero before the conditional move looks at it.
  have isSet : temp ∈ insert temp now := Set.mem_insert temp now
  have stillKnown : known ⊆ insert temp now := included.trans (Set.subset_insert temp now)
  have soundAfter : Sound (insert temp now) rest := sound.mono (Set.subset_insert temp now)
  rw [sound_eseq, linear_comparison, sound_run_move, sound_const, sound_set, sound_run_cmove]
  apply leftEvaluable _ _ stillKnown
  apply rightEvaluable _ _ stillKnown
  simp [isSet, soundAfter]

theorem conditional {guard thenExp elseExp : Exp} {joints : Lower.Joints}
    (apart : LabelsApart joints) (guardEvaluable : guard.Evaluable known)
    (thenEvaluable : thenExp.Evaluable known) (elseEvaluable : elseExp.Evaluable known)
    (temp : Temp) :
    (Exp.eseq
      (Lower.diamond joints
        (.cjump .equal guard (.const Lowered.truth) joints.thenLabel joints.elseLabel)
        thenExp elseExp temp)
      (.temp temp)).Evaluable known := by
  intro now rest included sound
  -- Each of the branches sets the temporary before they meet.
  have met : Sound (insert temp now) (.eval (.temp temp) :: rest) :=
    sound_temp.mpr ⟨Set.mem_insert temp now, sound.mono (Set.subset_insert temp now)⟩
  have thenWay : Sound now
      (.goto (diamondCode joints guard thenExp elseExp temp) joints.thenLabel ::
        .eval (.temp temp) :: rest) := by
    rw [sound_goto (afterLabel?_then apart), sound_run_move]
    apply thenEvaluable _ _ included
    rw [sound_set, sound_run_label, sound_run_nil]
    exact met
  have elseWay : Sound now
      (.goto (diamondCode joints guard thenExp elseExp temp) joints.elseLabel ::
        .eval (.temp temp) :: rest) := by
    rw [sound_goto afterLabel?_else, sound_run_move]
    apply elseEvaluable _ _ included
    rw [sound_set, sound_run_jump, sound_goto (afterLabel?_join apart), sound_run_nil]
    exact met
  rw [sound_eseq]
  refine (sound_run_cjump _ _ _ _ _).mpr ⟨?_, ?_⟩
  · exact guardEvaluable _ _ included ((sound_const _).mpr thenWay)
  · exact guardEvaluable _ _ included ((sound_const _).mpr elseWay)

end Exp.Evaluable

end TreeCompiler.Code
