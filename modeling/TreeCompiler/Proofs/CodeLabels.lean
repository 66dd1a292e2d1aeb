import TreeCompiler.Proofs.CodeNodes

set_option autoImplicit false

namespace TreeCompiler.Code

namespace Label

def index? (label : Label) : Option Nat :=
  let index := Nat.ofDigitChars 10 (label.text.toList.drop 1) 0
  if label = numbered index then some index else none

@[simp] theorem index?_numbered (index : Nat) : (numbered index).index? = some index := by
  have digits : (numbered index).text.toList.drop 1 = Nat.toDigits 10 index := by
    simp [numbered, Nat.toList_repr]
  have read : Nat.ofDigitChars 10 (Nat.toDigits 10 index) 0 = index :=
    Nat.ofDigitChars_toDigits (by decide) (by decide)
  simp [index?, digits, read]

theorem eq_numbered_of_index? {label : Label} {index : Nat} (found : label.index? = some index) :
    label = numbered index := by
  simp only [index?] at found
  split at found
  next isNumbered =>
    cases found
    exact isNumbered
  next => cases found

theorem numbered_injective {one other : Nat} (same : numbered one = numbered other) :
    one = other := by
  have indices := congrArg index? same
  simpa using indices

theorem function_injective {one other : String} (same : function one = function other) :
    one = other :=
  (String.append_right_inj "fn.").mp (congrArg text same)

def initial? (label : Label) : Option Char := label.text.toList.head?

@[simp] theorem initial?_numbered (index : Nat) : (numbered index).initial? = some 'L' := by
  simp [initial?, numbered]

@[simp] theorem initial?_function (name : String) : (function name).initial? = some 'f' := by
  simp [initial?, function]

@[simp] theorem initial?_main : main.initial? = some 'm' := by decide

@[simp] theorem initial?_print : print.initial? = some 'p' := by decide

theorem numbered_ne_function (index : Nat) (name : String) : numbered index ≠ function name := by
  intro same
  have initials := congrArg initial? same
  simp at initials

theorem numbered_ne_main (index : Nat) : numbered index ≠ main := by
  intro same
  have initials := congrArg initial? same
  simp at initials

theorem numbered_ne_print (index : Nat) : numbered index ≠ print := by
  intro same
  have initials := congrArg initial? same
  simp at initials

theorem function_ne_main (name : String) : function name ≠ main := by
  intro same
  have initials := congrArg initial? same
  simp at initials

theorem function_ne_print (name : String) : function name ≠ print := by
  intro same
  have initials := congrArg initial? same
  simp at initials

end Label

def Node.mark? : Node → Option Label
  | .stm (.label label) => some label
  | _ => none

def Exp.marks (exp : Exp) : List Label := exp.nodes.filterMap Node.mark?

def Exp.marksOfAll (exps : List Exp) : List Label := (Exp.nodesOfAll exps).filterMap Node.mark?

@[simp] theorem Exp.marksOfAll_nil : Exp.marksOfAll [] = [] := rfl

@[simp] theorem Exp.marksOfAll_cons (first : Exp) (rest : List Exp) :
    Exp.marksOfAll (first :: rest) = first.marks ++ Exp.marksOfAll rest := by
  simp [Exp.marksOfAll, Exp.nodesOfAll, Exp.marks]

def Stm.marks (stm : Stm) : List Label := stm.nodes.filterMap Node.mark?

namespace Stm

def targets : Stm → List Label
  | jump target => [target]
  | cjump _ _ _ ifTrue ifFalse => [ifTrue, ifFalse]
  | _ => []

def codeLists (body : Stm) : List (List Stm) :=
  -- The body itself, and each statement inside an expression.
  body.linear :: body.nodes.filterMap fun
    | .exp (.eseq effect _) => some effect.linear
    | _ => none

@[simp] theorem marks_nop : nop.marks = [] := rfl

@[simp] theorem marks_move_temp (target : Temp) (source : Exp) :
    (move (.temp target) source).marks = source.marks := by
  simp [marks, nodes, Exp.nodes, List.filterMap_cons, Node.mark?, Exp.marks]

@[simp] theorem marks_exp_call (function : Label) (args : List Exp) :
    (Stm.exp (.call function args)).marks = Exp.marksOfAll args := by
  simp [marks, nodes, Exp.nodes, List.filterMap_cons, Node.mark?, Exp.marksOfAll]

@[simp] theorem marks_block (statements : List Stm) :
    (block statements).marks = statements.flatMap marks :=
  filterMap_nodes_block rfl (fun _ _ => rfl) statements

theorem mem_linear_block {statement : Stm} {statements : List Stm}
    (member : statement ∈ (block statements).linear) :
    statement = nop ∨ ∃ part ∈ statements, statement ∈ part.linear := by
  rw [linear_block] at member
  split at member
  · exact .inl (by simpa using member)
  · obtain ⟨part, listed, inPart⟩ := List.mem_flatMap.mp member
    exact .inr ⟨part, (List.mem_filter.mp listed).1, inPart⟩

end Stm

/-- Wherever a jump stands, each label it may go to stands later in the list. -/
def JumpsForward (code : List Stm) : Prop :=
  ∀ before statement after, code = before ++ statement :: after →
    ∀ target ∈ statement.targets, .label target ∈ after

@[simp] theorem jumpsForward_nil : JumpsForward [] := by
  intro before statement after split
  simp at split

@[simp] theorem jumpsForward_cons (first : Stm) (rest : List Stm) :
    JumpsForward (first :: rest) ↔
      (∀ target ∈ first.targets, .label target ∈ rest) ∧ JumpsForward rest := by
  constructor
  · intro forward
    constructor
    · exact forward [] first rest rfl
    · rintro before statement after rfl
      exact forward (first :: before) statement after rfl
  · rintro ⟨head, tail⟩ before statement after split
    cases before with
    | nil =>
        obtain ⟨rfl, rfl⟩ := List.cons.inj split
        exact head
    | cons earlier before => exact tail before statement after (List.cons.inj split).2

theorem jumpsForward_of_no_targets {code : List Stm}
    (none : ∀ statement ∈ code, statement.targets = []) : JumpsForward code := by
  rintro before statement after rfl
  rw [none statement (by simp)]
  simp

def RunsInside (nodes : List Node) (statement : Stm) : Prop :=
  ∃ effect value, .exp (.eseq effect value) ∈ nodes ∧ statement ∈ effect.linear

theorem RunsInside.mono {nodes others : List Node} {statement : Stm}
    (inside : RunsInside nodes statement) (included : nodes ⊆ others) :
    RunsInside others statement := by
  obtain ⟨effect, value, member, runs⟩ := inside
  exact ⟨effect, value, included member, runs⟩

mutual

theorem Exp.runsInside_of_mem {statement : Stm} (jumps : statement.targets ≠ []) :
    (exp : Exp) → .stm statement ∈ exp.nodes → RunsInside exp.nodes statement
  | .const _, member | .name _, member | .temp _, member => by simp [Exp.nodes] at member
  | .binop op left right, member => by
      simp only [Exp.nodes, List.mem_cons, List.mem_append, reduceCtorEq, false_or] at member
      rcases member with inLeft | inRight
      · exact (left.runsInside_of_mem jumps inLeft).mono (by simp [Exp.nodes])
      · exact (right.runsInside_of_mem jumps inRight).mono (by simp [Exp.nodes])
  | .mem address, member => by
      simp only [Exp.nodes, List.mem_cons, reduceCtorEq, false_or] at member
      exact (address.runsInside_of_mem jumps member).mono (by simp [Exp.nodes])
  | .call function args, member => by
      simp only [Exp.nodes, List.mem_cons, reduceCtorEq, false_or] at member
      exact (Exp.runsInside_of_mem_all jumps args member).mono (by simp [Exp.nodes])
  | .eseq effect value, member => by
      simp only [Exp.nodes, List.mem_cons, List.mem_append, reduceCtorEq, false_or] at member
      rcases member with inEffect | inValue
      · rcases Stm.runsInside_of_mem jumps effect inEffect with runs | inside
        · exact ⟨effect, value, by simp [Exp.nodes], runs⟩
        · exact inside.mono (by simp [Exp.nodes])
      · exact (value.runsInside_of_mem jumps inValue).mono (by simp [Exp.nodes])

theorem Exp.runsInside_of_mem_all {statement : Stm} (jumps : statement.targets ≠ []) :
    (exps : List Exp) → .stm statement ∈ Exp.nodesOfAll exps →
      RunsInside (Exp.nodesOfAll exps) statement
  | [], member => by simp [Exp.nodesOfAll] at member
  | first :: rest, member => by
      rcases List.mem_append.mp member with inFirst | inRest
      · exact (first.runsInside_of_mem jumps inFirst).mono (by simp [Exp.nodesOfAll])
      · exact (Exp.runsInside_of_mem_all jumps rest inRest).mono (by simp [Exp.nodesOfAll])

theorem Stm.runsInside_of_mem {statement : Stm} (jumps : statement.targets ≠ []) :
    (stm : Stm) → .stm statement ∈ stm.nodes →
      statement ∈ stm.linear ∨ RunsInside stm.nodes statement
  | .jump _, member | .label _, member | .nop, member => by
      left
      simpa [Stm.nodes, Stm.linear] using member
  | .move target source, member => by
      simp only [Stm.nodes, List.mem_cons, List.mem_append, Node.stm.injEq] at member
      rcases member with rfl | inTarget | inSource
      · simp [Stm.linear]
      · exact .inr ((target.runsInside_of_mem jumps inTarget).mono (by simp [Stm.nodes]))
      · exact .inr ((source.runsInside_of_mem jumps inSource).mono (by simp [Stm.nodes]))
  | .exp value, member => by
      simp only [Stm.nodes, List.mem_cons, Node.stm.injEq] at member
      rcases member with rfl | inValue
      · simp [Stm.linear]
      · exact .inr ((value.runsInside_of_mem jumps inValue).mono (by simp [Stm.nodes]))
  | .cjump relation left right ifTrue ifFalse, member => by
      simp only [Stm.nodes, List.mem_cons, List.mem_append, Node.stm.injEq] at member
      rcases member with rfl | inLeft | inRight
      · simp [Stm.linear]
      · exact .inr ((left.runsInside_of_mem jumps inLeft).mono (by simp [Stm.nodes]))
      · exact .inr ((right.runsInside_of_mem jumps inRight).mono (by simp [Stm.nodes]))
  | .cmove relation left right target source, member => by
      simp only [Stm.nodes, List.mem_cons, List.mem_append, Node.stm.injEq] at member
      rcases member with rfl | ((inLeft | inRight) | inTarget) | inSource
      · simp [Stm.linear]
      · exact .inr ((left.runsInside_of_mem jumps inLeft).mono (by simp [Stm.nodes]))
      · refine .inr ((right.runsInside_of_mem jumps inRight).mono ?_)
        intro node found
        simp [Stm.nodes, found]
      · refine .inr ((target.runsInside_of_mem jumps inTarget).mono ?_)
        intro node found
        simp [Stm.nodes, found]
      · refine .inr ((source.runsInside_of_mem jumps inSource).mono ?_)
        intro node found
        simp [Stm.nodes, found]
  | .seq first second, member => by
      simp only [Stm.nodes, List.mem_cons, List.mem_append, Node.stm.injEq] at member
      rcases member with rfl | inFirst | inSecond
      · -- A sequence is no jump.
        exact absurd rfl jumps
      · rcases Stm.runsInside_of_mem jumps first inFirst with runs | inside
        · exact .inl (List.mem_append_left _ runs)
        · exact .inr (inside.mono (by simp [Stm.nodes]))
      · rcases Stm.runsInside_of_mem jumps second inSecond with runs | inside
        · exact .inl (List.mem_append_right _ runs)
        · exact .inr (inside.mono (by simp [Stm.nodes]))

end

theorem Stm.mem_codeLists_of_jump {body statement : Stm} (member : .stm statement ∈ body.nodes)
    (jumps : statement.targets ≠ []) : ∃ code ∈ body.codeLists, statement ∈ code := by
  rcases Stm.runsInside_of_mem jumps body member with runs | ⟨effect, value, inside, runs⟩
  · exact ⟨body.linear, List.mem_cons_self, runs⟩
  · refine ⟨effect.linear, List.mem_cons_of_mem _ ?_, runs⟩
    exact List.mem_filterMap.mpr ⟨_, inside, rfl⟩

/--
The labels that a node refers to are known, and the statements that it runs for their effect jump
forward only.
-/
def Node.Closed (data callees : Label → Prop) : Node → Prop
  | .exp (.name label) => data label
  | .exp (.call function _) => callees function
  | .exp (.eseq effect _) => JumpsForward effect.linear
  | _ => True

section Closed

variable {data callees : Label → Prop}

def Exp.Closed (data callees : Label → Prop) (exp : Exp) : Prop :=
  ∀ node ∈ exp.nodes, node.Closed data callees

def Exp.AllClosed (data callees : Label → Prop) (exps : List Exp) : Prop :=
  ∀ node ∈ Exp.nodesOfAll exps, node.Closed data callees

def Stm.Closed (data callees : Label → Prop) (stm : Stm) : Prop :=
  ∀ node ∈ stm.nodes, node.Closed data callees

namespace Exp

@[simp] theorem closed_const (value : Int64) : (const value).Closed data callees :=
  (every_const value).mpr trivial

@[simp] theorem closed_temp (temp : Temp) : (Exp.temp temp).Closed data callees :=
  (every_temp temp).mpr trivial

@[simp] theorem closed_name (label : Label) : (name label).Closed data callees ↔ data label :=
  every_name label

@[simp] theorem closed_mem (address : Exp) :
    (mem address).Closed data callees ↔ address.Closed data callees :=
  (every_mem address).trans (and_iff_right trivial)

@[simp] theorem closed_binop (op : Arithmetic) (left right : Exp) :
    (binop op left right).Closed data callees ↔
      left.Closed data callees ∧ right.Closed data callees :=
  (every_binop op left right).trans (and_iff_right trivial)

@[simp] theorem closed_call (function : Label) (args : List Exp) :
    (call function args).Closed data callees ↔
      callees function ∧ AllClosed data callees args :=
  every_call function args

@[simp] theorem closed_eseq (effect : Stm) (value : Exp) :
    (eseq effect value).Closed data callees ↔
      JumpsForward effect.linear ∧ effect.Closed data callees ∧ value.Closed data callees :=
  every_eseq effect value

@[simp] theorem allClosed_nil : AllClosed data callees [] := everyInAll_nil

@[simp] theorem allClosed_cons (first : Exp) (rest : List Exp) :
    AllClosed data callees (first :: rest) ↔
      first.Closed data callees ∧ AllClosed data callees rest :=
  everyInAll_cons first rest

end Exp

namespace Stm

@[simp] theorem closed_nop : nop.Closed data callees := every_nop.mpr trivial

@[simp] theorem closed_label (label : Label) : (Stm.label label).Closed data callees :=
  (every_label label).mpr trivial

@[simp] theorem closed_jump (target : Label) : (jump target).Closed data callees :=
  (every_jump target).mpr trivial

@[simp] theorem closed_exp (value : Exp) :
    (Stm.exp value).Closed data callees ↔ value.Closed data callees :=
  (every_exp value).trans (and_iff_right trivial)

@[simp] theorem closed_move (target source : Exp) :
    (move target source).Closed data callees ↔
      target.Closed data callees ∧ source.Closed data callees :=
  (every_move target source).trans (and_iff_right trivial)

@[simp] theorem closed_cjump (relation : Relation) (left right : Exp) (ifTrue ifFalse : Label) :
    (cjump relation left right ifTrue ifFalse).Closed data callees ↔
      left.Closed data callees ∧ right.Closed data callees :=
  (every_cjump relation left right ifTrue ifFalse).trans (and_iff_right trivial)

@[simp] theorem closed_cmove (relation : Relation) (left right target source : Exp) :
    (cmove relation left right target source).Closed data callees ↔
      (((left.Closed data callees ∧ right.Closed data callees) ∧ target.Closed data callees) ∧
        source.Closed data callees) :=
  (every_cmove relation left right target source).trans (and_iff_right trivial)

@[simp] theorem closed_followedBy (first second : Stm) :
    (first.followedBy second).Closed data callees ↔
      first.Closed data callees ∧ second.Closed data callees :=
  every_followedBy trivial (fun _ _ => trivial) first second

@[simp] theorem closed_block (statements : List Stm) :
    (block statements).Closed data callees ↔
      ∀ statement ∈ statements, statement.Closed data callees :=
  every_block trivial (fun _ _ => trivial) statements

end Stm

end Closed

end TreeCompiler.Code
