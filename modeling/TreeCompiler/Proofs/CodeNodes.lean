import TreeCompiler.Code.Tree

set_option autoImplicit false

namespace TreeCompiler.Code

namespace Stm

theorem followedBy_cases (first second : Stm) :
    first = nop ∨ second = nop ∨ first.followedBy second = seq first second := by
  cases first <;> cases second <;> simp [followedBy]

variable {α : Type} {collect : Node → Option α}

-- What sequencing adds to the nodes is left out by most collections, so they see through a block.
theorem filterMap_nodes_followedBy (atNop : collect (.stm .nop) = none)
    (atSeq : ∀ first second, collect (.stm (.seq first second)) = none) (first second : Stm) :
    (first.followedBy second).nodes.filterMap collect =
      first.nodes.filterMap collect ++ second.nodes.filterMap collect := by
  rcases followedBy_cases first second with rfl | rfl | sequence
  · simp [nodes, atNop]
  · simp [nodes, atNop]
  · simp [sequence, nodes, atSeq]

theorem filterMap_nodes_block (atNop : collect (.stm .nop) = none)
    (atSeq : ∀ first second, collect (.stm (.seq first second)) = none) (statements : List Stm) :
    (block statements).nodes.filterMap collect =
      statements.flatMap fun statement => statement.nodes.filterMap collect := by
  induction statements with
  | nil => simp [nodes, atNop]
  | cons first rest ih =>
      rw [block_cons, filterMap_nodes_followedBy atNop atSeq, ih, List.flatMap_cons]

def isNop : Stm → Bool
  | nop => true
  | _ => false

theorem eq_nop {statement : Stm} (empty : statement.isNop = true) : statement = nop := by
  cases statement with
  | nop => rfl
  | _ => cases empty

theorem block_filter_append (statements rest : List Stm) :
    block (statements.filter (fun statement => !statement.isNop) ++ rest) =
      block (statements ++ rest) := by
  induction statements with
  | nil => rfl
  | cons first others ih =>
      cases empty : first.isNop with
      | true =>
          rw [eq_nop empty]
          simpa [isNop] using ih
      | false => simp [empty, ih]

theorem followedBy_eq_seq {first second : Stm} (one : first.isNop = false) (two : second ≠ nop) :
    first.followedBy second = seq first second := by
  rcases followedBy_cases first second with rfl | empty | sequence
  · cases one
  · exact absurd empty two
  · exact sequence

def lines : Stm → List Stm
  -- A statement is dropped if it is empty, not for its empty parts.
  | nop => []
  | statement => statement.linear

theorem lines_of_not_isNop {statement : Stm} (busy : statement.isNop = false) :
    statement.lines = statement.linear := by
  cases statement with
  | nop => cases busy
  | _ => rfl

theorem linear_ne_nil (statement : Stm) : statement.linear ≠ [] := by
  fun_induction linear statement with
  | case1 first second firstLists secondLists => simp [firstLists]
  | case2 => simp

theorem lines_eq_nil {statement : Stm} : statement.lines = [] ↔ statement.isNop = true := by
  cases empty : statement.isNop with
  | true => simp [eq_nop empty, lines]
  | false => simp [lines_of_not_isNop empty, linear_ne_nil]

theorem linear_eq_lines (statement : Stm) :
    statement.linear = if statement.lines = [] then [nop] else statement.lines := by
  cases empty : statement.isNop with
  | true => simp [eq_nop empty, lines, linear]
  | false => simp [lines_of_not_isNop empty, linear_ne_nil]

theorem lines_followedBy (first second : Stm) :
    (first.followedBy second).lines = first.lines ++ second.lines := by
  cases one : first.isNop with
  | true => simp [eq_nop one, lines]
  | false =>
      cases two : second.isNop with
      | true => simp [eq_nop two, lines]
      | false =>
          have notNop : second ≠ nop := by
            rintro rfl
            cases two
          rw [followedBy_eq_seq one notNop, lines_of_not_isNop one, lines_of_not_isNop two]
          rfl

theorem lines_block (statements : List Stm) :
    (block statements).lines = statements.flatMap lines := by
  induction statements with
  | nil => rfl
  | cons first rest ih => rw [block_cons, lines_followedBy, ih, List.flatMap_cons]

theorem flatMap_lines (statements : List Stm) :
    statements.flatMap lines =
      (statements.filter fun statement => !statement.isNop).flatMap linear := by
  induction statements with
  | nil => rfl
  | cons first rest ih =>
      cases empty : first.isNop with
      | true => simp [empty, lines_eq_nil.mpr empty, ih]
      | false => simp [empty, lines_of_not_isNop empty, ih]

theorem linear_block (statements : List Stm) :
    (block statements).linear =
      if statements.all isNop then [nop]
      else (statements.filter fun statement => !statement.isNop).flatMap linear := by
  have nothing : statements.flatMap lines = [] ↔ statements.all isNop = true := by
    simp only [List.flatMap_eq_nil_iff, lines_eq_nil, List.all_eq_true]
  rw [linear_eq_lines, lines_block]
  simp only [nothing]
  rw [flatMap_lines]

theorem linear_block_concat {last : Stm} (single : last.linear = [last]) (notNop : last ≠ nop)
    (statements : List Stm) :
    (block (statements ++ [last])).linear =
      (statements.filter fun statement => !statement.isNop).flatMap linear ++ [last] := by
  have busy : last.isNop = false := Bool.eq_false_iff.mpr fun empty => notNop (eq_nop empty)
  simp [linear_block, busy, single]

end Stm

section Every

variable {p : Node → Prop}

def Exp.Every (p : Node → Prop) (exp : Exp) : Prop := ∀ node ∈ exp.nodes, p node

def Exp.EveryInAll (p : Node → Prop) (exps : List Exp) : Prop :=
  ∀ node ∈ Exp.nodesOfAll exps, p node

def Stm.Every (p : Node → Prop) (stm : Stm) : Prop := ∀ node ∈ stm.nodes, p node

namespace Exp

@[simp] theorem every_const (value : Int64) : (const value).Every p ↔ p (.exp (.const value)) := by
  simp [Every, nodes]

@[simp] theorem every_name (label : Label) : (name label).Every p ↔ p (.exp (.name label)) := by
  simp [Every, nodes]

@[simp] theorem every_temp (temp : Temp) : (Exp.temp temp).Every p ↔ p (.exp (.temp temp)) := by
  simp [Every, nodes]

@[simp] theorem every_binop (op : Arithmetic) (left right : Exp) :
    (binop op left right).Every p ↔
      p (.exp (.binop op left right)) ∧ left.Every p ∧ right.Every p := by
  simp only [Every, nodes, List.forall_mem_cons, List.forall_mem_append]

@[simp] theorem every_mem (address : Exp) :
    (mem address).Every p ↔ p (.exp (.mem address)) ∧ address.Every p := by
  simp only [Every, nodes, List.forall_mem_cons]

@[simp] theorem every_call (function : Label) (args : List Exp) :
    (call function args).Every p ↔ p (.exp (.call function args)) ∧ EveryInAll p args := by
  simp only [Every, EveryInAll, nodes, List.forall_mem_cons]

@[simp] theorem every_eseq (effect : Stm) (value : Exp) :
    (eseq effect value).Every p ↔
      p (.exp (.eseq effect value)) ∧ effect.Every p ∧ value.Every p := by
  simp only [Every, Stm.Every, nodes, List.forall_mem_cons, List.forall_mem_append]

@[simp] theorem everyInAll_nil : EveryInAll p [] := by simp [EveryInAll, nodesOfAll]

@[simp] theorem everyInAll_cons (first : Exp) (rest : List Exp) :
    EveryInAll p (first :: rest) ↔ first.Every p ∧ EveryInAll p rest := by
  simp only [EveryInAll, Every, nodesOfAll, List.forall_mem_append]

theorem everyInAll_iff (exps : List Exp) : EveryInAll p exps ↔ ∀ exp ∈ exps, exp.Every p := by
  induction exps with
  | nil => simp
  | cons first rest ih => simp [ih]

end Exp

namespace Stm

@[simp] theorem every_nop : nop.Every p ↔ p (.stm .nop) := by simp [Every, nodes]

@[simp] theorem every_label (label : Label) :
    (Stm.label label).Every p ↔ p (.stm (.label label)) := by
  simp [Every, nodes]

@[simp] theorem every_jump (target : Label) : (jump target).Every p ↔ p (.stm (.jump target)) := by
  simp [Every, nodes]

@[simp] theorem every_exp (value : Exp) :
    (Stm.exp value).Every p ↔ p (.stm (.exp value)) ∧ value.Every p := by
  simp only [Every, Exp.Every, nodes, List.forall_mem_cons]

@[simp] theorem every_move (target source : Exp) :
    (move target source).Every p ↔
      p (.stm (.move target source)) ∧ target.Every p ∧ source.Every p := by
  simp only [Every, Exp.Every, nodes, List.forall_mem_cons, List.forall_mem_append]

@[simp] theorem every_cjump (relation : Relation) (left right : Exp) (ifTrue ifFalse : Label) :
    (cjump relation left right ifTrue ifFalse).Every p ↔
      p (.stm (.cjump relation left right ifTrue ifFalse)) ∧ left.Every p ∧ right.Every p := by
  simp only [Every, Exp.Every, nodes, List.forall_mem_cons, List.forall_mem_append]

@[simp] theorem every_cmove (relation : Relation) (left right target source : Exp) :
    (cmove relation left right target source).Every p ↔
      p (.stm (.cmove relation left right target source)) ∧
        ((left.Every p ∧ right.Every p) ∧ target.Every p) ∧ source.Every p := by
  simp only [Every, Exp.Every, nodes, List.forall_mem_cons, List.forall_mem_append]

@[simp] theorem every_seq (first second : Stm) :
    (seq first second).Every p ↔
      p (.stm (.seq first second)) ∧ first.Every p ∧ second.Every p := by
  simp only [Every, nodes, List.forall_mem_cons, List.forall_mem_append]

theorem every_followedBy (atNop : p (.stm .nop))
    (atSeq : ∀ first second, p (.stm (.seq first second))) (first second : Stm) :
    (first.followedBy second).Every p ↔ first.Every p ∧ second.Every p := by
  rcases followedBy_cases first second with rfl | rfl | sequence
  · simp [every_nop, atNop]
  · simp [every_nop, atNop]
  · simp [sequence, every_seq, atSeq]

theorem every_block (atNop : p (.stm .nop))
    (atSeq : ∀ first second, p (.stm (.seq first second))) (statements : List Stm) :
    (block statements).Every p ↔ ∀ statement ∈ statements, statement.Every p := by
  induction statements with
  | nil => simp [every_nop, atNop]
  | cons first rest ih => simp [every_followedBy atNop atSeq, ih]

end Stm

end Every

end TreeCompiler.Code
