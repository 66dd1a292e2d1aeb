import TreeCompiler.Lower.Expr
import TreeCompiler.Proofs.CodeNodes

set_option autoImplicit false

namespace TreeCompiler.Code

def Node.temp? : Node → Option Temp
  | .exp (.temp temp) => some temp
  | _ => none

def Node.assigned? : Node → Option Temp
  | .stm (.move (.temp temp) _) => some temp
  | .stm (.cmove _ _ _ (.temp temp) _) => some temp
  | _ => none

def Exp.temps (exp : Exp) : List Temp := exp.nodes.filterMap Node.temp?

def Stm.temps (stm : Stm) : List Temp := stm.nodes.filterMap Node.temp?

def Exp.assigned (exp : Exp) : List Temp := exp.nodes.filterMap Node.assigned?

def Stm.assigned (stm : Stm) : List Temp := stm.nodes.filterMap Node.assigned?

def Exp.Apart (one other : Exp) : Prop :=
  (∀ temp ∈ one.assigned, temp ∉ other.temps) ∧ ∀ temp ∈ other.assigned, temp ∉ one.temps

def Exp.TargetBeside (sources : List Exp) (target : Exp) : Prop :=
  ∃ temp, target = .temp temp ∧ ∀ source ∈ sources, temp ∉ source.temps

/--
The operands of a node leave each other's temporaries alone, and a move writes to a temporary that
its operands do not look at. So the operands may be evaluated in any order.
-/
def Node.Independent : Node → Prop
  | .exp (.binop _ left right) => [left, right].Pairwise Exp.Apart
  | .exp (.call _ args) => args.Pairwise Exp.Apart
  | .stm (.cjump _ left right _ _) => [left, right].Pairwise Exp.Apart
  | .stm (.move target source) =>
      [target, source].Pairwise Exp.Apart ∧ target.TargetBeside [source]
  | .stm (.cmove _ left right target source) =>
      [left, right, target, source].Pairwise Exp.Apart ∧
        target.TargetBeside [left, right, source]
  | _ => True

@[simp] theorem Exp.temps_const (value : Int64) : (Exp.const value).temps = [] := rfl

@[simp] theorem Exp.assigned_const (value : Int64) : (Exp.const value).assigned = [] := rfl

@[simp] theorem Exp.temps_temp (temp : Temp) : (Exp.temp temp).temps = [temp] := rfl

@[simp] theorem Exp.assigned_temp (temp : Temp) : (Exp.temp temp).assigned = [] := rfl

@[simp] theorem Exp.apart_const (exp : Exp) (value : Int64) : exp.Apart (.const value) := by
  simp [Exp.Apart]

@[simp] theorem Exp.const_apart (value : Int64) (exp : Exp) : Exp.Apart (.const value) exp := by
  simp [Exp.Apart]

@[simp] theorem Exp.apart_temp (exp : Exp) (temp : Temp) :
    exp.Apart (.temp temp) ↔ temp ∉ exp.assigned := by
  simp only [Exp.Apart, Exp.temps_temp, Exp.assigned_temp, List.mem_singleton]
  grind

@[simp] theorem Exp.temp_apart (temp : Temp) (exp : Exp) :
    Exp.Apart (.temp temp) exp ↔ temp ∉ exp.assigned := by
  simp only [Exp.Apart, Exp.temps_temp, Exp.assigned_temp, List.mem_singleton]
  grind

@[simp] theorem Exp.targetBeside_temp (sources : List Exp) (temp : Temp) :
    Exp.TargetBeside sources (.temp temp) ↔ ∀ source ∈ sources, temp ∉ source.temps := by
  simp [Exp.TargetBeside]

def Within (low high : Nat) (temp : Temp) : Prop := low ≤ temp.index ∧ temp.index < high

def KnownUpTo (known : Temp → Prop) (low high : Nat) (temp : Temp) : Prop :=
  known temp ∨ Within low high temp

def Node.Confined (known : Temp → Prop) (low high : Nat) (node : Node) : Prop :=
  (∀ temp ∈ node.temp?, known temp ∨ Within low high temp) ∧
    (∀ temp ∈ node.assigned?, Within low high temp) ∧ node.Independent

def Confined (known : Temp → Prop) (low high : Nat) (nodes : List Node) : Prop :=
  ∀ node ∈ nodes, node.Confined known low high

namespace Confined

variable {known : Temp → Prop} {low middle high : Nat} {nodes : List Node} {temp : Temp}

theorem looks (confined : Confined known low high nodes)
    (occurs : temp ∈ nodes.filterMap Node.temp?) : known temp ∨ Within low high temp := by
  obtain ⟨node, member, found⟩ := List.mem_filterMap.mp occurs
  exact (confined node member).1 temp found

theorem writes (confined : Confined known low high nodes)
    (assigned : temp ∈ nodes.filterMap Node.assigned?) : Within low high temp := by
  obtain ⟨node, member, found⟩ := List.mem_filterMap.mp assigned
  exact (confined node member).2.1 temp found

theorem clear (confined : Confined known low high nodes) (unknown : ¬known temp)
    (outside : ¬Within low high temp) :
    temp ∉ nodes.filterMap Node.temp? ∧ temp ∉ nodes.filterMap Node.assigned? :=
  ⟨fun occurs => (confined.looks occurs).elim unknown outside,
    fun assigned => outside (confined.writes assigned)⟩

theorem independent (confined : Confined known low high nodes) :
    ∀ node ∈ nodes, node.Independent :=
  fun node member => (confined node member).2.2

theorem mono {others : Temp → Prop} {lower higher : Nat}
    (confined : Confined known low high nodes)
    (stillKnown : ∀ temp, known temp → others temp ∨ Within lower higher temp)
    (atLow : lower ≤ low) (atHigh : high ≤ higher) : Confined others lower higher nodes := by
  intro node member
  obtain ⟨looks, writes, independent⟩ := confined node member
  have wider (temp : Temp) (within : Within low high temp) : Within lower higher temp := by
    simp only [Within] at *
    omega
  exact ⟨fun temp found => (looks temp found).elim (stillKnown temp) fun within =>
      .inr (wider temp within),
    fun temp found => wider temp (writes temp found), independent⟩

theorem widen {lower higher : Nat} (confined : Confined known low high nodes)
    (atLow : lower ≤ low) (atHigh : high ≤ higher) : Confined known lower higher nodes :=
  confined.mono (fun _ => .inl) atLow atHigh

-- An empty range may stand anywhere.
theorem moved (confined : Confined known low low nodes) (place : Nat) :
    Confined known place place nodes := by
  intro node member
  obtain ⟨looks, writes, independent⟩ := confined node member
  have nowhere (temp : Temp) : ¬Within low low temp := by
    simp only [Within]
    omega
  exact ⟨fun temp found => .inl ((looks temp found).resolve_right (nowhere temp)),
    fun temp found => absurd (writes temp found) (nowhere temp), independent⟩

-- The range just below, known already, counts as part of a larger range.
theorem absorb (confined : Confined (KnownUpTo known low middle) middle high nodes)
    (atLow : low ≤ middle) (atMiddle : middle ≤ high) : Confined known low high nodes := by
  apply confined.mono _ atLow (Nat.le_refl high)
  intro temp isKnown
  refine isKnown.imp_right fun within => ?_
  simp only [Within] at *
  omega

end Confined

def AllBelow (known : Temp → Prop) (bound : Nat) : Prop := ∀ temp, known temp → temp.index < bound

theorem AllBelow.raise {known : Temp → Prop} {bound higher : Nat} (below : AllBelow known bound)
    (atBound : bound ≤ higher) : AllBelow known higher :=
  fun temp isKnown => Nat.lt_of_lt_of_le (below temp isKnown) atBound

theorem AllBelow.not_known {known : Temp → Prop} {bound : Nat} (below : AllBelow known bound)
    {temp : Temp} (above : bound ≤ temp.index) : ¬known temp :=
  fun isKnown => Nat.not_lt.mpr above (below temp isKnown)

theorem KnownUpTo.raise {known : Temp → Prop} {low high higher : Nat} {temp : Temp}
    (isKnown : KnownUpTo known low high temp) (atHigh : high ≤ higher) :
    KnownUpTo known low higher temp :=
  isKnown.imp_right fun within => ⟨within.1, Nat.lt_of_lt_of_le within.2 atHigh⟩

theorem AllBelow.upTo {known : Temp → Prop} {low high : Nat} (below : AllBelow known low)
    (atLow : low ≤ high) : AllBelow (KnownUpTo known low high) high
  | temp, .inl isKnown => Nat.lt_of_lt_of_le (below temp isKnown) atLow
  | _, .inr within => within.2

def Stm.Confined (known : Temp → Prop) (low high : Nat) (stm : Stm) : Prop :=
  Code.Confined known low high stm.nodes

namespace Exp

variable {known : Temp → Prop} {low middle later high : Nat} {exp left right : Exp}

def Confined (known : Temp → Prop) (low high : Nat) (exp : Exp) : Prop :=
  Code.Confined known low high exp.nodes

theorem confined_iff : exp.Confined known low high ↔ exp.Every (Node.Confined known low high) :=
  Iff.rfl

def AllConfined (known : Temp → Prop) (low high : Nat) (exps : List Exp) : Prop :=
  (∀ exp ∈ exps, exp.Confined known low high) ∧ exps.Pairwise Apart

section Parts

-- What is known lies below the ranges, which do not meet.
variable (below : AllBelow known low)

include below

theorem Confined.apart (first : left.Confined known low middle)
    (second : right.Confined known middle high) (atLow : low ≤ middle) : left.Apart right := by
  constructor
  · intro temp assigned
    have written := first.writes assigned
    refine (second.clear (below.not_known written.1) ?_).1
    simp only [Within] at *
    omega
  · intro temp assigned
    have written := second.writes assigned
    refine (first.clear (below.not_known (Nat.le_trans atLow written.1)) ?_).1
    simp only [Within] at *
    omega

theorem Confined.binop (first : left.Confined known low middle)
    (second : right.Confined known middle high) (atLow : low ≤ middle) (atMiddle : middle ≤ high)
    (op : Arithmetic) : (Exp.binop op left right).Confined known low high := by
  have apart := first.apart below second atLow
  have leftConfined := first.widen (Nat.le_refl low) atMiddle
  have rightConfined := second.widen atLow (Nat.le_refl high)
  refine (every_binop op left right).mpr ⟨?_, leftConfined, rightConfined⟩
  simp [Node.Confined, Node.temp?, Node.assigned?, Node.Independent, apart]

theorem Confined.comparison (first : left.Confined known low middle)
    (second : right.Confined known middle high) (atLow : low ≤ middle)
    (atMiddle : middle ≤ high) :
    (Exp.eseq (Lower.comparison left right ⟨high⟩) (.temp ⟨high⟩)).Confined known low
      (high + 1) := by
  have apart := first.apart below second atLow
  -- The result is written to the number after both ranges.
  have unknown : ¬known ⟨high⟩ := below.not_known (Nat.le_trans atLow atMiddle)
  have clearLeft : ⟨high⟩ ∉ left.temps ∧ ⟨high⟩ ∉ left.assigned :=
    first.clear unknown (by simp only [Within]; omega)
  have clearRight : ⟨high⟩ ∉ right.temps ∧ ⟨high⟩ ∉ right.assigned :=
    second.clear unknown (by simp only [Within]; omega)
  have own : Within low (high + 1) ⟨high⟩ := by simp only [Within]; omega
  have leftConfined : left.Confined known low (high + 1) :=
    first.widen (Nat.le_refl low) (Nat.le_succ_of_le atMiddle)
  have rightConfined : right.Confined known low (high + 1) := second.widen atLow (Nat.le_succ high)
  simp only [confined_iff, Lower.comparison, Stm.followedBy, every_eseq, Stm.every_seq,
    Stm.every_move, Stm.every_cmove] at leftConfined rightConfined ⊢
  simp [leftConfined, rightConfined, own, apart, clearLeft, clearRight, Node.Confined, Node.temp?,
    Node.assigned?, Node.Independent]

theorem Confined.conditional {guard thenExp elseExp : Exp}
    (guardConfined : guard.Confined known (low + 1) middle)
    (thenConfined : thenExp.Confined known middle later)
    (elseConfined : elseExp.Confined known later high) (atLow : low + 1 ≤ middle)
    (atMiddle : middle ≤ later) (atLater : later ≤ high) (joints : Lower.Joints) :
    (Exp.eseq
      (Lower.diamond joints
        (.cjump .equal guard (.const Lowered.truth) joints.thenLabel joints.elseLabel)
        thenExp elseExp ⟨low⟩)
      (.temp ⟨low⟩)).Confined known low high := by
  -- The result has the number before all three ranges.
  have unknown : ¬known ⟨low⟩ := below.not_known (Nat.le_refl low)
  have clearThen : ⟨low⟩ ∉ thenExp.temps ∧ ⟨low⟩ ∉ thenExp.assigned :=
    thenConfined.clear unknown (by simp only [Within]; omega)
  have clearElse : ⟨low⟩ ∉ elseExp.temps ∧ ⟨low⟩ ∉ elseExp.assigned :=
    elseConfined.clear unknown (by simp only [Within]; omega)
  have own : Within low high ⟨low⟩ := by simp only [Within]; omega
  have guardWide : guard.Confined known low high := guardConfined.widen (by omega) (by omega)
  have thenWide : thenExp.Confined known low high := thenConfined.widen (by omega) atLater
  have elseWide : elseExp.Confined known low high :=
    elseConfined.widen (by omega) (Nat.le_refl high)
  simp only [confined_iff, Lower.diamond, Stm.block_cons, Stm.block_nil, Stm.followedBy, every_eseq,
    Stm.every_seq, Stm.every_move, Stm.every_cjump] at guardWide thenWide elseWide ⊢
  simp [guardWide, thenWide, elseWide, own, clearThen, clearElse, Node.Confined, Node.temp?,
    Node.assigned?, Node.Independent]

theorem AllConfined.cons {first : Exp} {rest : List Exp}
    (firstConfined : first.Confined known low middle)
    (restConfined : AllConfined known middle high rest) (atLow : low ≤ middle)
    (atMiddle : middle ≤ high) : AllConfined known low high (first :: rest) := by
  obtain ⟨others, restApart⟩ := restConfined
  constructor
  · intro exp member
    rcases List.mem_cons.mp member with rfl | inRest
    · exact firstConfined.widen (Nat.le_refl low) atMiddle
    · exact (others exp inRest).widen atLow (Nat.le_refl high)
  · refine List.pairwise_cons.mpr ⟨fun exp inRest => ?_, restApart⟩
    exact firstConfined.apart below (others exp inRest) atLow

end Parts

theorem Confined.const (value : Int64) : (Exp.const value).Confined known low high := by
  simp [confined_iff, Node.Confined, Node.temp?, Node.assigned?, Node.Independent]

theorem AllConfined.nil : AllConfined known low high [] := ⟨nofun, .nil⟩

theorem Confined.call {args : List Exp} (confined : AllConfined known low high args)
    (function : Label) : (Exp.call function args).Confined known low high := by
  obtain ⟨each, apart⟩ := confined
  refine (every_call function args).mpr ⟨?_, (everyInAll_iff args).mpr each⟩
  simp [Node.Confined, Node.temp?, Node.assigned?, Node.Independent, apart]

end Exp

namespace Stm

@[simp] theorem temps_move_temp (temp : Temp) (source : Exp) :
    (move (.temp temp) source).temps = temp :: source.temps := by
  simp [temps, Exp.temps, nodes, Exp.nodes, List.filterMap_cons, Node.temp?]

@[simp] theorem assigned_move_temp (temp : Temp) (source : Exp) :
    (move (.temp temp) source).assigned = temp :: source.assigned := by
  simp [assigned, Exp.assigned, nodes, Exp.nodes, List.filterMap_cons, Node.assigned?]

@[simp] theorem temps_exp_call (function : Label) (arg : Exp) :
    (Stm.exp (.call function [arg])).temps = arg.temps := by
  simp [temps, Exp.temps, nodes, Exp.nodes, Exp.nodesOfAll, List.filterMap_cons, Node.temp?]

@[simp] theorem assigned_exp_call (function : Label) (arg : Exp) :
    (Stm.exp (.call function [arg])).assigned = arg.assigned := by
  simp [assigned, Exp.assigned, nodes, Exp.nodes, Exp.nodesOfAll, List.filterMap_cons,
    Node.assigned?]

@[simp] theorem temps_block (statements : List Stm) :
    (block statements).temps = statements.flatMap temps :=
  filterMap_nodes_block rfl (fun _ _ => rfl) statements

@[simp] theorem assigned_block (statements : List Stm) :
    (block statements).assigned = statements.flatMap assigned :=
  filterMap_nodes_block rfl (fun _ _ => rfl) statements

theorem independent_block {statements : List Stm}
    (independent : ∀ statement ∈ statements, statement.Every Node.Independent) :
    (block statements).Every Node.Independent :=
  (every_block trivial (fun _ _ => trivial) statements).mpr independent

theorem independent_move {temp : Temp} {source : Exp}
    (clear : temp ∉ source.temps ∧ temp ∉ source.assigned)
    (independent : source.Every Node.Independent) :
    (move (.temp temp) source).Every Node.Independent := by
  simp [Node.Independent, clear, independent]

theorem Confined.move {known : Temp → Prop} {low high : Nat} {source : Exp}
    (below : AllBelow known low) (confined : source.Confined known low high)
    (atLow : low ≤ high) : (move (.temp ⟨high⟩) source).Confined known low (high + 1) := by
  have clear : ⟨high⟩ ∉ source.temps ∧ ⟨high⟩ ∉ source.assigned :=
    confined.clear (below.not_known atLow) (by simp only [Within]; omega)
  have own : Within low (high + 1) ⟨high⟩ := by simp only [Within]; omega
  have sourceConfined : source.Confined known low (high + 1) :=
    confined.widen (Nat.le_refl low) (Nat.le_succ high)
  refine (every_move _ _).mpr ⟨?_, ?_, sourceConfined⟩
  · simp [Node.Confined, Node.temp?, Node.assigned?, Node.Independent, own, clear]
  · simp [Node.Confined, Node.temp?, Node.assigned?, Node.Independent, own]

end Stm

end TreeCompiler.Code
