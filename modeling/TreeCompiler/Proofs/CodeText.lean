import Mathlib
import TreeCompiler.Code.Text
import TreeCompiler.Proofs.CodeNodes

set_option autoImplicit false

/-!
The text of a tree determines the tree. Each part of a text is a word without commas and brackets, or
again a text, and is followed by a comma, a closing bracket or the end. So two texts that agree have
parts of the same extent.
-/

namespace TreeCompiler.Code

def EndsPart (rest : List Char) : Prop := ∀ c ∈ rest.head?, c = ',' ∨ c = ')'

def PartsAgree (part part' : String) (fact : Prop) : Prop :=
  ∀ rest rest', EndsPart rest → EndsPart rest' →
    part.toList ++ rest = part'.toList ++ rest' → fact ∧ rest = rest'

def remaining (parts : List String) : String := String.join (parts.map (", " ++ ·)) ++ ")"

def RemainingAgree (parts parts' : List String) (fact : Prop) : Prop :=
  ∀ rest rest', (remaining parts).toList ++ rest = (remaining parts').toList ++ rest' →
    fact ∧ rest = rest'

theorem endsPart_remaining (parts : List String) (rest : List Char) :
    EndsPart ((remaining parts).toList ++ rest) := by
  cases parts <;> simp [EndsPart, remaining, String.join_cons]

theorem remaining_cons (first : String) (parts : List String) :
    remaining (first :: parts) = ", " ++ first ++ remaining parts := by
  simp [remaining, String.join_cons, String.append_assoc]

section Agreement

variable {part part' first first' : String} {parts parts' : List String} {fact fact' : Prop}

theorem PartsAgree.imp (agree : PartsAgree part part' fact) (implies : fact → fact') :
    PartsAgree part part' fact' := by
  intro rest rest' ends ends' same
  obtain ⟨holds, left⟩ := agree rest rest' ends ends' same
  exact ⟨implies holds, left⟩

theorem PartsAgree.after (agree : PartsAgree part part' fact) (keyword : String) :
    PartsAgree (keyword ++ part) (keyword ++ part') fact := by
  intro rest rest' ends ends' same
  simp only [String.toList_append, List.append_assoc] at same
  exact agree rest rest' ends ends' (List.append_cancel_left same)

theorem RemainingAgree.imp (agree : RemainingAgree parts parts' fact) (implies : fact → fact') :
    RemainingAgree parts parts' fact' := by
  intro rest rest' same
  obtain ⟨holds, left⟩ := agree rest rest' same
  exact ⟨implies holds, left⟩

theorem RemainingAgree.nil : RemainingAgree [] [] True := by
  intro rest rest' same
  exact ⟨trivial, List.append_cancel_left same⟩

theorem RemainingAgree.cons (firsts : PartsAgree first first' fact)
    (others : RemainingAgree parts parts' fact') :
    RemainingAgree (first :: parts) (first' :: parts') (fact ∧ fact') := by
  intro rest rest' same
  simp only [remaining_cons, String.toList_append, List.append_assoc] at same
  obtain ⟨holds, sameRest⟩ := firsts _ _ (endsPart_remaining parts rest)
    (endsPart_remaining parts' rest') (List.append_cancel_left same)
  obtain ⟨holds', left⟩ := others rest rest' sameRest
  exact ⟨⟨holds, holds'⟩, left⟩

-- Where one list of parts ends and the other does not, a bracket would have to be a comma.
theorem RemainingAgree.nil_cons : RemainingAgree [] (first :: parts) fact := by
  intro rest rest' same
  simp [remaining, String.join_cons] at same

theorem RemainingAgree.cons_nil : RemainingAgree (first :: parts) [] fact := by
  intro rest rest' same
  simp [remaining, String.join_cons] at same

theorem PartsAgree.enclosed (firsts : PartsAgree first first' fact) (keyword : String)
    (others : RemainingAgree parts parts' fact') :
    PartsAgree (enclosed keyword first parts) (enclosed keyword first' parts') (fact ∧ fact') := by
  intro rest rest' _ _ same
  have opened (first : String) (parts : List String) :
      Code.enclosed keyword first parts = keyword ++ "(" ++ (first ++ remaining parts) := by
    simp [Code.enclosed, remaining, String.append_assoc]
  simp only [opened, String.toList_append, List.append_assoc] at same
  replace same := List.append_cancel_left (List.append_cancel_left same)
  obtain ⟨holds, sameRest⟩ := firsts _ _ (endsPart_remaining parts rest)
    (endsPart_remaining parts' rest') same
  obtain ⟨holds', left⟩ := others rest rest' sameRest
  exact ⟨⟨holds, holds'⟩, left⟩

end Agreement

section Words

def Undivided (text : String) : Prop := ∀ c ∈ text.toList, c ≠ ',' ∧ c ≠ '(' ∧ c ≠ ')'

variable {word word' : String}

theorem Undivided.takeWhile {rest : List Char} (undivided : Undivided word) (ends : EndsPart rest) :
    (word.toList ++ rest).takeWhile (fun c => c ≠ ',' && c ≠ ')') = word.toList := by
  have nothing : rest.takeWhile (fun c => c ≠ ',' && c ≠ ')') = [] := by
    cases rest with
    | nil => rfl
    | cons c rest => rcases ends c rfl with rfl | rfl <;> rfl
  rw [List.takeWhile_append_of_pos, nothing, List.append_nil]
  intro c member
  simp [undivided c member]

theorem Undivided.agree (undivided : Undivided word) (undivided' : Undivided word') :
    PartsAgree word word' (word = word') := by
  intro rest rest' ends ends' same
  have sameWord : word = word' := by
    rw [← String.toList_inj, ← undivided.takeWhile ends, same, undivided'.takeWhile ends']
  subst sameWord
  exact ⟨rfl, List.append_cancel_left same⟩

theorem undivided_append (undivided : Undivided word) (undivided' : Undivided word') :
    Undivided (word ++ word') := by
  intro c member
  rw [String.toList_append, List.mem_append] at member
  exact member.elim (undivided c) (undivided' c)

theorem undivided_natural (n : Nat) : Undivided n.repr := by
  intro c member
  rw [Nat.toList_repr] at member
  have isDigit : c.isDigit = true := Nat.isDigit_of_mem_toDigits (by decide) (by decide) member
  refine ⟨?_, ?_, ?_⟩ <;> rintro rfl <;> cases isDigit

theorem undivided_integer (n : Int) : Undivided n.repr := by
  rw [Int.repr_eq_if]
  split
  next => exact undivided_natural _
  next => exact undivided_append (by simp [Undivided]) (undivided_natural _)

theorem agree_constant (value value' : Int64) :
    PartsAgree value.toInt.repr value'.toInt.repr (value = value') := by
  refine ((undivided_integer _).agree (undivided_integer _)).imp fun same => ?_
  exact Int64.toInt_inj.mp (Int.repr_inj.mp same)

theorem Temp.agree (temp temp' : Temp) : PartsAgree temp.text temp'.text (temp = temp') := by
  have sameDigits := (undivided_natural temp.index).agree (undivided_natural temp'.index)
  exact (sameDigits.after "t").imp fun same => congrArg Temp.mk (Nat.repr_inj.mp same)

theorem Arithmetic.agree (op op' : Arithmetic) : PartsAgree op.text op'.text (op = op') := by
  have undivided (op : Arithmetic) : Undivided op.text := by
    cases op <;> simp [Undivided, text]
  refine ((undivided op).agree (undivided op')).imp fun same => ?_
  cases op <;> cases op' <;> first | rfl | exact absurd same (by decide)

theorem Relation.agree (relation relation' : Relation) :
    PartsAgree relation.text relation'.text (relation = relation') := by
  have undivided (relation : Relation) : Undivided relation.text := by
    cases relation <;> simp [Undivided, text]
  refine ((undivided relation).agree (undivided relation')).imp fun same => ?_
  cases relation <;> cases relation' <;> first | rfl | exact absurd same (by decide)

theorem Label.agree {label label' : Label} (undivided : Undivided label.text)
    (undivided' : Undivided label'.text) : PartsAgree label.text label'.text (label = label') :=
  (undivided.agree undivided').imp (congrArg Label.mk)

end Words

section Keywords

def Exp.keyword : Exp → String
  | .const _ => "CONST"
  | .name _ => "NAME"
  | .temp _ => "TEMP"
  | .binop .. => "BINOP"
  | .mem _ => "MEM"
  | .call .. => "CALL"
  | .eseq .. => "ESEQ"

def Stm.keyword : Stm → String
  | .move .. => "MOVE"
  | .exp _ => "EXP"
  | .jump _ => "JUMP"
  | .cjump .. => "CJUMP"
  | .cmove .. => "CMOVE"
  | .seq .. => "SEQ"
  | .label _ => "LABEL"
  | .nop => "NOP"

theorem Exp.takeWhile_text (exp : Exp) (rest : List Char) :
    (exp.text.toList ++ rest).takeWhile Char.isUpper = exp.keyword.toList := by
  cases exp <;> simp only [text, keyword, enclosed, String.toList_append, List.append_assoc] <;> rfl

-- The only text that ends with its keyword is that of the empty statement.
theorem Stm.takeWhile_text (stm : Stm) {rest : List Char} (ends : EndsPart rest) :
    (stm.text.toList ++ rest).takeWhile Char.isUpper = stm.keyword.toList := by
  cases stm with
  | nop =>
      cases rest with
      | nil => rfl
      | cons c rest => rcases ends c rfl with rfl | rfl <;> rfl
  | _ =>
      simp only [text, keyword, enclosed, String.toList_append, List.append_assoc]
      rfl

variable {fact : Prop}

theorem Exp.agree_of_keyword {exp other : Exp} (differ : exp.keyword ≠ other.keyword) :
    PartsAgree exp.text other.text fact := by
  intro rest rest' _ _ same
  have capitals := congrArg (List.takeWhile Char.isUpper) same
  rw [exp.takeWhile_text, other.takeWhile_text, String.toList_inj] at capitals
  exact absurd capitals differ

theorem Stm.agree_of_keyword {stm other : Stm} (differ : stm.keyword ≠ other.keyword) :
    PartsAgree stm.text other.text fact := by
  intro rest rest' ends ends' same
  have capitals := congrArg (List.takeWhile Char.isUpper) same
  rw [stm.takeWhile_text ends, other.takeWhile_text ends', String.toList_inj] at capitals
  exact absurd capitals differ

end Keywords

def Node.labels : Node → List Label
  | .exp (.name label) => [label]
  | .exp (.call function _) => [function]
  | .stm (.jump target) => [target]
  | .stm (.cjump _ _ _ ifTrue ifFalse) => [ifTrue, ifFalse]
  | .stm (.label label) => [label]
  | _ => []

def Node.Legible (node : Node) : Prop := ∀ label ∈ node.labels, Undivided label.text

theorem Node.Legible.label {node : Node} {label : Label} (legible : node.Legible)
    (named : label ∈ node.labels) : Undivided label.text := legible label named

mutual

theorem Exp.agree : (exp other : Exp) → exp.Every Node.Legible → other.Every Node.Legible →
    PartsAgree exp.text other.text (exp = other)
  | .const value, other, _, _ => by
      cases other with
      | const value' =>
          have parts := (agree_constant value value').after "CONST "
          exact parts.imp fun same => by rw [same]
      | _ => exact Exp.agree_of_keyword (by simp [Exp.keyword])
  | .name label, other, legible, legible' => by
      cases other with
      | name label' =>
          rw [Exp.every_name] at legible legible'
          have labels := Label.agree (legible.label (.head _)) (legible'.label (.head _))
          exact (labels.after "NAME ").imp fun same => by rw [same]
      | _ => exact Exp.agree_of_keyword (by simp [Exp.keyword])
  | .temp temp, other, _, _ => by
      cases other with
      | temp temp' => exact ((temp.agree temp').after "TEMP ").imp fun same => by rw [same]
      | _ => exact Exp.agree_of_keyword (by simp [Exp.keyword])
  | .binop op left right, other, legible, legible' => by
      cases other with
      | binop op' left' right' =>
          rw [Exp.every_binop] at legible legible'
          have lefts := left.agree left' legible.2.1 legible'.2.1
          have rights := right.agree right' legible.2.2 legible'.2.2
          have parts := (op.agree op').enclosed "BINOP" (.cons lefts (.cons rights .nil))
          exact parts.imp fun same => by simp [same]
      | _ => exact Exp.agree_of_keyword (by simp [Exp.keyword])
  | .mem address, other, legible, legible' => by
      cases other with
      | mem address' =>
          rw [Exp.every_mem] at legible legible'
          have parts := (address.agree address' legible.2 legible'.2).enclosed "MEM" .nil
          exact parts.imp fun same => by simp [same]
      | _ => exact Exp.agree_of_keyword (by simp [Exp.keyword])
  | .call function args, other, legible, legible' => by
      cases other with
      | call function' args' =>
          rw [Exp.every_call] at legible legible'
          have functions := Label.agree (legible.1.label (.head _)) (legible'.1.label (.head _))
          have parts := functions.enclosed "CALL" (Exp.agreeAll args args' legible.2 legible'.2)
          exact parts.imp fun same => by simp [same]
      | _ => exact Exp.agree_of_keyword (by simp [Exp.keyword])
  | .eseq effect value, other, legible, legible' => by
      cases other with
      | eseq effect' value' =>
          rw [Exp.every_eseq] at legible legible'
          have effects := effect.agree effect' legible.2.1 legible'.2.1
          have values := value.agree value' legible.2.2 legible'.2.2
          have parts := effects.enclosed "ESEQ" (.cons values .nil)
          exact parts.imp fun same => by simp [same]
      | _ => exact Exp.agree_of_keyword (by simp [Exp.keyword])

theorem Exp.agreeAll : (exps others : List Exp) → Exp.EveryInAll Node.Legible exps →
    Exp.EveryInAll Node.Legible others →
    RemainingAgree (Exp.textsOfAll exps) (Exp.textsOfAll others) (exps = others)
  | [], [], _, _ => RemainingAgree.nil.imp fun _ => rfl
  | [], _ :: _, _, _ => .nil_cons
  | _ :: _, [], _, _ => .cons_nil
  | first :: rest, first' :: rest', legible, legible' => by
      rw [Exp.everyInAll_cons] at legible legible'
      have firsts := first.agree first' legible.1 legible'.1
      have others := Exp.agreeAll rest rest' legible.2 legible'.2
      exact (RemainingAgree.cons firsts others).imp fun same => by rw [same.1, same.2]

theorem Stm.agree : (stm other : Stm) → stm.Every Node.Legible → other.Every Node.Legible →
    PartsAgree stm.text other.text (stm = other)
  | .move target source, other, legible, legible' => by
      cases other with
      | move target' source' =>
          rw [Stm.every_move] at legible legible'
          have targets := target.agree target' legible.2.1 legible'.2.1
          have sources := source.agree source' legible.2.2 legible'.2.2
          have parts := targets.enclosed "MOVE" (.cons sources .nil)
          exact parts.imp fun same => by simp [same]
      | _ => exact Stm.agree_of_keyword (by simp [Stm.keyword])
  | .exp value, other, legible, legible' => by
      cases other with
      | exp value' =>
          rw [Stm.every_exp] at legible legible'
          have parts := (value.agree value' legible.2 legible'.2).enclosed "EXP" .nil
          exact parts.imp fun same => by simp [same]
      | _ => exact Stm.agree_of_keyword (by simp [Stm.keyword])
  | .jump target, other, legible, legible' => by
      cases other with
      | jump target' =>
          rw [Stm.every_jump] at legible legible'
          have targets := Label.agree (legible.label (.head _)) (legible'.label (.head _))
          exact (targets.after "JUMP ").imp fun same => by rw [same]
      | _ => exact Stm.agree_of_keyword (by simp [Stm.keyword])
  | .cjump relation left right ifTrue ifFalse, other, legible, legible' => by
      cases other with
      | cjump relation' left' right' ifTrue' ifFalse' =>
          rw [Stm.every_cjump] at legible legible'
          have lefts := left.agree left' legible.2.1 legible'.2.1
          have rights := right.agree right' legible.2.2 legible'.2.2
          have trues := Label.agree (legible.1.label (.head _)) (legible'.1.label (.head _))
          have falses := Label.agree (legible.1.label (.tail _ (.head _)))
            (legible'.1.label (.tail _ (.head _)))
          have parts := (relation.agree relation').enclosed "CJUMP"
            (.cons lefts (.cons rights (.cons trues (.cons falses .nil))))
          exact parts.imp fun same => by simp [same]
      | _ => exact Stm.agree_of_keyword (by simp [Stm.keyword])
  | .cmove relation left right target source, other, legible, legible' => by
      cases other with
      | cmove relation' left' right' target' source' =>
          rw [Stm.every_cmove] at legible legible'
          have lefts := left.agree left' legible.2.1.1.1 legible'.2.1.1.1
          have rights := right.agree right' legible.2.1.1.2 legible'.2.1.1.2
          have targets := target.agree target' legible.2.1.2 legible'.2.1.2
          have sources := source.agree source' legible.2.2 legible'.2.2
          have parts := (relation.agree relation').enclosed "CMOVE"
            (.cons lefts (.cons rights (.cons targets (.cons sources .nil))))
          exact parts.imp fun same => by simp [same]
      | _ => exact Stm.agree_of_keyword (by simp [Stm.keyword])
  | .seq first second, other, legible, legible' => by
      cases other with
      | seq first' second' =>
          rw [Stm.every_seq] at legible legible'
          have firsts := first.agree first' legible.2.1 legible'.2.1
          have seconds := second.agree second' legible.2.2 legible'.2.2
          have parts := firsts.enclosed "SEQ" (.cons seconds .nil)
          exact parts.imp fun same => by simp [same]
      | _ => exact Stm.agree_of_keyword (by simp [Stm.keyword])
  | .label label, other, legible, legible' => by
      cases other with
      | label label' =>
          rw [Stm.every_label] at legible legible'
          have labels := Label.agree (legible.label (.head _)) (legible'.label (.head _))
          exact (labels.after "LABEL ").imp fun same => by rw [same]
      | _ => exact Stm.agree_of_keyword (by simp [Stm.keyword])
  | .nop, other, _, _ => by
      cases other with
      | nop => exact fun _ _ _ _ same => ⟨rfl, List.append_cancel_left same⟩
      | _ => exact Stm.agree_of_keyword (by simp [Stm.keyword])

end

theorem PartsAgree.of_eq {text text' : String} {fact : Prop} (agree : PartsAgree text text' fact)
    (same : text = text') : fact :=
  (agree [] [] (by simp [EndsPart]) (by simp [EndsPart]) (by rw [same])).1

theorem text_unambiguous :
    (∀ exp other : Exp, exp.Every Node.Legible → other.Every Node.Legible →
      (exp.text = other.text ↔ exp = other)) ∧
    ∀ stm other : Stm, stm.Every Node.Legible → other.Every Node.Legible →
      (stm.text = other.text ↔ stm = other) := by
  constructor
  · intro exp other legible legible'
    exact ⟨(exp.agree other legible legible').of_eq, congrArg Exp.text⟩
  · intro stm other legible legible'
    exact ⟨(stm.agree other legible legible').of_eq, congrArg Stm.text⟩

def outerConstant : Exp := .call ⟨"fn.f"⟩ [.call ⟨"fn.g"⟩ [], .const (-1)]

def innerConstant : Exp := .call ⟨"fn.f"⟩ [.call ⟨"fn.g"⟩ [.const (-1)]]

theorem text_unambiguous_constants :
    (outerConstant.Every Node.Legible ∧ innerConstant.Every Node.Legible ∧
      outerConstant.text ≠ innerConstant.text) ∧
    (Stm.seq .nop (.seq .nop .nop)).Every Node.Legible ∧
      (Stm.seq .nop (.seq .nop .nop)).text ≠ (Stm.seq (.seq .nop .nop) .nop).text := by
  have outer : outerConstant.Every Node.Legible := by
    simp [outerConstant, Node.Legible, Node.labels, Undivided]
  have inner : innerConstant.Every Node.Legible := by
    simp [innerConstant, Node.Legible, Node.labels, Undivided]
  have right : (Stm.seq .nop (.seq .nop .nop)).Every Node.Legible := by
    simp [Node.Legible, Node.labels]
  have left : (Stm.seq (.seq .nop .nop) .nop).Every Node.Legible := by
    simp [Node.Legible, Node.labels]
  refine ⟨⟨outer, inner, ?_⟩, right, ?_⟩
  · rw [ne_eq, text_unambiguous.1 _ _ outer inner]
    simp [outerConstant, innerConstant]
  · rw [ne_eq, text_unambiguous.2 _ _ right left]
    simp

end TreeCompiler.Code
