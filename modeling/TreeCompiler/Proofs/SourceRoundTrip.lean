import TreeCompiler.Proofs.JsonShapes
import TreeCompiler.Source.Reader

set_option autoImplicit false

namespace TreeCompiler.Source

open Json (Value)
open Json.Reader
open Json.Value (Fits)

theorem Expr.jsonOfAll_eq (exprs : List Expr) : Expr.jsonOfAll exprs = exprs.map Expr.json := by
  induction exprs with
  | nil => rfl
  | cons first rest ih => rw [Expr.jsonOfAll, List.map_cons, ih]

namespace Read

variable {bound : Nat}

theorem offset_written (offset : UInt32) :
    Reads Read.offset (Value.number offset.toNat).chars offset := by
  have small := offset.toNat_lt
  have within : 0 ≤ (offset.toNat : Int) ∧ (offset.toNat : Int) ≤ 0xffffffff := by omega
  have unsigned : (offset.toNat : Int) < UInt64.size := by simp [UInt64.size]; omega
  refine Reads.bind (integer_written "u32" within (by omega) unsigned) ?_
  rw [Int.toNat_natCast, UInt32.ofNat_toNat]

theorem span_written (span : Span) (fits : Fits bound span.json) :
    Reads (Read.span bound) span.json.chars span := by
  have readsStart := offset_written span.start
  have readsStop := offset_written span.stop
  -- For each member: its name is that of a field, and the field has not been met before. The last
  -- equation says that no field is missing.
  exact .bind (record_written fits.succ
    (.cons rfl rfl readsStart <| .cons rfl rfl readsStop <| .nil _)) rfl

theorem type_written (type : Ty) : Reads Read.type (Value.string type.name).chars type := by
  cases type <;> exact choice_bare rfl rfl

theorem literal_written (value : Int64) :
    Reads literal (Value.number value.toInt).chars (.literal value) := by
  have low : -0x8000000000000000 ≤ value.toInt := value.le_toInt
  have high : value.toInt ≤ 0x7fffffffffffffff := value.toInt_le
  have unsigned : value.toInt < UInt64.size := by simp [UInt64.size]; omega
  refine Reads.bind (integer_written "i64" ⟨low, high⟩ low unsigned) ?_
  rw [Int64.ofInt_toInt]

theorem ident_written (name : String) : Reads ident (Value.string name).chars (.ident name) :=
  (name_written name).bind rfl

-- An expression takes one off the bound, and the payload of its kind still fits what is left.
theorem expr_of_kind {name : String} {payload : Value} {span : Span} (form : Expr)
    (fits : Fits bound (placed name payload span))
    (reads : ∀ inside, Fits inside payload →
      Reads (kind inside (expr inside)) (Value.object [(name, payload)]).chars form) :
    Reads (expr bound) (placed name payload span).chars (form.withSpan span) := by
  cases bound with
  | zero => cases fits -- No text is empty.
  | succ inside =>
      have kindFits : Fits inside (.object [(name, payload)]) := fits.below 0 rfl
      have readsKind := reads inside (kindFits.member 0 rfl)
      have readsSpan := span_written span (fits.below 1 rfl)
      exact .bind (record_written fits
        (.cons rfl rfl readsKind <| .cons rfl rfl readsSpan <| .nil _)) rfl

mutual

theorem expr_written : (tree : Expr) → {bound : Nat} → Fits bound tree.json →
    Reads (expr bound) tree.json.chars tree
  | .literal value _, _, fits =>
      expr_of_kind (.literal value) fits fun _ _ => choice_object rfl (literal_written value)
  | .ident name _, _, fits =>
      expr_of_kind (.ident name) fits fun _ _ => choice_object rfl (ident_written name)
  | .binary op left right _, _, fits => by
      refine expr_of_kind (.binary op left right) fits fun inside payloadFits => ?_
      have readsLeft := expr_written left (payloadFits.element (.head _))
      have readsRight := expr_written right (payloadFits.element (.tail _ (.head _)))
      cases op <;> exact choice_object rfl ((pair_written readsLeft readsRight).bind rfl)
  | .negation operand _, _, fits =>
      expr_of_kind (.negation operand) fits fun _ payloadFits =>
        choice_object rfl ((expr_written operand payloadFits).bind rfl)
  | .conditional guard thenBranch elseBranch _, _, fits => by
      refine expr_of_kind (.conditional guard thenBranch elseBranch) fits
        fun inside payloadFits => ?_
      have readsGuard := expr_written guard (payloadFits.member 0 rfl)
      have readsThen := expr_written thenBranch (payloadFits.member 1 rfl)
      have readsElse := expr_written elseBranch (payloadFits.member 2 rfl)
      exact choice_object rfl (.bind (record_written payloadFits.succ
        (.cons rfl rfl readsGuard <| .cons rfl rfl readsThen <|
          .cons rfl rfl readsElse <| .nil _)) rfl)
  | .call callee args _, _, fits => by
      rw [Expr.json, Expr.jsonOfAll_eq] at fits ⊢
      refine expr_of_kind (.call callee args) fits fun inside payloadFits => ?_
      have readsCallee := name_written callee
      have readsArgs := list_written (payloadFits.member 1 rfl) (exprs_written args)
      exact choice_object rfl (.bind (record_written payloadFits.succ
        (.cons rfl rfl readsCallee <| .cons rfl rfl readsArgs <| .nil _)) rfl)

theorem exprs_written : (trees : List Expr) → {bound : Nat} → ∀ tree ∈ trees,
    Fits bound tree.json → Reads (expr bound) tree.json.chars tree
  | [], _ => List.forall_mem_nil _
  | first :: rest, _ => List.forall_mem_cons.mpr ⟨expr_written first, exprs_written rest⟩

end

theorem assign_written (assign : Assign) (fits : Fits bound assign.json) :
    Reads (Read.assign bound) assign.json.chars assign := by
  have readsName := name_written assign.name
  have readsValue := expr_written assign.value (fits.member 1 rfl)
  have readsSpan := span_written assign.span (fits.member 2 rfl)
  exact .bind (record_written fits.succ
    (.cons rfl rfl readsName <| .cons rfl rfl readsValue <| .cons rfl rfl readsSpan <| .nil _)) rfl

theorem param_written (param : Param) (fits : Fits bound param.json) :
    Reads (Read.param bound) param.json.chars param := by
  have readsType := type_written param.type
  have readsName := name_written param.name
  have readsSpan := span_written param.span (fits.member 2 rfl)
  exact .bind (record_written fits.succ
    (.cons rfl rfl readsType <| .cons rfl rfl readsName <| .cons rfl rfl readsSpan <| .nil _)) rfl

theorem declaration_written (declaration : Declaration) (fits : Fits bound declaration.json) :
    Reads (Read.declaration bound) declaration.json.chars declaration := by
  have readsName := name_written declaration.name
  have readsType := type_written declaration.returnType
  have readsParams := list_written (fits.member 2 rfl) fun param _ => param_written param
  have readsBody := list_written (fits.member 3 rfl) fun assign _ => assign_written assign
  have readsResult := expr_written declaration.result (fits.member 4 rfl)
  have readsSpan := span_written declaration.span (fits.member 5 rfl)
  exact .bind (record_written fits.succ
    (.cons rfl rfl readsName <| .cons rfl rfl readsType <| .cons rfl rfl readsParams <|
      .cons rfl rfl readsBody <| .cons rfl rfl readsResult <| .cons rfl rfl readsSpan <| .nil _)) rfl

theorem stmt_written (stmt : Stmt) (fits : Fits bound stmt.json) :
    Reads (Read.stmt bound) stmt.json.chars stmt := by
  cases stmt with
  | assign assign => exact choice_object rfl ((assign_written assign (fits.member 0 rfl)).bind rfl)
  | declare declaration =>
      exact choice_object rfl ((declaration_written declaration (fits.member 0 rfl)).bind rfl)

theorem print_written (print : Print) (fits : Fits bound print.json) :
    Reads (Read.print bound) print.json.chars print := by
  have readsExp := expr_written print.exp (fits.member 0 rfl)
  have readsSpan := span_written print.span (fits.member 1 rfl)
  exact .bind (record_written fits.succ
    (.cons rfl rfl readsExp <| .cons rfl rfl readsSpan <| .nil _)) rfl

theorem program_written (program : Program) (fits : Fits bound program.json) :
    Reads (Read.program bound) program.json.chars program := by
  have readsStatements := list_written (fits.member 0 rfl) fun stmt _ => stmt_written stmt
  have readsPrint := print_written program.print (fits.member 1 rfl)
  have readsSpan := span_written program.span (fits.member 2 rfl)
  exact .bind (record_written fits.succ
    (.cons rfl rfl readsStatements <| .cons rfl rfl readsPrint <|
      .cons rfl rfl readsSpan <| .nil _)) rfl

end Read

theorem Program.ofChars_written (program : Program) :
    Program.ofChars program.json.chars = .ok program := by
  have fits : Fits program.json.chars.length program.json := Nat.le_refl _
  have read := Read.program_written program fits [] (by simp [EndsValue])
  rw [List.append_nil] at read
  rw [Program.ofChars, StateT.run', bind_of_ok read]
  rfl

theorem Program.parse_json_text (program : Program) :
    Program.parse program.json.text = .ok program := by
  rw [Program.parse, Value.text, String.toList_ofList, Program.ofChars_written]

end TreeCompiler.Source
