import TreeCompiler.Proofs.SourceRoundTrip

set_option autoImplicit false

/-!
The texts that spell a source tree. The members of each record stand in any order, members of other names
may stand among them, and each place may be left out. Whatever the choices, the text is read as the tree,
with the places that were left out at zero.
-/

namespace TreeCompiler.Source

open Json (Reader Value listChars objectChars)
open Json.Reader
open Json.Value (stringChars)

def Span.Spelled (span : Span) : List Char → Prop :=
  Loosely ["start", "end"]
    [("start", (Value.number span.start.toNat).chars), ("end", (Value.number span.stop.toNat).chars)]

/-- The member for the place of a node, if there is one, and the place that a reader takes from it. -/
inductive Span.Member (span : Span) : List (String × List Char) → Span → Prop
  | written {text : List Char} (spelled : span.Spelled text) : Member span [("span", text)] span
  | omitted : Member span [] { start := 0, stop := 0 }

def SpelledRecord (listed : List (String × List Char)) (span : Span) (text : List Char)
    (kept : Span) : Prop :=
  ∃ place, span.Member place kept ∧ Loosely (listed.map (·.1) ++ ["span"]) (listed ++ place) text

inductive SpelledEach {α : Type} (Spelled : α → List Char → α → Prop) :
    List α → List (List Char) → List α → Prop
  | nil : SpelledEach Spelled [] [] []
  | cons {tree read : α} {text : List Char} {trees reads : List α} {texts : List (List Char)}
      (first : Spelled tree text read) (rest : SpelledEach Spelled trees texts reads) :
      SpelledEach Spelled (tree :: trees) (text :: texts) (read :: reads)

def SpelledKind (kind : String) (payload : List Char) : Span → List Char → Span → Prop :=
  SpelledRecord [("kind", objectChars [(kind, payload)])]

inductive Expr.Spelled : Expr → List Char → Expr → Prop
  | literal {value : Int64} {span kept : Span} {text : List Char}
      (kind : SpelledKind "IntegerLiteral" (Value.number value.toInt).chars span text kept) :
      Spelled (.literal value span) text (.literal value kept)
  | ident {name : String} {span kept : Span} {text : List Char}
      (kind : SpelledKind "Identifier" (stringChars name) span text kept) :
      Spelled (.ident name span) text (.ident name kept)
  | binary {op : BinaryOp} {left right left' right' : Expr} {span kept : Span}
      {leftText rightText text : List Char} (spelledLeft : Spelled left leftText left')
      (spelledRight : Spelled right rightText right')
      (kind : SpelledKind op.name (listChars [leftText, rightText]) span text kept) :
      Spelled (.binary op left right span) text (.binary op left' right' kept)
  | negation {operand operand' : Expr} {span kept : Span} {operandText text : List Char}
      (spelledOperand : Spelled operand operandText operand')
      (kind : SpelledKind "Not" operandText span text kept) :
      Spelled (.negation operand span) text (.negation operand' kept)
  | conditional {guard thenBranch elseBranch guard' thenBranch' elseBranch' : Expr}
      {span kept : Span} {guardText thenText elseText payload text : List Char}
      (spelledGuard : Spelled guard guardText guard')
      (spelledThen : Spelled thenBranch thenText thenBranch')
      (spelledElse : Spelled elseBranch elseText elseBranch')
      (spelledPayload : Loosely ["cond", "then_branch", "else_branch"]
        [("cond", guardText), ("then_branch", thenText), ("else_branch", elseText)] payload)
      (kind : SpelledKind "Conditional" payload span text kept) :
      Spelled (.conditional guard thenBranch elseBranch span) text
        (.conditional guard' thenBranch' elseBranch' kept)
  | call {callee : String} {args args' : List Expr} {span kept : Span} {texts : List (List Char)}
      {payload text : List Char} (spelledArgs : SpelledEach Spelled args texts args')
      (spelledPayload : Loosely ["callee", "args"]
        [("callee", stringChars callee), ("args", listChars texts)] payload)
      (kind : SpelledKind "Call" payload span text kept) :
      Spelled (.call callee args span) text (.call callee args' kept)

inductive Assign.Spelled (assign : Assign) : List Char → Assign → Prop
  | intro {value' : Expr} {kept : Span} {valueText text : List Char}
      (spelledValue : assign.value.Spelled valueText value')
      (record : SpelledRecord [("name", stringChars assign.name), ("value", valueText)] assign.span
        text kept) :
      Spelled assign text { name := assign.name, value := value', span := kept }

inductive Param.Spelled (param : Param) : List Char → Param → Prop
  | intro {kept : Span} {text : List Char}
      (record : SpelledRecord
        [("ty", stringChars param.type.name), ("name", stringChars param.name)] param.span text kept) :
      Spelled param text { param with span := kept }

inductive Declaration.Spelled (declaration : Declaration) : List Char → Declaration → Prop
  | intro {params' : List Param} {body' : List Assign} {result' : Expr} {kept : Span}
      {paramTexts bodyTexts : List (List Char)} {resultText text : List Char}
      (spelledParams : SpelledEach Param.Spelled declaration.params paramTexts params')
      (spelledBody : SpelledEach Assign.Spelled declaration.body bodyTexts body')
      (spelledResult : declaration.result.Spelled resultText result')
      (record : SpelledRecord
        [("name", stringChars declaration.name),
          ("return_type", stringChars declaration.returnType.name),
          ("params", listChars paramTexts),
          ("body", listChars bodyTexts),
          ("return_expr", resultText)] declaration.span text kept) :
      Spelled declaration text
        { declaration with params := params', body := body', result := result', span := kept }

inductive Stmt.Spelled : Stmt → List Char → Stmt → Prop
  | assign {assign assign' : Assign} {text : List Char} (spelled : assign.Spelled text assign') :
      Spelled (.assign assign) (objectChars [("Assign", text)]) (.assign assign')
  | declare {declaration declaration' : Declaration} {text : List Char}
      (spelled : declaration.Spelled text declaration') :
      Spelled (.declare declaration) (objectChars [("Function", text)]) (.declare declaration')

inductive Print.Spelled (print : Print) : List Char → Print → Prop
  | intro {exp' : Expr} {kept : Span} {expText text : List Char}
      (spelledExp : print.exp.Spelled expText exp')
      (record : SpelledRecord [("exp", expText)] print.span text kept) :
      Spelled print text { exp := exp', span := kept }

inductive Program.Spelled (program : Program) : List Char → Program → Prop
  | intro {statements' : List Stmt} {print' : Print} {kept : Span} {texts : List (List Char)}
      {printText text : List Char}
      (spelledStatements : SpelledEach Stmt.Spelled program.statements texts statements')
      (spelledPrint : program.print.Spelled printText print')
      (record : SpelledRecord [("statements", listChars texts), ("print", printText)] program.span
        text kept) :
      Spelled program text { statements := statements', print := print', span := kept }

section Lengths

variable {listed : List (String × List Char)} {span kept : Span} {text value : List Char}
  {name : String}

theorem SpelledRecord.startsValue (spelled : SpelledRecord listed span text kept) :
    StartsValue text := by
  obtain ⟨_, _, loosely⟩ := spelled
  exact loosely.startsValue

theorem SpelledRecord.value_lt (spelled : SpelledRecord listed span text kept) (index : Nat)
    (found : listed[index]? = some (name, value)) : value.length + 1 < text.length := by
  obtain ⟨place, _, loosely⟩ := spelled
  refine loosely.value_lt index (?_ : (listed ++ place)[index]? = some (name, value))
  rw [List.getElem?_append_left (List.getElem?_eq_some_iff.mp found).1, found]

theorem SpelledRecord.fits {bound : Nat} (spelled : SpelledRecord listed span text kept)
    (fits : text.length ≤ bound) (index : Nat) (found : listed[index]? = some (name, value)) :
    value.length ≤ bound :=
  Nat.le_trans (Nat.le_of_succ_le (Nat.le_of_lt (spelled.value_lt index found))) fits

end Lengths

namespace Read

variable {bound : Nat} {text : List Char}

theorem span_spelled {span : Span} (spelled : span.Spelled text) (fits : text.length ≤ bound) :
    Reads (Read.span bound) text span := by
  have readsStart := offset_written span.start
  have readsStop := offset_written span.stop
  refine .bind (record_loosely ?_ spelled (Nat.le_succ_of_le fits)
    (.cons (.known rfl rfl readsStart) <| .cons (.known rfl rfl readsStop) <| .nil _)) rfl
  constructor <;> simp [RecordField.apart_iff]

section Records

variable {σ β : Type} {fields : List (RecordField σ)} {listed : List (String × List Char)}
  {span kept : Span} {store : Span → σ → σ} {isPresent : σ → Bool} {blank parts : σ}
  {next : σ → Reader β} {result : β}

-- For a node's record: what is made of the parts with its place, and what without it. The last two
-- hypotheses are equations that hold by computation.
theorem record_spelled {title : String}
    (spelled : SpelledRecord listed span text kept) (fits : text.length ≤ bound + 1)
    (lawful : Lawful fields) (names : fields.map (·.key) = listed.map (·.1) ++ ["span"])
    (found : fields.find? (·.key = "span") = some (spanField bound store isPresent))
    (collects : Collects fields listed blank parts) (absent : isPresent parts = false)
    (returns : next (store kept parts) = pure result)
    (returnsOmitted : kept = { start := 0, stop := 0 } → next parts = pure result) :
    ReadsElement (record bound title fields blank >>= next) text result := by
  refine ⟨spelled.startsValue, ?_⟩
  obtain ⟨place, member, loosely⟩ := spelled
  rw [← names] at loosely
  cases member with
  | @written spanText spelledSpan =>
      have short := loosely.value_lt listed.length List.getElem?_concat_length
      have spanFits : spanText.length ≤ bound := by omega
      have readsSpan := span_spelled spelledSpan spanFits
      have all := collects.append (.cons (.known found absent readsSpan) (.nil _))
      exact .bind (record_loosely lawful loosely fits all) returns
  | omitted =>
      rw [List.append_nil] at loosely
      exact .bind (record_loosely lawful loosely fits collects) (returnsOmitted rfl)

end Records

theorem list_spelled {α : Type} {element : Reader α} {Spelled : α → List Char → α → Prop}
    {trees reads : List α} {texts : List (List Char)} (spelled : SpelledEach Spelled trees texts reads)
    (fits : (listChars texts).length ≤ bound)
    (each : ∀ tree ∈ trees, ∀ text read, Spelled tree text read → text.length ≤ bound →
      ReadsElement element text read) :
    Reads (list bound element) (listChars texts) reads := by
  have short : ∀ text ∈ texts, text.length ≤ bound := fun text listed =>
    Nat.le_trans (Nat.le_of_lt (Json.element_lt_list listed)) fits
  refine list_read ?_ fits
  clear fits
  induction spelled with
  | nil => exact .nil
  | cons first _ ih =>
      rw [List.forall_mem_cons] at each short
      exact .cons (each.1 _ _ first short.1) (ih each.2 short.2)

theorem expr_of_spelledKind {name : String} {payload : List Char} {span kept : Span} (form : Expr)
    (spelled : SpelledKind name payload span text kept) (fits : text.length ≤ bound)
    (reads : ∀ inside, payload.length ≤ inside →
      Reads (kind inside (expr inside)) (objectChars [(name, payload)]) form) :
    ReadsElement (expr bound) text (form.withSpan kept) := by
  have kindShort := SpelledRecord.value_lt spelled 0 rfl
  have payloadShort : payload.length + 1 < (objectChars [(name, payload)]).length :=
    Json.value_lt_object List.mem_cons_self
  obtain ⟨inside, rfl⟩ : ∃ inside, bound = inside + 1 := ⟨bound - 1, by omega⟩
  have readsKind := reads inside (by omega)
  refine record_spelled spelled fits ?_ rfl rfl (.cons (.known rfl rfl readsKind) (.nil _)) rfl rfl
    (by rintro rfl; rfl)
  constructor <;> simp [RecordField.apart_iff, spanField]

mutual

theorem expr_spelled : (tree : Expr) → {bound : Nat} → {text : List Char} → {read : Expr} →
    tree.Spelled text read → text.length ≤ bound → ReadsElement (expr bound) text read
  | .literal value _, _, _, _, .literal kind, fits =>
      expr_of_spelledKind (.literal value) kind fits fun _ _ =>
        choice_read rfl (literal_written value)
  | .ident name _, _, _, _, .ident kind, fits =>
      expr_of_spelledKind (.ident name) kind fits fun _ _ => choice_read rfl (ident_written name)
  | .binary op left right _, _, _, _, .binary spelledLeft spelledRight kind, fits => by
      refine expr_of_spelledKind (.binary op _ _) kind fits fun inside payloadFits => ?_
      have readsLeft := expr_spelled left spelledLeft (Json.element_fits payloadFits 0 rfl)
      have readsRight := expr_spelled right spelledRight (Json.element_fits payloadFits 1 rfl)
      cases op <;> exact choice_read rfl ((pair_read readsLeft readsRight).bind rfl)
  | .negation operand _, _, _, _, .negation spelledOperand kind, fits =>
      expr_of_spelledKind (.negation _) kind fits fun _ payloadFits =>
        choice_read rfl ((expr_spelled operand spelledOperand payloadFits).2.bind rfl)
  | .conditional guard thenBranch elseBranch _, _, _, _,
      .conditional spelledGuard spelledThen spelledElse spelledPayload kind, fits => by
      refine expr_of_spelledKind (.conditional _ _ _) kind fits fun inside payloadFits => ?_
      have readsGuard := expr_spelled guard spelledGuard (spelledPayload.fits payloadFits 0 rfl)
      have readsThen := expr_spelled thenBranch spelledThen (spelledPayload.fits payloadFits 1 rfl)
      have readsElse := expr_spelled elseBranch spelledElse (spelledPayload.fits payloadFits 2 rfl)
      refine choice_read rfl (.bind (record_loosely ?_ spelledPayload (Nat.le_succ_of_le payloadFits)
        (.cons (.known rfl rfl readsGuard.2) <| .cons (.known rfl rfl readsThen.2) <|
          .cons (.known rfl rfl readsElse.2) <| .nil _)) rfl)
      constructor <;> simp [RecordField.apart_iff]
  | .call callee args _, _, _, _, .call spelledArgs spelledPayload kind, fits => by
      refine expr_of_spelledKind (.call callee _) kind fits fun inside payloadFits => ?_
      have readsCallee := name_written callee
      have readsArgs := list_spelled spelledArgs (spelledPayload.fits payloadFits 1 rfl)
        (exprs_spelled args)
      refine choice_read rfl (.bind (record_loosely ?_ spelledPayload (Nat.le_succ_of_le payloadFits)
        (.cons (.known rfl rfl readsCallee) <| .cons (.known rfl rfl readsArgs) <| .nil _)) rfl)
      constructor <;> simp [RecordField.apart_iff]

theorem exprs_spelled : (trees : List Expr) → {bound : Nat} → ∀ tree ∈ trees, ∀ text read,
    tree.Spelled text read → text.length ≤ bound → ReadsElement (expr bound) text read
  | [], _ => List.forall_mem_nil _
  | first :: rest, _ =>
      List.forall_mem_cons.mpr ⟨fun _ _ => expr_spelled first, exprs_spelled rest⟩

end

theorem assign_spelled {assign read : Assign} (spelled : assign.Spelled text read)
    (fits : text.length ≤ bound) : ReadsElement (Read.assign bound) text read := by
  obtain ⟨spelledValue, record⟩ := spelled
  have readsName := name_written assign.name
  have readsValue := expr_spelled assign.value spelledValue (record.fits fits 1 rfl)
  refine record_spelled record (Nat.le_succ_of_le fits) ?_ rfl rfl
    (.cons (.known rfl rfl readsName) <| .cons (.known rfl rfl readsValue.2) <| .nil _) rfl rfl
    (by rintro rfl; rfl)
  constructor <;> simp [RecordField.apart_iff, spanField]

theorem param_spelled {param read : Param} (spelled : param.Spelled text read)
    (fits : text.length ≤ bound) : ReadsElement (Read.param bound) text read := by
  obtain ⟨record⟩ := spelled
  have readsType := type_written param.type
  have readsName := name_written param.name
  refine record_spelled record (Nat.le_succ_of_le fits) ?_ rfl rfl
    (.cons (.known rfl rfl readsType) <| .cons (.known rfl rfl readsName) <| .nil _) rfl rfl
    (by rintro rfl; rfl)
  constructor <;> simp [RecordField.apart_iff, spanField]

theorem declaration_spelled {declaration read : Declaration}
    (spelled : declaration.Spelled text read) (fits : text.length ≤ bound) :
    ReadsElement (Read.declaration bound) text read := by
  obtain ⟨spelledParams, spelledBody, spelledResult, record⟩ := spelled
  have readsName := name_written declaration.name
  have readsType := type_written declaration.returnType
  have readsParams := list_spelled spelledParams (record.fits fits 2 rfl)
    fun _ _ _ _ => param_spelled
  have readsBody := list_spelled spelledBody (record.fits fits 3 rfl) fun _ _ _ _ => assign_spelled
  have readsResult := expr_spelled declaration.result spelledResult (record.fits fits 4 rfl)
  refine record_spelled record (Nat.le_succ_of_le fits) ?_ rfl rfl
    (.cons (.known rfl rfl readsName) <| .cons (.known rfl rfl readsType) <|
      .cons (.known rfl rfl readsParams) <| .cons (.known rfl rfl readsBody) <|
      .cons (.known rfl rfl readsResult.2) <| .nil _) rfl rfl
    (by rintro rfl; rfl)
  constructor <;> simp [RecordField.apart_iff, spanField]

theorem stmt_spelled {stmt read : Stmt} (spelled : stmt.Spelled text read)
    (fits : text.length ≤ bound) : ReadsElement (Read.stmt bound) text read := by
  refine ⟨?_, ?_⟩
  · cases spelled <;> exact startsValue_object _
  · cases spelled with
    | assign spelled =>
        have payloadFits := (loosely_objectChars [] _).fits fits 0 rfl
        exact choice_read rfl ((assign_spelled spelled payloadFits).2.bind rfl)
    | declare spelled =>
        have payloadFits := (loosely_objectChars [] _).fits fits 0 rfl
        exact choice_read rfl ((declaration_spelled spelled payloadFits).2.bind rfl)

theorem print_spelled {print read : Print} (spelled : print.Spelled text read)
    (fits : text.length ≤ bound) : ReadsElement (Read.print bound) text read := by
  obtain ⟨spelledExp, record⟩ := spelled
  have readsExp := expr_spelled print.exp spelledExp (record.fits fits 0 rfl)
  refine record_spelled record (Nat.le_succ_of_le fits) ?_ rfl rfl
    (.cons (.known rfl rfl readsExp.2) (.nil _)) rfl rfl (by rintro rfl; rfl)
  constructor <;> simp [RecordField.apart_iff, spanField]

theorem program_spelled {program read : Program} (spelled : program.Spelled text read)
    (fits : text.length ≤ bound) : ReadsElement (Read.program bound) text read := by
  obtain ⟨spelledStatements, spelledPrint, record⟩ := spelled
  have readsStatements := list_spelled spelledStatements (record.fits fits 0 rfl)
    fun _ _ _ _ => stmt_spelled
  have readsPrint := print_spelled spelledPrint (record.fits fits 1 rfl)
  refine record_spelled record (Nat.le_succ_of_le fits) ?_ rfl rfl
    (.cons (.known rfl rfl readsStatements) <| .cons (.known rfl rfl readsPrint.2) <| .nil _) rfl rfl
    (by rintro rfl; rfl)
  constructor <;> simp [RecordField.apart_iff, spanField]

end Read

section Written

theorem Span.spelled_json (span : Span) : span.Spelled span.json.chars := by
  rw [Span.json, Value.chars_object]
  exact loosely_objectChars _ _

theorem spelledRecord_object (listed : List (String × Value)) (span : Span) :
    SpelledRecord (listed.map Value.writtenMember) span
      (Value.object (listed ++ [("span", span.json)])).chars span := by
  refine ⟨[("span", span.json.chars)], .written span.spelled_json, ?_⟩
  rw [Value.chars_object, List.map_append]
  exact loosely_objectChars _ _

theorem spelledEach_map {α : Type} {Spelled : α → List Char → α → Prop} {write : α → Value}
    {trees : List α} (each : ∀ tree ∈ trees, Spelled tree (write tree).chars tree) :
    SpelledEach Spelled trees ((trees.map write).map Value.chars) trees := by
  induction trees with
  | nil => exact .nil
  | cons first rest ih =>
      rw [List.forall_mem_cons] at each
      exact .cons each.1 (ih each.2)

theorem spelledKind_placed (kind : String) (payload : Value) (span : Span) :
    SpelledKind kind payload.chars span (placed kind payload span).chars span := by
  have written := spelledRecord_object [("kind", .object [(kind, payload)])] span
  rw [List.map_singleton, Value.writtenMember, Value.chars_object] at written
  exact written

mutual

theorem Expr.spelled_json : (tree : Expr) → tree.Spelled tree.json.chars tree
  | .literal value span => .literal (spelledKind_placed _ (.number value.toInt) span)
  | .ident name span => .ident (spelledKind_placed _ (.string name) span)
  | .binary op left right span => by
      have written := spelledKind_placed op.name (.list [left.json, right.json]) span
      rw [Value.chars_list] at written
      exact .binary left.spelled_json right.spelled_json written
  | .negation operand span => .negation operand.spelled_json (spelledKind_placed _ operand.json span)
  | .conditional guard thenBranch elseBranch _ => by
      rw [Expr.json]
      refine .conditional guard.spelled_json thenBranch.spelled_json elseBranch.spelled_json ?_
        (spelledKind_placed _ _ _)
      rw [Value.chars_object]
      exact loosely_objectChars _ _
  | .call callee args _ => by
      rw [Expr.json, Expr.jsonOfAll_eq]
      refine .call (spelledEach_map (Expr.spelled_jsonOfAll args)) ?_ (spelledKind_placed _ _ _)
      rw [Value.chars_object, List.map_cons, List.map_singleton, Value.writtenMember,
        Value.writtenMember, Value.chars_list]
      exact loosely_objectChars _ _

theorem Expr.spelled_jsonOfAll : (trees : List Expr) → ∀ tree ∈ trees,
    tree.Spelled tree.json.chars tree
  | [] => List.forall_mem_nil _
  | first :: rest => List.forall_mem_cons.mpr ⟨first.spelled_json, Expr.spelled_jsonOfAll rest⟩

end

theorem Assign.spelled_json (assign : Assign) : assign.Spelled assign.json.chars assign :=
  .intro assign.value.spelled_json
    (spelledRecord_object [("name", .string assign.name), ("value", assign.value.json)] _)

theorem Param.spelled_json (param : Param) : param.Spelled param.json.chars param :=
  .intro (spelledRecord_object [("ty", .string param.type.name), ("name", .string param.name)] _)

theorem Declaration.spelled_json (declaration : Declaration) :
    declaration.Spelled declaration.json.chars declaration := by
  have written := spelledRecord_object
    [("name", .string declaration.name), ("return_type", .string declaration.returnType.name),
      ("params", .list (declaration.params.map Param.json)),
      ("body", .list (declaration.body.map Assign.json)),
      ("return_expr", declaration.result.json)] declaration.span
  simp only [List.map_cons, List.map_nil, Value.writtenMember, Value.chars_list] at written
  exact .intro (spelledEach_map fun param _ => param.spelled_json)
    (spelledEach_map fun assign _ => assign.spelled_json) declaration.result.spelled_json written

theorem Stmt.spelled_json (stmt : Stmt) : stmt.Spelled stmt.json.chars stmt := by
  cases stmt with
  | assign assign =>
      rw [Stmt.json, Value.chars_object]
      exact .assign assign.spelled_json
  | declare declaration =>
      rw [Stmt.json, Value.chars_object]
      exact .declare declaration.spelled_json

theorem Print.spelled_json (print : Print) : print.Spelled print.json.chars print :=
  .intro print.exp.spelled_json (spelledRecord_object [("exp", print.exp.json)] _)

theorem Program.spelled_json (program : Program) : program.Spelled program.json.chars program := by
  have written := spelledRecord_object
    [("statements", .list (program.statements.map Stmt.json)), ("print", program.print.json)]
    program.span
  simp only [List.map_cons, List.map_nil, Value.writtenMember, Value.chars_list] at written
  exact .intro (spelledEach_map fun stmt _ => stmt.spelled_json) program.print.spelled_json written

end Written

theorem Program.parse_of_spelled (program : Program) :
    program.Spelled program.json.text.toList program ∧
      ∀ text read, program.Spelled text.toList read → Program.parse text = .ok read := by
  refine ⟨?_, ?_⟩
  · rw [Value.text, String.toList_ofList]
    exact program.spelled_json
  · intro text read spelled
    have reads := (Read.program_spelled spelled (Nat.le_refl _)).2 [] (by simp [EndsValue])
    rw [List.append_nil] at reads
    rw [Program.parse, Program.ofChars, StateT.run', bind_of_ok reads]
    rfl

def printSeven (literal print program : Span) : Program where
  statements := []
  print := { exp := .literal 7 literal, span := print }
  span := program

def weightedSeven : List Char :=
  -- The places of the literal and of the program are left out, and the literal has a weight.
  objectChars [
    ("print", objectChars [
      ("span", objectChars [("end", ['2']), ("start", ['1'])]),
      ("exp", objectChars [
        ("weight", ['1', '.', '5', 'e', '3']),
        ("kind", objectChars [("IntegerLiteral", ['7'])])])]),
    ("statements", listChars [])]

theorem Program.parse_of_spelled_weightedSeven :
    (printSeven ⟨3, 4⟩ ⟨1, 2⟩ ⟨0, 9⟩).Spelled weightedSeven (printSeven ⟨0, 0⟩ ⟨1, 2⟩ ⟨0, 0⟩) ∧
      Program.parse (String.ofList weightedSeven) = .ok (printSeven ⟨0, 0⟩ ⟨1, 2⟩ ⟨0, 0⟩) := by
  have digit (c : Char) (isDigit : c.isDigit = true) : Json.IsDigits [c] :=
    ⟨List.cons_ne_nil c [], List.forall_mem_singleton.mpr isDigit⟩
  have exponent : Json.IsExponent ['e', '3'] :=
    @Json.IsExponent.present 'e' [] ['3'] (.inl rfl) (.inl rfl) (digit '3' rfl)
  have weight : Json.IsValue ['1', '.', '5', 'e', '3'] :=
    .number (@Json.IsNumeral.intro [] ['1'] ['.', '5'] ['e', '3'] (.inl rfl) (digit '1' rfl)
      (.inr (by simp)) (.present (digit '5' rfl)) exponent)
  have literal : (Expr.literal 7 ⟨3, 4⟩).Spelled _ (.literal 7 ⟨0, 0⟩) :=
    .literal ⟨[], .omitted, _, [("weight", ['1', '.', '5', 'e', '3'])], by simp [weight],
      .swap _ _ _, rfl⟩
  have place : (Span.mk 1 2).Spelled _ := ⟨_, [], by simp, .swap _ _ _, rfl⟩
  have print : (Print.mk (.literal 7 ⟨3, 4⟩) ⟨1, 2⟩).Spelled _ ⟨.literal 7 ⟨0, 0⟩, ⟨1, 2⟩⟩ :=
    .intro literal ⟨_, .written place, _, [], by simp, .swap _ _ _, rfl⟩
  have spelled : (printSeven ⟨3, 4⟩ ⟨1, 2⟩ ⟨0, 9⟩).Spelled weightedSeven
      (printSeven ⟨0, 0⟩ ⟨1, 2⟩ ⟨0, 0⟩) :=
    .intro .nil print ⟨_, .omitted, _, [], by simp, .swap _ _ _, rfl⟩
  refine ⟨spelled, (Program.parse_of_spelled (printSeven ⟨3, 4⟩ ⟨1, 2⟩ ⟨0, 9⟩)).2 _ _ ?_⟩
  rwa [String.toList_ofList]

end TreeCompiler.Source
