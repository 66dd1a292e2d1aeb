import TreeCompiler.Json.Reader.Shape
import TreeCompiler.Source.Writer

set_option autoImplicit false

namespace TreeCompiler.Source

namespace Read

open Json Json.Reader

structure SpanParts where
  start : Option UInt32 := none
  stop : Option UInt32 := none

def offset : Reader UInt32 := do
  return .ofNat (← integer 0 0xffffffff "u32").toNat

def span (bound : Nat) : Reader Span := do
  let parts : SpanParts ← record bound "struct Span" [
    { key := "start", read := offset, store := fun value parts => { parts with start := some value },
      isPresent := (·.start.isSome) },
    { key := "end", read := offset, store := fun value parts => { parts with stop := some value },
      isPresent := (·.stop.isSome) }] {}
  return { start := ← required "start" parts.start, stop := ← required "end" parts.stop }

def spanField {σ : Type} (bound : Nat) (store : Span → σ → σ) (isPresent : σ → Bool) : RecordField σ :=
  { key := "span", read := span bound, store, isPresent, isOptional := true }

def type : Reader Ty :=
  choice ([Ty.integer, Ty.boolean, Ty.unknown].map fun type => .plain type.name type)

structure ConditionalParts where
  guard : Option Expr := none
  thenBranch : Option Expr := none
  elseBranch : Option Expr := none

def conditional (bound : Nat) (expr : Reader Expr) : Reader Expr := do
  let parts : ConditionalParts ← record bound "struct variant ExprKind::Conditional" [
    { key := "cond", read := expr, store := fun value parts => { parts with guard := some value },
      isPresent := (·.guard.isSome) },
    { key := "then_branch", read := expr,
      store := fun value parts => { parts with thenBranch := some value },
      isPresent := (·.thenBranch.isSome) },
    { key := "else_branch", read := expr,
      store := fun value parts => { parts with elseBranch := some value },
      isPresent := (·.elseBranch.isSome) }] {}
  return .conditional (← required "cond" parts.guard) (← required "then_branch" parts.thenBranch)
    (← required "else_branch" parts.elseBranch)

structure CallParts where
  callee : Option String := none
  args : Option (List Expr) := none

def call (bound : Nat) (expr : Reader Expr) : Reader Expr := do
  let parts : CallParts ← record bound "struct variant ExprKind::Call" [
    { key := "callee", read := name, store := fun value parts => { parts with callee := some value },
      isPresent := (·.callee.isSome) },
    { key := "args", read := list bound expr,
      store := fun value parts => { parts with args := some value },
      isPresent := (·.args.isSome) }] {}
  return .call (← required "callee" parts.callee) (← required "args" parts.args)

def literal : Reader Expr := do
  return .literal (.ofInt (← integer (-0x8000000000000000) 0x7fffffffffffffff "i64"))

def ident : Reader Expr := do
  return .ident (← name)

def binary (op : BinaryOp) (expr : Reader Expr) : Variant Expr :=
  .withPayload op.name "tuple variant" do
    let (left, right) ← pair ("tuple variant ExprKind::" ++ op.name) expr
    return .binary op left right

def kind (bound : Nat) (expr : Reader Expr) : Reader Expr :=
  choice [
    .withPayload "IntegerLiteral" "newtype variant" literal,
    .withPayload "Identifier" "newtype variant" ident,
    binary .lessThan expr,
    binary .plus expr,
    binary .minus expr,
    binary .times expr,
    .withPayload "Not" "newtype variant" (do return .negation (← expr)),
    .withPayload "Conditional" "struct variant" (conditional bound expr),
    .withPayload "Call" "struct variant" (call bound expr)]

structure ExprParts where
  kind : Option Expr := none
  span : Option Span := none

def expr : (bound : Nat) → Reader Expr
  | 0 => unfinished .value
  | bound + 1 => do
      let parts : ExprParts ← record bound "struct Expr" [
        { key := "kind", read := kind bound (expr bound),
          store := fun value parts => { parts with kind := some value },
          isPresent := (·.kind.isSome) },
        spanField bound (fun value parts => { parts with span := some value }) (·.span.isSome)] {}
      return (← required "kind" parts.kind).withSpan (parts.span.getD {})

structure AssignParts where
  name : Option String := none
  value : Option Expr := none
  span : Option Span := none

def assign (bound : Nat) : Reader Assign := do
  let parts : AssignParts ← record bound "struct Assign" [
    { key := "name", read := name, store := fun value parts => { parts with name := some value },
      isPresent := (·.name.isSome) },
    { key := "value", read := expr bound,
      store := fun value parts => { parts with value := some value },
      isPresent := (·.value.isSome) },
    spanField bound (fun value parts => { parts with span := some value }) (·.span.isSome)] {}
  return {
    name := ← required "name" parts.name
    value := ← required "value" parts.value
    span := parts.span.getD {} }

structure ParamParts where
  type : Option Ty := none
  name : Option String := none
  span : Option Span := none

def param (bound : Nat) : Reader Param := do
  let parts : ParamParts ← record bound "struct Param" [
    { key := "ty", read := type, store := fun value parts => { parts with type := some value },
      isPresent := (·.type.isSome) },
    { key := "name", read := name, store := fun value parts => { parts with name := some value },
      isPresent := (·.name.isSome) },
    spanField bound (fun value parts => { parts with span := some value }) (·.span.isSome)] {}
  return {
    type := ← required "ty" parts.type
    name := ← required "name" parts.name
    span := parts.span.getD {} }

structure DeclarationParts where
  name : Option String := none
  returnType : Option Ty := none
  params : Option (List Param) := none
  body : Option (List Assign) := none
  result : Option Expr := none
  span : Option Span := none

def declaration (bound : Nat) : Reader Declaration := do
  let parts : DeclarationParts ← record bound "struct FunctionDecl" [
    { key := "name", read := name, store := fun value parts => { parts with name := some value },
      isPresent := (·.name.isSome) },
    { key := "return_type", read := type,
      store := fun value parts => { parts with returnType := some value },
      isPresent := (·.returnType.isSome) },
    { key := "params", read := list bound (param bound),
      store := fun value parts => { parts with params := some value },
      isPresent := (·.params.isSome) },
    { key := "body", read := list bound (assign bound),
      store := fun value parts => { parts with body := some value },
      isPresent := (·.body.isSome) },
    { key := "return_expr", read := expr bound,
      store := fun value parts => { parts with result := some value },
      isPresent := (·.result.isSome) },
    spanField bound (fun value parts => { parts with span := some value }) (·.span.isSome)] {}
  return {
    name := ← required "name" parts.name
    returnType := ← required "return_type" parts.returnType
    params := ← required "params" parts.params
    body := ← required "body" parts.body
    result := ← required "return_expr" parts.result
    span := parts.span.getD {} }

def stmt (bound : Nat) : Reader Stmt :=
  choice [
    .withPayload "Assign" "newtype variant" (do return .assign (← assign bound)),
    .withPayload "Function" "newtype variant" (do return .declare (← declaration bound))]

structure PrintParts where
  exp : Option Expr := none
  span : Option Span := none

def print (bound : Nat) : Reader Print := do
  let parts : PrintParts ← record bound "struct Print" [
    { key := "exp", read := expr bound, store := fun value parts => { parts with exp := some value },
      isPresent := (·.exp.isSome) },
    spanField bound (fun value parts => { parts with span := some value }) (·.span.isSome)] {}
  return { exp := ← required "exp" parts.exp, span := parts.span.getD {} }

structure ProgramParts where
  statements : Option (List Stmt) := none
  print : Option Print := none
  span : Option Span := none

def program (bound : Nat) : Reader Program := do
  let parts : ProgramParts ← record bound "struct Program" [
    { key := "statements", read := list bound (stmt bound),
      store := fun value parts => { parts with statements := some value },
      isPresent := (·.statements.isSome) },
    { key := "print", read := print bound,
      store := fun value parts => { parts with print := some value },
      isPresent := (·.print.isSome) },
    spanField bound (fun value parts => { parts with span := some value }) (·.span.isSome)] {}
  return {
    statements := ← required "statements" parts.statements
    print := ← required "print" parts.print
    span := parts.span.getD {} }

def endOfText : Reader Unit := do
  match ← next? with
  | none => return
  | some _ => malformed .trailingCharacters

end Read

def Program.ofChars (chars : List Char) : Except Json.Fault Program :=
  StateT.run' (do
    let program ← Read.program chars.length
    Read.endOfText
    return program) chars

def Program.parse (text : String) : Except Json.Fault Program := Program.ofChars text.toList

end TreeCompiler.Source
