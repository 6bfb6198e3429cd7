import Tarn.Syntax.Expression

/-! Statements and declarations. A declaration that fails is dropped together with the tokens up to
the next recovery point, and the rest is parsed as if it had not been there. -/
namespace Tarn.Parser

/-- A declaration, or nothing after an error, which is reported. -/
def recovering (declaration : Parser Stmt) : StateM ParseState (Option Stmt) := fun s =>
  let start := s.cursor.position
  match declaration s with
  | (.ok stmt, s) => (some stmt, s)
  | (.error e, s) =>
      let recovery := if 0 < s.blockDepth then KindSet.blockRecovery else KindSet.declarationStart
      (none, { s with
        cursor := (s.cursor.synchronize recovery start).2
        errors := s.errors.push e
        events := s.events.push (.recovery e.code e.span) })

/-- Declarations up to a token that `stops` them or to the end. -/
def declarationsUpTo (stops : Cursor → Bool) (declaration : Parser Stmt) :
    Nat → List Stmt → StateM ParseState (List Stmt)
  | 0, found => return found
  | n + 1, found => do
      let c := (← get).cursor
      if stops c || c.atEnd then return found
      else match ← recovering declaration with
        | some stmt => declarationsUpTo stops declaration n (found ++ [stmt])
        | none => declarationsUpTo stops declaration n found

/-- Runs `p` inside a pair of braces. -/
def inBraces {α : Type} (p : StateM ParseState α) : Parser α := do
  modify fun s => { s with blockDepth := s.blockDepth + 1 }
  let a ← p
  modify fun s => { s with blockDepth := s.blockDepth - 1 }
  return a

/-- Runs `p` inside a function, which ends whether `p` succeeds or not. -/
def inFunction {α : Type} (p : Parser α) : Parser α := fun s =>
  let (r, s) := p { s with functionDepth := s.functionDepth + 1 }
  (r, { s with functionDepth := s.functionDepth - 1 })

/-- Declarations in braces. -/
def block (nested : Parser Stmt) (message : String) : Parser Block := do
  let opening ← expect Symbol.leftBrace message
  let n ← remaining
  let stmts ← inBraces (declarationsUpTo (·.check Symbol.rightBrace) nested n [])
  let closing ← expectClosing Symbol.rightBrace opening "expected `\x7d` after block"
  return ⟨opening.merge closing, stmts⟩

def parameter (found : List Param) : Parser Param := do
  let c ← cursor
  reportIf (found.length = maxArity)
    (c.errorHere .tooManyParameters s!"can't have more than {maxArity} parameters")
  let (name, span) ← expectIdentifier "expected parameter name"
  reportIf (found.any (·.name == name))
    { code := .duplicateParameter, message := s!"duplicate parameter `{c.names.spelling name}`",
      span, context := some "already declared in this parameter list" }
  return ⟨name, span⟩

def function (nested : Parser Stmt) : Parser Stmt := do
  let start ← advance
  let (name, nameSpan) ← expectIdentifier "expected function name"
  let opening ← expect Symbol.leftParen "expected `(` after function name"
  let params ← itemsBefore Symbol.rightParen parameter
  let _ ← expectClosing Symbol.rightParen opening "expected `)` after parameters"
  let body ← inFunction (block nested "expected `\x7b` before function body")
  return .function (start.merge body.span) ⟨name, nameSpan, params, body⟩

/-- The value that a variable is declared with, if there is one. -/
def initialValue : Parser (Option Expr) := do
  if ← check Symbol.equal then
    let _ ← advance
    some <$> expression
  else return none

/-- An expression, unless `stop` comes at once. -/
def expressionBefore (stop : TokenKind) : Parser (Option Expr) := do
  if ← check stop then return none else some <$> expression

def variableDeclaration : Parser Stmt := do
  let start ← advance
  let (name, nameSpan) ← expectIdentifier "expected variable name"
  let initializer ← initialValue
  let stop ← expect Symbol.semicolon "expected `;` after variable declaration"
  return .var (start.merge stop) name nameSpan initializer

def expressionStatement : Parser Stmt := do
  let value ← expression
  let stop ← expect Symbol.semicolon "expected `;` after expression"
  return .expression (value.span.merge stop) value

def printStatement : Parser Stmt := do
  let start ← advance
  let value ← expression
  let stop ← expect Symbol.semicolon "expected `;` after value"
  return .print (start.merge stop) value

def returnStatement : Parser Stmt := do
  let keyword ← advance
  let depth := (← get).functionDepth
  reportIf (depth = 0)
    { code := .returnOutsideFunction, message := "cannot return from top-level code",
      span := keyword, context := some "not inside a function" }
  let value ← expressionBefore Symbol.semicolon
  let stop ← expect Symbol.semicolon "expected `;` after return value"
  return .result (keyword.merge stop) keyword value

/-- The branch after `else`. Another `if` is the only statement of its block. -/
def elseBranch (nested : Parser Stmt) : Parser Block := do
  if ← check Keyword.ifKw then
    let stmt ← nested
    return ⟨stmt.span, [stmt]⟩
  else block nested "expected `\x7b` after `else`"

/-- The part of an `if` from `else` on. -/
def otherwise (nested : Parser Stmt) : Parser (Option Block) := do
  if ← check Keyword.elseKw then
    let _ ← advance
    some <$> elseBranch nested
  else return none

def conditional (nested : Parser Stmt) : Parser Stmt := do
  let start ← advance
  let condition ← expression
  let thenBranch ← block nested "expected `\x7b` after if condition"
  let other ← otherwise nested
  return .conditional (start.merge (other.getD thenBranch).span) condition thenBranch other

def whileLoop (nested : Parser Stmt) : Parser Stmt := do
  let start ← advance
  let condition ← expression
  let body ← block nested "expected `\x7b` after while condition"
  return .loop (start.merge body.span) condition body

/-- A `for` loop as the block and the `while` loop that it abbreviates. The increment follows the
body in a block around both, so it does not see the names of the body. A missing condition is true;
it is put at `semicolon`, the end of the condition. -/
def forLoopOf (span : Span) (initializer : Option Stmt) (condition : Option Expr) (semicolon : Span)
    (increment : Option Expr) (body : Block) : Stmt :=
  let step := (increment.map fun e => Stmt.expression e.span e).toList
  let stepSpan := (increment.map fun e => body.span.merge e.span).getD body.span
  let condition := condition.getD (.literal (Span.point semicolon.start) (.bool true))
  let loop := Stmt.loop span condition ⟨stepSpan, .block body :: step⟩
  .block ⟨span, initializer.toList ++ [loop]⟩

def forInitializer : Parser (Option Stmt) := do
  match (← current).kind with
  | .symbol .semicolon =>
      let _ ← advance
      return none
  | .keyword .varKw => some <$> variableDeclaration
  | _ => some <$> expressionStatement

def forLoop (nested : Parser Stmt) : Parser Stmt := do
  let start ← advance
  let initializer ← forInitializer
  let condition ← expressionBefore Symbol.semicolon
  let semicolon ← expect Symbol.semicolon "expected `;` after loop condition"
  let increment ← expressionBefore Symbol.leftBrace
  let body ← block nested "expected `\x7b` after for clauses"
  log (.forLoop initializer.isSome condition.isSome increment.isSome)
  return forLoopOf (start.merge body.span) initializer condition semicolon increment body

def declarationWith (nested : Parser Stmt) : Parser Stmt := do
  match (← current).kind with
  | .keyword .funKw => function nested
  | .keyword .varKw => variableDeclaration
  | .keyword .forKw => forLoop nested
  | .keyword .ifKw => conditional nested
  | .keyword .printKw => printStatement
  | .keyword .returnKw => returnStatement
  | .keyword .whileKw => whileLoop nested
  | .symbol .leftBrace => .block <$> block nested "expected `\x7b`"
  | _ => expressionStatement

/-- A declaration with at most `n` nestings, which consume a token each. -/
def declarationUpTo : Nat → Parser Stmt
  | 0 => expressionStatement
  | n + 1 => declarationWith (declarationUpTo n)

def declaration : Parser Stmt := do declarationUpTo (← remaining)

end Tarn.Parser
