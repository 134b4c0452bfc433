import ScriptCpp.Parser.Expression
import ScriptCpp.Token.Lexer

set_option autoImplicit false

namespace ScriptCpp

namespace Parser

def condition (inner : Nested) (construct : Construct) : Parser Expr := do
  expectSymbol .openParen (.conditionOpen construct)
  let test ← inner.assignment
  expectSymbol .closeParen (.conditionClose construct)
  return test

def parameterList : Parser (List String) := do
  expectSymbol .openParen .parametersOpen
  if ← acceptSymbol .closeParen then return []
  let params ← commaSeparated (expect .identifier .parameterName)
  expectSymbol .closeParen .parametersClose
  return params

def declaration (inner : Nested) : Parser Stmt := do
  let name ← expect .identifier .letName
  if ← acceptSymbol .semicolon then return .declare name none
  expectSymbol .assign .letEquals
  let value ← inner.assignment
  expectSymbol .semicolon .letEnd
  return .declare name (some value)

def functionDecl (inner : Nested) (isAsync : Bool) : Parser Stmt := do
  let name ← expect .identifier .functionName
  let params ← parameterList
  let body ← blockOf inner .functionBody
  return .function { name, params, body, isAsync }

def asyncFunction (inner : Nested) : Parser Stmt := do
  let _ ← expect (.keyword .func_) .funcWord
  functionDecl inner true

def returnStmt (inner : Nested) : Parser Stmt := do
  if ← acceptSymbol .semicolon then return .ret none
  let value ← inner.assignment
  expectSymbol .semicolon .returnEnd
  return .ret (some value)

/-- The `else if` parts read so far, last first, and the `else` part that ends them. -/
structure Arms where
  arms : List (Expr × List Stmt)
  final : Option (List Stmt)

def Arms.otherwise (a : Arms) : Option (List Stmt) :=
  a.arms.foldl (fun rest (test, body) => some [.branch test body rest]) a.final

def nextArm (inner : Nested) (a : Arms) (t : Token) : Option (Parser Arms) :=
  if t.kind = .keyword .else_ && a.final.isNone then
    some do
      if ← acceptWord .if_ then
        let test ← condition inner .ifWord
        let body ← blockOf inner .ifBlock
        return { a with arms := (test, body) :: a.arms }
      return { a with final := some (← blockOf inner .elseBlock) }
  else none

-- The arms of a chain are read in a loop, so a chain's length is no nesting.
def branch (inner : Nested) : Parser Stmt := do
  let test ← condition inner .ifWord
  let body ← blockOf inner .ifBlock
  let arms ← iterate (nextArm inner) ⟨[], none⟩
  return .branch test body arms.otherwise

def whileLoop (inner : Nested) : Parser Stmt := do
  let test ← condition inner .whileWord
  let body ← blockOf inner .whileBlock
  return .whileLoop test body

def optionalBefore (inner : Nested) (sign : Symbol) : Parser (Option Expr) := do
  if ← sees sign then return none
  return some (← inner.assignment)

/-- The first part of a loop's head: a semicolon, or a statement with a semicolon of its own. -/
def loopStart (inner : Nested) : Parser (Option Stmt) := do
  if ← acceptSymbol .semicolon then return none
  return some (← inner.statement)

def forLoop (inner : Nested) : Parser Stmt := do
  expectSymbol .openParen .forOpen
  let start ← loopStart inner
  let test ← optionalBefore inner .semicolon
  expectSymbol .semicolon .forConditionEnd
  let update ← optionalBefore inner .closeParen
  expectSymbol .closeParen .forClose
  let body ← blockOf inner .forBlock
  return .forLoop start test update body

inductive Member where
  | field (decl : FieldDecl)
  | method (decl : FunctionDecl)

def Member.field? : Member → Option FieldDecl
  | .field decl => some decl
  | .method _ => none

def Member.method? : Member → Option FunctionDecl
  | .field _ => none
  | .method decl => some decl

def fieldValue (inner : Nested) : Parser (Option Expr) := do
  if ← acceptSymbol .assign then return some (← inner.assignment)
  return none

def memberNamed (inner : Nested) (name : String) : Parser Member := do
  if ← sees .openParen then
    let params ← parameterList
    let body ← blockOf inner .methodBody
    return .method { name, params, body, isAsync := false }
  let value ← fieldValue inner
  expectSymbol .semicolon .fieldEnd
  return .field { name, value }

def classMember (inner : Nested) : Parser Member := do
  let _ ← acceptWord .let_
  let _ ← acceptWord .func_
  let name ← expect .identifier .memberName
  memberNamed inner name

theorem strict_classMember (inner : Nested) : (classMember inner).Strict :=
  strict_bind_right fun _ => strict_bind_right fun _ => strict_bind_left (strict_expect _ _)

def classDecl (inner : Nested) : Parser Stmt := do
  let name ← expect .identifier .className
  expectSymbol .openBrace .classOpen
  let members ← many (fun t => t.kind = .symbol .closeBrace) (classMember inner)
    (strict_classMember inner)
  expectSymbol .closeBrace .classClose
  return .classDecl
    { name, fields := members.filterMap Member.field?, methods := members.filterMap Member.method? }

/-- Statements in braces, or up to the next label or the end of the switch. -/
def clauseBody (inner : Nested) : Parser (List Stmt) := do
  if ← sees .openBrace then blockOf inner .caseBlock
  else
    many (fun t => t.kind = .keyword .case_ || t.kind = .keyword .default_ ||
      t.kind = .symbol .closeBrace) inner.statement inner.strict

structure Clause where
  test : Option Expr
  body : List Stmt

def caseClause (inner : Nested) : Parser Clause := do
  let test ← inner.assignment
  expectSymbol .colon .caseColon
  return ⟨some test, ← clauseBody inner⟩

def defaultClause (inner : Nested) : Parser Clause := do
  expectSymbol .colon .defaultColon
  return ⟨none, ← clauseBody inner⟩

def clause (inner : Nested) : Parser Clause :=
  onToken
    (fun t => match t.kind with
      | .keyword .case_ => some (caseClause inner)
      | .keyword .default_ => some (defaultClause inner)
      | _ => none)
    (fail .clauseLabel)

theorem strict_clause (inner : Nested) : (clause inner).Strict :=
  strict_onToken _ (strict_fail _)

def Clause.case? (c : Clause) : Option CaseClause :=
  c.test.map fun test => { test, body := c.body }

def Clause.default? (c : Clause) : Option (List Stmt) :=
  if c.test.isNone then some c.body else none

-- Of several `default` clauses the last one counts.
def switchStmt (inner : Nested) : Parser Stmt := do
  let subject ← condition inner .switchWord
  expectSymbol .openBrace .switchOpen
  let clauses ← many (fun t => t.kind = .symbol .closeBrace) (clause inner) (strict_clause inner)
  expectSymbol .closeBrace .switchClose
  return .switch subject (clauses.filterMap Clause.case?)
    (clauses.filterMap Clause.default?).getLast?

def importStmt : Parser Stmt := do
  let path ← expect .string .importPath
  expectSymbol .semicolon .importEnd
  return .importFile path

def catchParam : Parser (Option String) := do
  if ← acceptSymbol .openParen then
    let name ← expect .identifier .catchName
    expectSymbol .closeParen .catchClose
    return some name
  return none

def catchPart (inner : Nested) : Parser (Option CatchClause) := do
  if ← acceptWord .catch_ then
    let param ← catchParam
    let body ← blockOf inner .catchBlock
    return some { param, body }
  return none

def finallyPart (inner : Nested) : Parser (Option (List Stmt)) := do
  if ← acceptWord .finally_ then return some (← blockOf inner .finallyBlock)
  return none

def attempt (inner : Nested) : Parser Stmt := do
  let body ← blockOf inner .tryBlock
  let handler ← catchPart inner
  let cleanup ← finallyPart inner
  return .attempt body handler cleanup

def closing (s : Stmt) (complaint : Complaint) : Parser Stmt := do
  expectSymbol .semicolon complaint
  return s

def expressionStmt (inner : Nested) : Parser Stmt := do
  let value ← inner.assignment
  closing (.expr value) .expressionEnd

def statementOf (inner : Nested) : Parser Stmt :=
  onToken
    (fun t => match t.kind with
      | .keyword .let_ => some (declaration inner)
      | .keyword .func_ => some (functionDecl inner false)
      | .keyword .async_ => some (asyncFunction inner)
      | .keyword .return_ => some (returnStmt inner)
      | .keyword .if_ => some (branch inner)
      | .keyword .while_ => some (whileLoop inner)
      | .keyword .for_ => some (forLoop inner)
      | .keyword .class_ => some (classDecl inner)
      | .keyword .switch_ => some (switchStmt inner)
      | .keyword .break_ => some (closing .breakLoop .breakEnd)
      | .keyword .continue_ => some (closing .continueLoop .continueEnd)
      | .keyword .import_ => some importStmt
      | .keyword .try_ => some (attempt inner)
      | _ => none)
    (expressionStmt inner)

theorem strict_statementOf (inner : Nested) : (statementOf inner).Strict :=
  strict_onToken _ <| strict_bind_right fun _ => strict_bind_left (strict_expectSymbol _ _)

def nested : Nat → Nested
  | 0 =>
      { statement := fail .nestingTooDeep
        strict := strict_fail _
        assignment := fail .nestingTooDeep
        conditional := fail .nestingTooDeep
        unary := fail .nestingTooDeep }
  | n + 1 =>
      let inner := nested n
      { statement := statementOf inner
        strict := strict_statementOf inner
        assignment := assignmentOf inner
        conditional := conditionalOf inner
        unary := unaryOf inner }

def maxNesting : Nat := 64

def program : Parser Program :=
  many (fun _ => false) (nested maxNesting).statement (nested maxNesting).strict

end Parser

namespace Program

/-- The program of a token sequence, which has to end with an end token and is read to the first. -/
def ofTokens (tokens : List Token) : Except ParseError Program :=
  match tokens.getLast? with
  | none => .error ⟨.emptyStream, "", .start⟩
  | some last =>
      if last.kind = .eof then
        let ahead := tokens.takeWhile (·.kind ≠ .eof)
        let stop := (tokens.dropWhile (·.kind ≠ .eof)).headD last
        Prod.fst <$> Parser.program.run stop ahead
      else .error (.atToken .endMissing last)

end Program

end ScriptCpp
