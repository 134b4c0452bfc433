import ScriptCpp.Ast
import ScriptCpp.Binary64.Numeral
import ScriptCpp.Parser.Basic

set_option autoImplicit false

namespace ScriptCpp

namespace Parser

/-- The parsers that may be entered one nesting level further in. -/
structure Nested where
  statement : Parser Stmt
  strict : statement.Strict
  assignment : Parser Expr
  conditional : Parser Expr
  unary : Parser Expr

def blockOf (inner : Nested) (place : BlockPlace) : Parser (List Stmt) := do
  expectSymbol .openBrace (.blockOpen place)
  let body ← many (fun t => t.kind = .symbol .closeBrace) inner.statement inner.strict
  expectSymbol .closeBrace (.blockClose place)
  return body

-- Any word may follow a dot, a keyword too, and only the text decides.
def propertyName : Parser String := do
  let t ← peek
  if t.kind = .identifier || (Keyword.ofText? t.text).isSome then
    skip
    return t.text
  else fail .propertyName

def commaSeparated {α : Type} (item : Parser α) : Parser (List α) := do
  let first ← item
  let items ← iterate (fun items t =>
    if t.kind = .symbol .comma then some ((· :: items) <$> item) else none) [first]
  return items.reverse

def expressionList (inner : Nested) (close : Symbol) : Parser (List Expr) := do
  if ← sees close then return []
  commaSeparated inner.assignment

def callArguments (inner : Nested) : Parser (List Expr) := do
  let args ← expressionList inner .closeParen
  expectSymbol .closeParen .argumentsClose
  return args

/-- What follows an opening parenthesis: one expression, or the parameters of an arrow function. -/
def parenthesized (inner : Nested) : Parser Expr := do
  let items ← expressionList inner .closeParen
  expectSymbol .closeParen .parenClose
  if ← sees .arrow then
    match items.mapM Expr.name? with
    | none => fail .arrowParameters
    | some params =>
        skip
        if ← sees .openBrace then return .arrowBlock params (← blockOf inner .arrowBody)
        return .arrowValue params (← inner.assignment)
  else
    match items with
    | [e] => return e
    | [] => fail .emptyParens
    | _ => fail .tuple

def construction (inner : Nested) : Parser Expr := do
  let className ← expect .identifier .newName
  if ← acceptSymbol .openParen then return .construct className (← callArguments inner)
  return .construct className []

def arrayElements (inner : Nested) : Parser Expr := do
  let elements ← expressionList inner .closeBracket
  expectSymbol .closeBracket .arrayClose
  return .array elements

def primary (inner : Nested) : Parser Expr :=
  onToken
    (fun t => match t.kind with
      | .identifier => some (pure (.ident t.text))
      | .number => (Binary64.ofText? t.text).map fun value => pure (.number value)
      | .string => some (pure (.string t.text))
      | .keyword .this_ => some (pure .this)
      | .keyword .new_ => some (construction inner)
      | .keyword .await_ => some (.await <$> inner.assignment)
      | .symbol .openBracket => some (arrayElements inner)
      | .symbol .openParen => some (parenthesized inner)
      | _ => none)
    do
      let t ← peek
      fail (if t.kind = .number then .numeral else .unexpectedToken)

def access (inner : Nested) (object : Expr) (t : Token) : Option (Parser Expr) :=
  match t.kind with
  | .symbol .dot => some (.member object <$> propertyName)
  | .symbol .openBracket => some do
      let key ← inner.assignment
      expectSymbol .closeBracket .indexClose
      return .index object key
  | .symbol .openParen => some (.call object <$> callArguments inner)
  | _ => none

def accessChain (inner : Nested) : Parser Expr := do
  iterate (access inner) (← primary inner)

def unaryOf (inner : Nested) : Parser Expr := do
  if ← acceptSymbol .minus then return .negate (← inner.unary)
  accessChain inner

def joined (op? : Symbol → Option BinaryOp) (operand : Parser Expr) (left : Expr) (t : Token) :
    Option (Parser Expr) :=
  match t.kind with
  | .symbol sign => (op? sign).map fun op => .binary op left <$> operand
  | _ => none

def leftChain (op? : Symbol → Option BinaryOp) (operand : Parser Expr) : Parser Expr := do
  iterate (joined op? operand) (← operand)

def productOp? : Symbol → Option BinaryOp
  | .times => some .mul
  | .divide => some .div
  | .modulo => some .mod
  | _ => none

def sumOp? : Symbol → Option BinaryOp
  | .plus => some .add
  | .minus => some .sub
  | _ => none

def comparisonOp? : Symbol → Option BinaryOp
  | .equal => some .eq
  | .notEqual => some .ne
  | .less => some .lt
  | .greater => some .gt
  | .lessEqual => some .le
  | .greaterEqual => some .ge
  | _ => none

def andOp? : Symbol → Option BinaryOp
  | .and => some .and
  | _ => none

def orOp? : Symbol → Option BinaryOp
  | .or => some .or
  | _ => none

def disjunction (inner : Nested) : Parser Expr :=
  leftChain orOp? <| leftChain andOp? <| leftChain comparisonOp? <| leftChain sumOp? <|
    leftChain productOp? <| unaryOf inner

def conditionalOf (inner : Nested) : Parser Expr := do
  let test ← disjunction inner
  if ← acceptSymbol .question then
    let consequent ← inner.assignment
    expectSymbol .colon .conditionalColon
    let alternate ← inner.conditional
    return .conditional test consequent alternate
  return test

def isTarget : Expr → Bool
  | .ident _ | .member _ _ | .index _ _ => true
  | _ => false

def assignmentOf (inner : Nested) : Parser Expr := do
  let target ← conditionalOf inner
  if ← sees .assign then
    if isTarget target then
      skip
      return .assign target (← inner.assignment)
    else fail .assignmentTarget
  return target

end Parser

end ScriptCpp
