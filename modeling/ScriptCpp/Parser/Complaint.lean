import ScriptCpp.Token

set_option autoImplicit false

namespace ScriptCpp

inductive Construct where
  | ifWord | whileWord | switchWord
deriving DecidableEq, Repr

def Construct.word : Construct → String
  | .ifWord => "if"
  | .whileWord => "while"
  | .switchWord => "switch"

inductive BlockPlace where
  | functionBody | ifBlock | elseBlock | whileBlock | forBlock | methodBody | caseBlock
  | tryBlock | catchBlock | finallyBlock | arrowBody
deriving DecidableEq, Repr

def BlockPlace.phrase : BlockPlace → String
  | .functionBody => "function body"
  | .ifBlock => "if block"
  | .elseBlock => "else block"
  | .whileBlock => "while block"
  | .forBlock => "for block"
  | .methodBody => "method body"
  | .caseBlock => "case block"
  | .tryBlock => "try block"
  | .catchBlock => "catch block"
  | .finallyBlock => "finally block"
  | .arrowBody => "arrow function body"

inductive Complaint where
  | emptyStream | endMissing | nestingTooDeep | unexpectedToken
  | letName | letEquals | letEnd
  | funcWord | functionName | parametersOpen | parameterName | parametersClose
  | returnEnd | breakEnd | continueEnd | expressionEnd
  | forOpen | forConditionEnd | forClose
  | className | classOpen | memberName | fieldEnd | classClose
  | switchOpen | caseColon | defaultColon | clauseLabel | switchClose
  | importPath | importEnd
  | catchName | catchClose
  | conditionOpen (construct : Construct) | conditionClose (construct : Construct)
  | blockOpen (place : BlockPlace) | blockClose (place : BlockPlace)
  | assignmentTarget | conditionalColon | indexClose | numeral | newName | arrayClose
  | parenClose | arrowParameters | emptyParens | tuple | argumentsClose | propertyName
deriving DecidableEq, Repr

def Complaint.message : Complaint → String
  | .emptyStream => "token stream is empty"
  | .endMissing => "token stream must end with EOF"
  | .nestingTooDeep => "Nesting too deep"
  | .unexpectedToken => "Unexpected token found during parsing"
  | .letName => "Expected identifier name following let"
  | .letEquals => "Expected = following identifier in let declaration"
  | .letEnd => "Variable declaration must end with ;"
  | .funcWord => "Expected func after async"
  | .functionName => "Expected function name following func"
  | .parametersOpen => "Expected ( to open parameter list"
  | .parameterName => "Function parameters must be identifiers"
  | .parametersClose => "Expected ) to close parameter list"
  | .returnEnd => "Expected ; after return statement"
  | .breakEnd => "Expected ; after break"
  | .continueEnd => "Expected ; after continue"
  | .expressionEnd => "Expected ; after expression"
  | .forOpen => "Expected ( after for"
  | .forConditionEnd => "Expected ; after loop condition"
  | .forClose => "Expected ) after loop update"
  | .className => "Expected class name following class"
  | .classOpen => "Expected \x7b after class name"
  | .memberName => "Expected member name"
  | .fieldEnd => "Expected ; after field declaration"
  | .classClose => "Expected \x7d after class body"
  | .switchOpen => "Expected \x7b after switch condition"
  | .caseColon => "Expected : after case value"
  | .defaultColon => "Expected : after default"
  | .clauseLabel => "Expected case or default inside switch"
  | .switchClose => "Expected \x7d after switch body"
  | .importPath => "Expected module path string after import"
  | .importEnd => "Expected ; after import"
  | .catchName => "Expected identifier for catch error"
  | .catchClose => "Expected ) after catch parameter"
  | .conditionOpen construct => "Expected ( after " ++ construct.word
  | .conditionClose construct => "Expected ) after " ++ construct.word ++ " condition"
  | .blockOpen place => "Expected \x7b to open " ++ place.phrase
  | .blockClose place => "Expected \x7d to close " ++ place.phrase
  | .assignmentTarget => "Invalid assignment target"
  | .conditionalColon => "Expected : in conditional expression"
  | .indexClose => "Expected ] after index"
  | .numeral => "Invalid numeric literal"
  | .newName => "Expected class name after new"
  | .arrayClose => "Expected ] after array elements"
  | .parenClose => "Expected ) after expression"
  | .arrowParameters => "Arrow function parameters must be identifiers"
  | .emptyParens => "Empty parenthesized expression"
  | .tuple => "Tuple expressions are not supported"
  | .argumentsClose => "Expected ) to close argument list"
  | .propertyName => "Expected property name after ."

structure ParseError where
  complaint : Complaint
  found : String
  position : Position
deriving DecidableEq, Repr

def ParseError.atToken (complaint : Complaint) (t : Token) : ParseError :=
  ⟨complaint, t.text, t.position⟩

end ScriptCpp
