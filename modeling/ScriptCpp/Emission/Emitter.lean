import ScriptCpp.Emission.Prelude
import ScriptCpp.Emission.Text

set_option autoImplicit false

namespace ScriptCpp

-- All emission goes through one emitter, whose depth is that of the line it would write next.
structure Emitter where
  features : Features
  depth : Nat
deriving DecidableEq, Repr

def Emitter.new (features : Features) : Emitter := ⟨features, 0⟩

-- A failure leaves the depth as it is then.
abbrev Scribe (α : Type) := ExceptT EmitError (StateM Emitter) α

namespace Scribe

open Emission

def features : Scribe Features := return (← get).features

def indent : Scribe Unit := modify fun m => { m with depth := m.depth + 1 }

def dedent : Scribe Unit := modify fun m => { m with depth := m.depth - 1 }

def setDepth (depth : Nat) : Scribe Unit := modify fun m => { m with depth := depth }

def putLine (text : String) : Scribe String := return line (← get).depth text

def margin : Scribe String := return indentation (← get).depth

def nested (inside : Scribe String) : Scribe String := do
  indent
  let text ← inside
  dedent
  return text

def braced (head : String) (inside : Scribe String) : Scribe String := do
  let first ← putLine (head ++ " \x7b")
  let text ← nested inside
  let last ← putLine "\x7d"
  return first ++ text ++ last

def inOrder {α : Type} : List (Scribe α) → Scribe (List α)
  | [] => return []
  | act :: rest => do
      let first ← act
      let later ← inOrder rest
      return first :: later

def commaList (args : List (Scribe Piece)) : Scribe String := do
  let pieces ← inOrder args
  return commas (pieces.map Piece.text)

-- What is read is emitted before the next look at the arguments.
def gather (args : List (Scribe Piece)) : List Reading → Scribe (List Piece)
  | [] => return []
  | reading :: rest => do
      let found ← MonadExcept.ofExcept (reading.pick args)
      let first ← inOrder found
      let later ← gather args rest
      return first ++ later

def head (form : SpecialForm) (callee receiver : Scribe Piece) : Scribe Piece :=
  match form.head with
  | .none => return ⟨"", false⟩
  | .callee => callee
  | .receiver => receiver

def lower (form : SpecialForm) (site : CallSite) (callee receiver : Scribe Piece)
    (args : List (Scribe Piece)) : Scribe String := do
  let head ← head form callee receiver
  let pieces ← gather args form.reads
  return form.write site head pieces

def call (site : CallSite) (callee receiver : Scribe Piece) (args : List (Scribe Piece)) :
    Scribe String := do
  match SpecialForm.find? (← features) site with
  | some form =>
      if site.args.length < form.minArgs then
        throw (.tooFewArguments form.name form.minArgs site.args.length)
      else lower form site callee receiver args
  | none =>
      let head ← callee
      let inside ← commaList args
      return head.text ++ "(" ++ inside ++ ")"

-- A handler that is given the next one leaves the request to it.
def passOn (features : Features) (params : List String) : Scribe String :=
  if features.http && params.contains "next" then
    putLine "return httplib::Server::HandlerResponse::Unhandled;"
  else return ""

def arrow (params : List String) (inside : Scribe String) : Scribe String := do
  let features ← features
  let text ← nested do
    let body ← inside
    let last ← passOn features params
    return body ++ last
  let end_ ← margin
  return "[&](" ++ arrowParameters features params ++ ") \x7b\n" ++ text ++ end_ ++ "\x7d"

-- A branch up to the end of its body.
def opening (test body : Scribe String) : Scribe String := do
  let test ← test
  let head ← putLine ("if (" ++ test ++ ") \x7b")
  let text ← nested body
  return head ++ text

def closeArms (out : String) : Nat → Scribe String
  | 0 => return out
  | arms + 1 => do
      dedent
      let last ← putLine "\x7d"
      closeArms (out ++ last) arms

mutual

def expr : Expr → Scribe String
  | .assign target value => do
      let target ← expr target
      let value ← expr value
      return target ++ " = " ++ value
  | .binary op left right => do
      let l ← expr left
      let r ← expr right
      return operand op.precedence false left l ++ " " ++ op.symbol ++ " " ++
        operand op.precedence true right r
  | .negate e => do
      let text ← expr e
      return "(-" ++ group e text ++ ")"
  | .conditional test consequent alternate => do
      let test ← expr test
      let consequent ← expr consequent
      let alternate ← expr alternate
      return "(" ++ test ++ " ? " ++ consequent ++ " : " ++ alternate ++ ")"
  | .call callee args =>
      call ⟨callee, args⟩ (piece callee <$> expr callee) (receiver callee) (pieces args)
  | .member object name => do
      let text ← expr object
      return memberText (← features) object name text
  | .index object key => do
      let text ← expr object
      let key ← expr key
      return indexText (← features) object text key
  | .construct className args =>
      if className = "Server" then pure "std::make_shared<httplib::Server>()"
      else do
        let inside ← commaList (pieces args)
        return "std::make_shared<" ++ className ++ ">(" ++ inside ++ ")"
  | .array elements => do
      let inside ← commaList (pieces elements)
      return "std::vector<" ++ elementType elements ++ ">\x7b" ++ inside ++ "\x7d"
  | .ident name => return reference name
  | .number value => return value.text
  | .string raw => return "std::string(\"" ++ raw ++ "\")"
  | .this => return "this"
  | .await promise => do
      let text ← expr promise
      return "await_result(" ++ text ++ ")"
  | .arrowBlock params body => arrow params (stmts body)
  | .arrowValue params value =>
      arrow params do
        let value ← expr value
        putLine ("return " ++ value ++ ";")

def receiver : Expr → Scribe Piece
  | .member object _ => piece object <$> expr object
  | .index object _ => piece object <$> expr object
  | _ => throw .missingReceiver

def pieces : List Expr → List (Scribe Piece)
  | [] => []
  | e :: rest => (piece e <$> expr e) :: pieces rest

def optional : Option Expr → Scribe String
  | none => return ""
  | some e => expr e

def declared (name : String) : Option Expr → Scribe String
  | none => return "int " ++ binding name
  | some e => do
      let value ← expr e
      return "auto " ++ binding name ++ " = " ++ value

def start : Option Stmt → Scribe String
  | none => return ""
  | some (.declare name value) => declared name value
  | some (.expr e) => expr e
  | some _ => throw .loopStart

def stmt : Stmt → Scribe String
  | .declare name value => do
      let text ← declared name value
      putLine (text ++ ";")
  | .function ⟨name, params, body, _⟩ => do
      let first ← putLine ("auto " ++ binding name ++ " = [&](" ++ parameters params ++ ") \x7b")
      let text ← nested (stmts body)
      let last ← putLine "\x7d;"
      return first ++ text ++ last
  | .classDecl decl => classDecl decl
  | .importFile path => putLine ("// import \"" ++ path ++ "\"")
  | .ret none => putLine "return;"
  | .ret (some value) => do
      let value ← expr value
      putLine ("return " ++ value ++ ";")
  | .branch test body otherwise => do
      let first ← opening (expr test) (stmts body)
      elseChain first 0 otherwise
  | .whileLoop test body => do
      let test ← expr test
      braced ("while (" ++ test ++ ")") (stmts body)
  | .forLoop init test update body => do
      let init ← start init
      let test ← optional test
      let update ← optional update
      braced ("for (" ++ init ++ "; " ++ test ++ "; " ++ update ++ ")") (stmts body)
  | .switch subject cases fallback => do
      let subject ← expr subject
      braced ("switch (" ++ subject ++ ")") do
        let first ← clauses cases
        let last ← defaultClause fallback
        return first ++ last
  | .breakLoop => putLine "break;"
  | .continueLoop => putLine "continue;"
  | .attempt body handler cleanup => do
      let first ← putLine "try \x7b"
      let text ← nested (stmts body)
      let caught ← catchClause handler
      let last ← putLine "\x7d"
      let behind ← finallyBlock cleanup
      return first ++ text ++ caught ++ last ++ behind
  | .expr e => do
      let text ← expr e
      putLine (text ++ ";")

def stmts : List Stmt → Scribe String
  | [] => return ""
  | s :: rest => do
      let first ← stmt s
      let later ← stmts rest
      return first ++ later

-- An arm of the chain is a block inside the `else` of the one before. The blocks stay open, `arms` of
-- them, until the last arm is out.
def elseChain (out : String) (arms : Nat) : Option (List Stmt) → Scribe String
  | none => do
      let last ← putLine "\x7d"
      closeArms (out ++ last) arms
  | some [.branch test body otherwise] => do
      let between ← putLine "\x7d else \x7b"
      indent
      let next ← opening (expr test) (stmts body)
      elseChain (out ++ between ++ next) (arms + 1) otherwise
  | some body => do
      let between ← putLine "\x7d else \x7b"
      let text ← nested (stmts body)
      let last ← putLine "\x7d"
      closeArms (out ++ between ++ text ++ last) arms

-- Clauses fall through as written: no break is added.
def clauses : List CaseClause → Scribe String
  | [] => return ""
  | ⟨test, body⟩ :: rest => do
      let test ← expr test
      let first ← braced ("case " ++ test ++ ":") (stmts body)
      let later ← clauses rest
      return first ++ later

def defaultClause : Option (List Stmt) → Scribe String
  | none => return ""
  | some body => braced "default:" (stmts body)

-- Without a handler the exception is thrown on.
def catchClause : Option CatchClause → Scribe String
  | none => do
      let first ← putLine "\x7d catch (...) \x7b"
      let text ← nested (putLine "throw;")
      return first ++ text
  | some ⟨none, body⟩ => do
      let first ← putLine "\x7d catch (...) \x7b"
      let text ← nested (stmts body)
      return first ++ text
  | some ⟨some param, body⟩ => do
      let first ← putLine "\x7d catch (const std::exception& _e) \x7b"
      let bound ← nested (putLine ("std::string " ++ binding param ++ " = _e.what();"))
      let text ← nested (stmts body)
      return first ++ bound ++ text

-- The block runs after the handlers, and not on an early return.
def finallyBlock : Option (List Stmt) → Scribe String
  | none => return ""
  | some body => do
      let first ← putLine "\x7b"
      let mark ← nested (putLine "// finally")
      let text ← nested (stmts body)
      let last ← putLine "\x7d"
      return first ++ mark ++ text ++ last

def classDecl : ClassDecl → Scribe String
  | ⟨name, held, offered⟩ => do
      let first ← putLine ("struct " ++ name ++ " \x7b")
      let text ← nested do
        let before ← fields held
        let behind ← methods offered
        return before ++ behind
      let last ← putLine "\x7d;"
      return first ++ text ++ last

def fields : List FieldDecl → Scribe String
  | [] => return ""
  | ⟨name, none⟩ :: rest => do
      let first ← putLine ("int " ++ name ++ ";")
      let later ← fields rest
      return first ++ later
  | ⟨name, some value⟩ :: rest => do
      let text ← expr value
      let first ← putLine (fieldType value ++ " " ++ name ++ " = " ++ text ++ ";")
      let later ← fields rest
      return first ++ later

def methods : List FunctionDecl → Scribe String
  | [] => return ""
  | ⟨name, params, body, _⟩ :: rest => do
      let first ← braced ("auto " ++ name ++ "(" ++ parameters params ++ ")") (stmts body)
      let later ← methods rest
      return first ++ later

end

def freeFunction (decl : FunctionDecl) : Scribe String :=
  braced ("auto " ++ binding decl.name ++ "(" ++ parameters decl.params ++ ")") (stmts decl.body)

-- A class or function at the top level, with a blank line after it.
def declaration : Stmt → Scribe String
  | .classDecl decl => do
      let text ← classDecl decl
      return text ++ "\n"
  | .function decl => do
      let text ← freeFunction decl
      return text ++ "\n"
  | _ => return ""

def declarations : List Stmt → Scribe String
  | [] => return ""
  | s :: rest => do
      let first ← declaration s
      let later ← declarations rest
      return first ++ later

def mainHead : Scribe String := do
  if (← features).gui then
    let first ← putLine "QApplication app(argc, argv);"
    let second ← putLine "Document document;"
    return first ++ second
  else putLine "std::srand(std::time(0));"

def mainTail : Scribe String := do
  if (← features).gui then putLine "return app.exec();" else putLine "return 0;"

def mainFunction (body : List Stmt) : Scribe String := do
  setDepth 1
  let head ← mainHead
  let inner ← stmts body
  let tail ← mainTail
  setDepth 0
  return "int main(int argc, char *argv[]) \x7b\n" ++ head ++ inner ++ (tail ++ "\x7d\n")

def program (p : Program) : Scribe String := do
  let support := prelude (← features)
  let units ← declarations p
  let entry ← mainFunction (p.filter inMain)
  return support ++ "\n" ++ units ++ entry

def grouped (e : Expr) : Scribe String := group e <$> expr e

end Scribe

namespace Emitter

def perform {α : Type} (m : Emitter) (act : Scribe α) : Except EmitError α × Emitter :=
  act.run.run m

def expr (m : Emitter) (e : Expr) : Except EmitError String × Emitter := m.perform (Scribe.expr e)

def grouped (m : Emitter) (e : Expr) : Except EmitError String × Emitter := m.perform (Scribe.grouped e)

def args (m : Emitter) (es : List Expr) : Except EmitError String × Emitter :=
  m.perform (Scribe.commaList (Scribe.pieces es))

end Emitter

def Program.emit (features : Features) (program : Program) : Except EmitError String :=
  ((Emitter.new features).perform (Scribe.program program)).1

end ScriptCpp
