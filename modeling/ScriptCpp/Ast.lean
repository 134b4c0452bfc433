import ScriptCpp.Binary64

set_option autoImplicit false

namespace ScriptCpp

inductive BinaryOp where
  | add | sub | mul | div | mod
  | eq | ne | lt | gt | le | ge
  | and | or
deriving DecidableEq, Repr

namespace BinaryOp

def symbol : BinaryOp → String
  | .add => "+"
  | .sub => "-"
  | .mul => "*"
  | .div => "/"
  | .mod => "%"
  | .eq => "=="
  | .ne => "!="
  | .lt => "<"
  | .gt => ">"
  | .le => "<="
  | .ge => ">="
  | .and => "&&"
  | .or => "||"

/-- How tightly the operator binds in C++, where equality is looser than the order relations. -/
def precedence : BinaryOp → Nat
  | .or => 1
  | .and => 2
  | .eq | .ne => 3
  | .lt | .gt | .le | .ge => 4
  | .add | .sub => 5
  | .mul | .div | .mod => 6

end BinaryOp

mutual

inductive Expr where
  | assign (target value : Expr)
  | binary (op : BinaryOp) (left right : Expr)
  | negate (operand : Expr)
  | conditional (test consequent alternate : Expr)
  | call (callee : Expr) (args : List Expr)
  | member (object : Expr) (name : String)
  | index (object : Expr) (key : Expr)
  | construct (className : String) (args : List Expr)
  | array (elements : List Expr)
  | ident (name : String)
  | number (value : Binary64)
  | string (raw : String)
  | this
  | await (promise : Expr)
  | arrowBlock (params : List String) (body : List Stmt)
  | arrowValue (params : List String) (value : Expr)

inductive Stmt where
  | declare (name : String) (value : Option Expr)
  | function (decl : FunctionDecl)
  | classDecl (decl : ClassDecl)
  | importFile (path : String)
  | ret (value : Option Expr)
  /-- `else if` is an `else` part that holds one branch and nothing else. -/
  | branch (condition : Expr) (body : List Stmt) (otherwise : Option (List Stmt))
  | whileLoop (condition : Expr) (body : List Stmt)
  | forLoop (start : Option Stmt) (condition update : Option Expr) (body : List Stmt)
  | switch (subject : Expr) (cases : List CaseClause) (fallback : Option (List Stmt))
  | breakLoop
  | continueLoop
  | attempt (body : List Stmt) (handler : Option CatchClause) (cleanup : Option (List Stmt))
  | expr (value : Expr)

structure FunctionDecl where
  name : String
  params : List String
  body : List Stmt
  isAsync : Bool

structure FieldDecl where
  name : String
  value : Option Expr

structure ClassDecl where
  name : String
  fields : List FieldDecl
  methods : List FunctionDecl

structure CaseClause where
  test : Expr
  body : List Stmt

structure CatchClause where
  param : Option String
  body : List Stmt

end

abbrev Program := List Stmt

namespace Expr

def isName (e : Expr) (text : String) : Bool :=
  match e with
  | .ident name => name == text
  | _ => false

def name? : Expr → Option String
  | .ident name => some name
  | _ => none

def memberName? : Expr → Option String
  | .member _ name => some name
  | _ => none

end Expr

def Stmt.expr? : Stmt → Option Expr
  | .expr value => some value
  | _ => none

end ScriptCpp
