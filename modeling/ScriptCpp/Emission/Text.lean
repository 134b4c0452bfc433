import ScriptCpp.Binary64.Shortest
import ScriptCpp.Emission.Receiver
import ScriptCpp.Emission.SpecialForm

set_option autoImplicit false

namespace ScriptCpp

namespace Emission

def binding (name : String) : String :=
  if name = "main" then "riri_main" else name

def reference (name : String) : String :=
  if name = "null" then "nullptr" else binding name

def parameters (params : List String) : String :=
  commas (params.map fun p => "auto " ++ binding p)

def isLoose : Expr → Bool
  | .binary .. | .assign .. => true
  | _ => false

def piece (e : Expr) (text : String) : Piece := ⟨text, isLoose e⟩

def group (e : Expr) (text : String) : String := (piece e text).grouped

def operandGrouped (parent : Nat) (right : Bool) : Expr → Bool
  | .binary op _ _ => op.precedence < parent || (right && op.precedence = parent)
  | .assign _ _ => true
  | _ => false

def operand (parent : Nat) (right : Bool) (e : Expr) (text : String) : String :=
  if operandGrouped parent right e then "(" ++ text ++ ")" else text

-- Only the first element is looked at.
def elementType : List Expr → String
  | .string _ :: _ => "std::string"
  | _ => "int"

def numericLiteral? : Expr → Option Binary64
  | .number value => some value
  | .negate operand => (numericLiteral? operand).map Binary64.negate
  | _ => none

def fieldType : Expr → String
  | .string _ => "std::string"
  | .array elements => "std::vector<" ++ elementType elements ++ ">"
  | .construct className _ =>
      if className = "Server" then "std::shared_ptr<httplib::Server>"
      else "std::shared_ptr<" ++ className ++ ">"
  | .ident "true" | .ident "false" => "bool"
  | e =>
      match numericLiteral? e with
      | some value => if value.isIntegral then "int" else "double"
      | none => "int"

def indexText (features : Features) (object : Expr) (text key : String) : String :=
  let target := group object text
  if features.http && object.memberName? = some "params" then
    "_riri_get_param(" ++ target ++ ", " ++ key ++ ")"
  else if features.http && object.memberName? = some "query" then
    "_riri_get_query(" ++ target ++ ", " ++ key ++ ")"
  else target ++ "[" ++ key ++ "]"

def memberText (features : Features) (object : Expr) (name text : String) : String :=
  let target := group object text
  if features.http && name = "params" then target ++ ".path_params"
  else if features.http && name = "query" then target ++ ".params"
  else
    match ReceiverShape.ofAccess features object name with
    | .value => if name = "length" then target ++ ".size()" else target ++ "." ++ name
    | .reference | .unknown => "(" ++ text ++ ")->" ++ name

-- A server knows three parameters of an arrow function by name.
def arrowParameters (features : Features) (params : List String) : String :=
  let kept := params.filter fun p => !(features.http && p = "next")
  commas (kept.map fun p =>
    if features.http && p = "req" then "const httplib::Request& req"
    else if features.http && p = "res" then "httplib::Response& res"
    else "auto " ++ binding p)

def inMain : Stmt → Bool
  | .classDecl _ | .function _ => false
  | _ => true

end Emission

end ScriptCpp
