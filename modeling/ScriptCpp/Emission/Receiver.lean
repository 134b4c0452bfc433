import ScriptCpp.Ast
import ScriptCpp.Emission.Features

set_option autoImplicit false

namespace ScriptCpp

inductive ReceiverShape where
  | value
  | reference
  | unknown
deriving DecidableEq, Repr

namespace ReceiverShape

/-- Members that only strings and vectors have. -/
def valueMembers : List String :=
  ["length", "size", "substr", "at", "push_back", "pop_back"]

def ofAccess (features : Features) (object : Expr) (property : String) : ReceiverShape :=
  if property = "push" || property = "pop" then .unknown
  else if valueMembers.contains property then .value
  else if features.gui && object.isName "document" then .value
  else if features.http && (property = "params" || property = "query") then .value
  else if features.http && property = "body" && object.isName "req" then .value
  else .reference

end ReceiverShape

end ScriptCpp
