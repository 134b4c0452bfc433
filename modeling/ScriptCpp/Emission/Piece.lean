import ScriptCpp.Ast

set_option autoImplicit false

namespace ScriptCpp

inductive EmitError where
  | tooFewArguments (form : String) (least given : Nat)
  | loopStart
  | missingReceiver
  | missingArgument (given : Nat)
deriving DecidableEq, Repr

def EmitError.message : EmitError → String
  | .tooFewArguments form least given =>
      "`" ++ form ++ "` expects at least " ++ toString least ++ " argument(s), got " ++
        toString given
  | .loopStart => "for-loop initializer must be a declaration or expression"
  | .missingReceiver => "method form without a receiver"
  | .missingArgument given => "index out of bounds: the len is " ++ toString given

-- The text of an expression; loose text has an operator outside all brackets.
structure Piece where
  text : String
  loose : Bool

def Piece.grouped (p : Piece) : String :=
  if p.loose then "(" ++ p.text ++ ")" else p.text

def commas (texts : List String) : String :=
  ", ".intercalate texts

def indentation : Nat → String
  | 0 => ""
  | depth + 1 => "    " ++ indentation depth

def line (depth : Nat) (text : String) : String :=
  indentation depth ++ text ++ "\n"

end ScriptCpp
