import ScriptCpp.Emission.Emitter
import ScriptCpp.Fault
import ScriptCpp.Parser.Statement

set_option autoImplicit false

namespace ScriptCpp

namespace Program

def ofText (text : String) : Except Fault Program :=
  match Token.ofText text with
  | .error e => .error (.lexical e)
  | .ok tokens => (ofTokens tokens).mapError .grammar

def toCpp (features : Features) (program : Program) : Except Fault String :=
  (program.emit features).mapError .emission

end Program

end ScriptCpp
