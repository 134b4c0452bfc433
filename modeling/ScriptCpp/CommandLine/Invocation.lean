import ScriptCpp.Emission.Features
import ScriptCpp.Path

set_option autoImplicit false

namespace ScriptCpp

inductive Command where
  | print (file : Path)
  | build (file : Path)
  | run (file : Path)
  | test (directory : Path)
deriving DecidableEq, Repr

structure Settings where
  features : Features
  keepCpp : Bool
  verbose : Bool
  optimize : Bool
  outDir : Option Path
  compiler : String
deriving DecidableEq, Repr

structure Invocation where
  command : Command
  settings : Settings
deriving DecidableEq, Repr

inductive UsageStop where
  | missingOperand
  | missingCommand
  | unknownCommand
  | unknownArgument
  | badValue
  | repeated
  | needlessValue
  | help
  | helpForEmpty
  | version
deriving DecidableEq, Repr

end ScriptCpp
