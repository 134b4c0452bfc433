set_option autoImplicit false

namespace ScriptCpp

/-- Optional parts of the target: a widget toolkit and an HTTP server library. -/
structure Features where
  gui : Bool
  http : Bool
deriving DecidableEq, Repr

end ScriptCpp
