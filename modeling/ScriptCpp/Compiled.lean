import ScriptCpp.Linking.Linker

set_option autoImplicit false

namespace ScriptCpp

structure Compiled where
  cpp : String
  files : List Path
deriving DecidableEq, Repr

namespace Compiled

def ofLinked (features : Features) (linked : Linked) : Except Fault Compiled := do
  let program ← linked.result
  let cpp ← program.toCpp features
  return ⟨cpp, linked.visited.paths⟩

def ofFile (source : ModuleSource) (features : Features) (path : Path) : Except Fault Compiled :=
  ofLinked features (.ofEntry source .empty path)

def ofText (source : ModuleSource) (features : Features) (text : String) (base : Path) :
    Except Fault Compiled := do
  let program ← Program.ofText text
  ofLinked features (.ofProgram source .empty program base)

end Compiled

end ScriptCpp
