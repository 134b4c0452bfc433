import ScriptCpp.Compiled
import ScriptCpp.Session.Launch

set_option autoImplicit false

namespace ScriptCpp

structure Host (m : Type → Type) where
  compile : Features → Path → m (Except Fault Compiled)
  /-- Makes a directory and those that it lies in; one that is there already is no failure. -/
  makeDirectories : Path → m (Except FileError Unit)
  write : Path → String → m (Except FileError Unit)
  remove : Path → m Unit
  isDirectory : Path → m Bool
  /-- Every file below a directory, as paths that start with the directory's own text. -/
  filesBelow : Path → m (List Path)
  launch : Launch → m (Except FileError Outcome)
  print : ByteArray → m Unit

def Host.say {m : Type → Type} (host : Host m) (text : String) : m Unit := host.print text.toUTF8

end ScriptCpp
