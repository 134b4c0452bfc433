import ScriptCpp.Fault
import ScriptCpp.Session.Launch
import ScriptCpp.Text.Visible

set_option autoImplicit false

namespace ScriptCpp

inductive Failure where
  | uncompiled (file : Path) (fault : Fault)
  | unnamed (file : Path)
  | noDirectory (directory : Path) (error : FileError)
  | unwritten (path : Path) (error : FileError)
  | compilerUnlaunched (compiler : String) (error : FileError)
  | compilerFailed (cpp : Path) (status : Status)
  | programUnlaunched (program : Path) (error : FileError)
  | programFailed (file : Path) (status : Status)
  | noTests (directory : Path)
  | testsFailed (count : Nat)
deriving DecidableEq, Repr

namespace Failure

def hexDigits (n : Nat) : String := String.ofList (Nat.toDigits 16 n)

def quotedChar (c : Char) : String :=
  if c = '"' then "\\\""
  else if c = '\\' then "\\\\"
  else if c = '\n' then "\\n"
  else if c = '\r' then "\\r"
  else if c = '\t' then "\\t"
  else if c = '\x00' then "\\0"
  else if isVisible c then c.toString
  else "\\u\x7b" ++ hexDigits c.toNat ++ "\x7d"

def quoted (text : String) : String :=
  "\"" ++ String.join (text.toList.map quotedChar) ++ "\""

-- A file that could not be read is named as the reason and once more as its own cause.
def faultChain (fault : Fault) : String :=
  match fault with
  | .source error => fault.message ++ ": " ++ error.message
  | _ => fault.message

def message : Failure → String
  | .uncompiled file fault => "failed to compile " ++ file.text ++ ": " ++ faultChain fault
  | .unnamed file => file.text ++ " has no file name"
  | .noDirectory directory error =>
      "failed to create directory " ++ quoted directory.text ++ ": " ++ error.message
  | .unwritten path error => "failed to write output file " ++ path.text ++ ": " ++ error.message
  | .compilerUnlaunched compiler error =>
      "failed to launch C++ compiler `" ++ compiler ++ "`: " ++ error.message
  | .compilerFailed cpp status =>
      "C++ compilation of " ++ cpp.text ++ " failed (" ++ status.text ++ ")"
  | .programUnlaunched program error =>
      "failed to execute " ++ program.text ++ ": " ++ error.message
  | .programFailed file status => file.text ++ " exited with " ++ status.text
  | .noTests directory => "test directory " ++ directory.text ++ " does not exist"
  | .testsFailed count => toString count ++ " test file(s) failed"

end Failure

end ScriptCpp
