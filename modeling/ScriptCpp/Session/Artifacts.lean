import ScriptCpp.Session.Failure

set_option autoImplicit false

namespace ScriptCpp

structure Artifacts where
  cpp : Path
  program : Path
deriving DecidableEq, Repr

namespace Artifacts

def ofFile (outDir file : Path) : Except Failure Artifacts :=
  match file.stem? with
  | none => .error (.unnamed file)
  | some stem => .ok ⟨outDir.join ⟨stem ++ ".cpp"⟩, outDir.join ⟨stem⟩⟩

def compilerArguments (a : Artifacts) (optimize : Bool) (extra : List String) : List String :=
  ["-std=c++20", if optimize then "-O3" else "-O0", a.cpp.text, "-o", a.program.text,
    "-lpthread"] ++ extra

end Artifacts

namespace Toolkit

def query : Launch :=
  ⟨"pkg-config", ["--cflags", "--libs", "Qt6Widgets", "Qt6Core", "Qt6Gui"]⟩

def isBlank (c : Char) : Bool :=
  let n := c.toNat
  (0x09 ≤ n && n ≤ 0x0d) || n = 0x20 || n = 0x85 || n = 0xa0 || n = 0x1680 ||
    (0x2000 ≤ n && n ≤ 0x200a) || n = 0x2028 || n = 0x2029 || n = 0x202f || n = 0x205f || n = 0x3000

def wordsFrom (word : List Char) : List Char → List String
  | [] => if word.isEmpty then [] else [String.ofList word.reverse]
  | c :: rest =>
      if isBlank c then
        if word.isEmpty then wordsFrom [] rest
        else String.ofList word.reverse :: wordsFrom [] rest
      else wordsFrom (c :: word) rest

def flags (answer : String) : List String := wordsFrom [] answer.toList

end Toolkit

end ScriptCpp
