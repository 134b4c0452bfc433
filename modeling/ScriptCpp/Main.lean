import ScriptCpp.CommandLine.Reader
import ScriptCpp.Files.Snapshot
import ScriptCpp.Session

set_option autoImplicit false

namespace ScriptCpp

namespace Disk

def errorCode : IO.Error → Nat
  | .noFileOrDirectory _ code _ => code.toNat
  | .alreadyExists _ code _ => code.toNat
  | .permissionDenied _ code _ => code.toNat
  | .inappropriateType _ code _ => code.toNat
  | .invalidArgument _ code _ => code.toNat
  | .otherError code _ => code.toNat
  | _ => 0

def attempt {α : Type} (action : IO α) : IO (Except FileError α) := do
  try return .ok (← action)
  catch e => return .error (.ofCode (errorCode e))

def place (p : Path) : IO (Except FileError Path) := do
  match ← attempt (IO.FS.realPath p.text) with
  | .error e => return .error e
  | .ok found =>
      if ← found.isDir then return .error (.notFile p) else return .ok ⟨found.toString⟩

def text (p : Path) : IO (Except FileError String) := do
  match ← attempt (IO.FS.readBinFile p.text) with
  | .error e => return .error e
  | .ok content =>
      match String.fromUTF8? content with
      | some text => return .ok text
      | none => return .error .notUtf8

def imports (program : Program) : List String :=
  program.filterMap fun
    | .importFile spec => some spec
    | _ => none

partial def gather (s : Snapshot) (p : Path) : IO Snapshot := do
  if (s.place? p).isSome then return s
  let found ← place p
  let s := { s with places := (p, found) :: s.places }
  match found with
  | .error _ => return s
  | .ok file =>
      if (s.text? file).isSome then return s
      let content ← text file
      let s := { s with texts := (file, content) :: s.texts }
      match content with
      | .error _ => return s
      | .ok text =>
          match Program.ofText text with
          | .error _ => return s
          | .ok program =>
              (imports program).foldlM (fun s spec => gather s (file.directory.join ⟨spec⟩)) s

partial def filesBelow (p : Path) : IO (List Path) := do
  let entries ← (← IO.FS.realPath p.text).readDir
  let found ← entries.toList.mapM fun entry => do
    let child := p.join ⟨entry.fileName⟩
    if ← entry.path.isDir then filesBelow child else return [child]
  return found.flatten

def host : Host IO where
  compile features file := do
    return Compiled.ofFile (← gather .empty file).source features file
  makeDirectories p := attempt (IO.FS.createDirAll p.text)
  write p text := attempt (IO.FS.writeFile p.text text)
  remove p := do
    let _ ← attempt (IO.FS.removeFile p.text)
  isDirectory p := do
    match ← attempt (IO.FS.realPath p.text) with
    | .ok found => found.isDir
    | .error _ => return false
  filesBelow := filesBelow
  launch _ := return .error .unsupported
  print bytes := do
    let out ← IO.getStdout
    out.write bytes
    out.flush

end Disk

def usage : String :=
  "Usage: rrc [OPTIONS] <COMMAND>\n\n" ++
  "Commands:\n" ++
  "  show <FILE>   Print the generated C++\n" ++
  "  build <FILE>  Compile to a native program\n" ++
  "  run <FILE>    Build, run and clean up\n" ++
  "  test [DIR]    Build and run every .rr file under a directory\n\n" ++
  "Options: --gui --http --keep-cpp --verbose --out-dir <DIR> --cxx <CXX> --no-optimize\n"

def commandLine (args : List String) : IO UInt32 := do
  match Invocation.ofArguments args with
  | .error .help =>
      IO.print usage
      return 0
  | .error .version =>
      IO.println "rrc 0.1.0"
      return 0
  | .error _ =>
      IO.eprint usage
      return 2
  | .ok invocation =>
      match ← (invocation.perform Disk.host).run with
      | .ok () => return 0
      | .error failure =>
          IO.eprintln ("Error: " ++ failure.message)
          return 1

end ScriptCpp

def main (args : List String) : IO UInt32 := ScriptCpp.commandLine args
