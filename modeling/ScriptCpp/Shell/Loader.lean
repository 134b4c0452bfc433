import ScriptCpp.Session.Launch
import ScriptCpp.Shell.Reader
import ScriptCpp.Shell.Utility

set_option autoImplicit false

namespace ScriptCpp

namespace Shell

def interpreters : List String := ["sh", "dash", "bash"]

def systemDirectories : List Location := [["bin"], ["usr", "bin"]]

def systemNames : List String := interpreters ++ "env" :: Utility.names

def binary (name : String) : ByteArray := ("\x7f\x00" ++ name).toUTF8

def systemName? (content : ByteArray) : Option String :=
  systemNames.find? fun name => content = binary name

def install (t : Tree) : Tree :=
  let directories := [["bin"], ["usr"], ["usr", "bin"]]
  let t := directories.foldl (fun t place => t.set place .directory) t
  systemDirectories.foldl (fun t directory =>
    systemNames.foldl (fun t name => t.set (directory ++ [name]) (.file (binary name) true)) t) t

-- How much of a file is looked at to see what runs it.
def headerSize : Nat := 256

def trimmedRight (chars : List Char) : List Char := (chars.reverse.dropWhile isBlank).reverse

def endsProgram (c : Char) : Bool := isBlank c || c = '\x00'

/-- The line that names the program for a file, from the text after its mark. A line that does not
end in time must at least show the program's name whole. -/
def headerLine? (text : List Char) : Option (List Char) :=
  if text.contains '\n' then some (trimmedRight (text.takeWhile (· != '\n')))
  else if ((text.dropWhile isBlank).dropWhile fun c => !endsProgram c).isEmpty then none
  else some (trimmedRight text.dropLast)

def interpreter? (content : ByteArray) : Option (Path × List String) := do
  let header := (Bytes.spread content).toList.take headerSize
  match header ++ List.replicate (headerSize - header.length) '\x00' with
  | '#' :: '!' :: text =>
      let line := (← headerLine? text).dropWhile isBlank
      if line.isEmpty then none
      else
        let program := line.takeWhile fun c => !endsProgram c
        let after := line.drop program.length
        let argument := (after.dropWhile isBlank).takeWhile (· != '\x00')
        let given := match after.head? with
          | some c => isBlank c
          | none => false
        some (pathOf (String.ofList program), if given then [String.ofList argument] else [])
  | _ => none

def runnable (t : Tree) (home : Location) (p : Path) : Except FileError ByteArray := do
  match t.get? (← t.locate home p) with
  | some (.file content true) => .ok content
  | _ => .error .permission

-- How many files in a row are looked into for the program that runs the one before.
def loadLimit : Nat := 6

def load (t : Tree) (home : Location) : Nat → Path → List String →
    Except FileError (String × List String)
  | 0, p, _ => do
      let _ ← runnable t home p
      .error .loop
  | limit + 1, p, args => do
      let content ← runnable t home p
      match systemName? content with
      | some name => .ok (name, args)
      | none =>
          match interpreter? content with
          | some (program, extra) =>
              -- An empty name is the directory itself.
              if program.text.isEmpty then .error .permission
              else load t home limit program (extra ++ Bytes.spread p.text.toUTF8 :: args)
          | none => .error .execFormat

/-- Loads the first program of some name that can be, in the order of the directories. One that may
not run is passed over, and only remembered as the reason. -/
def search (t : Tree) (home : Location) (name : Path) (args : List String) (refused : Bool) :
    List Path → Except FileError (String × List String)
  | [] => .error (if refused then .permission else .noEntry)
  | directory :: rest =>
      match load t home loadLimit (directory.join name) args with
      | .ok loaded => .ok loaded
      | .error .permission => search t home name args true rest
      | .error .noEntry | .error .notDirectory => search t home name args refused rest
      | .error e => .error e

def find (searchPath : List Path) (t : Tree) (home : Location) (what : Launch) :
    Except FileError (String × List String) :=
  if what.program.isEmpty then .error .noEntry
  else if what.program.toList.contains '/' then
    load t home loadLimit (pathOf what.program) what.arguments
  else search t home (pathOf what.program) what.arguments false searchPath

end Shell

end ScriptCpp
