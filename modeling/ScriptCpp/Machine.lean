import ScriptCpp.Files.Source
import ScriptCpp.Session.Host

set_option autoImplicit false

namespace ScriptCpp

structure Machine where
  tree : Tree
  home : Location
  output : ByteArray

/-- Runs a program seen from a directory, and gives the tree that it leaves. -/
abbrev Launcher := Tree → Location → Launch → Except FileError Outcome × Tree

namespace Machine

def filesBelow (t : Tree) (home : Location) (p : Path) : List Path :=
  match t.locate home p with
  | .error _ => []
  | .ok place =>
      (t.below place).filterMap fun n =>
        match n.2 with
        | .file _ _ => some (p.join ⟨Path.slashed n.1⟩)
        | .directory => none

def makeDirectories (p : Path) : StateM Machine (Except FileError Unit) := fun s =>
  let (result, t) := s.tree.makeDirectories s.home p
  (result, { s with tree := t })

def write (p : Path) (text : String) : StateM Machine (Except FileError Unit) := fun s =>
  match s.tree.write s.home p text.toUTF8 with
  | .error e => (.error e, s)
  | .ok t => (.ok (), { s with tree := t })

def launch (launcher : Launcher) (what : Launch) : StateM Machine (Except FileError Outcome) :=
  fun s =>
    let (result, t) := launcher s.tree s.home what
    (result, { s with tree := t })

def host (launcher : Launcher) : Host (StateM Machine) where
  compile features file := fun s => (Compiled.ofFile (s.tree.source s.home) features file, s)
  makeDirectories := makeDirectories
  write := write
  remove p := fun s => ((), { s with tree := s.tree.remove s.home p })
  isDirectory p := fun s => (s.tree.holdsDirectory s.home p, s)
  filesBelow p := fun s => (filesBelow s.tree s.home p, s)
  launch := launch launcher
  print bytes := fun s => ((), { s with output := s.output ++ bytes })

end Machine

end ScriptCpp
