import ScriptCpp.Linking.Source
import ScriptCpp.Program

set_option autoImplicit false

namespace ScriptCpp

inductive Notice where
  | missing (fault : Fault) (file : Path)
  | unparsable (fault : Fault) (file : Path)
  | repeated (spec : String) (file : Path)
deriving DecidableEq, Repr

namespace Notice

def isError : Notice → Bool
  | .repeated _ _ => false
  | _ => true

def message : Notice → String
  | .missing fault _ => fault.message
  | .unparsable fault _ => fault.message
  | .repeated spec _ => "module '" ++ spec ++ "' already imported; skipping"

def file : Notice → Path
  | .missing _ file => file
  | .unparsable _ file => file
  | .repeated _ file => file

def position? : Notice → Option Position
  | .unparsable fault _ => fault.position?
  | _ => none

end Notice

/-- What linking comes to: a program or the fault that stopped it, the files taken in so far, and
the notices given on the way. -/
structure Linked where
  result : Except Fault Program
  visited : PathSet
  notices : List Notice

namespace Linking

structure Pending where
  base : Path
  stmt : Stmt

def pending (base : Path) (program : Program) : List Pending :=
  program.map fun s => ⟨base, s⟩

def unvisited (source : ModuleSource) (visited : PathSet) : Nat :=
  (source.modules.filter fun p => !visited.contains p).length

theorem unvisited_insert {source : ModuleSource} {visited : PathSet} {p : Path}
    (listed : p ∈ source.modules) (fresh : visited.contains p = false) :
    unvisited source (visited.insert p) < unvisited source visited := by
  have smaller : ∀ modules : List Path, p ∈ modules →
      (modules.filter fun q => !(visited.insert p).contains q).length <
        (modules.filter fun q => !visited.contains q).length := by
    intro modules present
    have kept : ∀ ms : List Path,
        (ms.filter fun q => !(visited.insert p).contains q).length ≤
          (ms.filter fun q => !visited.contains q).length := by
      intro ms
      induction ms with
      | nil => simp
      | cons m rest ih =>
          cases old : visited.contains m with
          | true => simpa [old, PathSet.contains_insert visited p m old] using ih
          | false =>
              cases new : (visited.insert p).contains m <;> simp [old, new] <;> omega
    induction modules with
    | nil => cases present
    | cons m rest ih =>
        cases present with
        | head =>
            have smaller := kept rest
            simp [fresh, PathSet.contains_insert_self]
            omega
        | tail _ later =>
            have := ih later
            cases old : visited.contains m with
            | true => simpa [old, PathSet.contains_insert visited p m old] using this
            | false => cases new : (visited.insert p).contains m <;> simp [old, new] <;> omega
  exact smaller source.modules listed

def load (source : ModuleSource) (path : Path) : Except Fault Program × List Notice :=
  match source.read path with
  | .error cause => (.error (.imported cause path), [])
  | .ok text =>
      match Program.ofText text with
      | .error fault => (.error fault, [.unparsable fault path])
      | .ok program => (.ok program, [])

/-- Links what is pending; `done` and `notices` are collected last first. -/
def run (source : ModuleSource) (visited : PathSet) (notices : List Notice) (done : List Stmt)
    (todo : List Pending) : Linked :=
  match todo with
  | [] => ⟨.ok done.reverse, visited, notices.reverse⟩
  | ⟨base, .importFile spec⟩ :: rest =>
      match _h : source.resolve spec base with
      | .error tried =>
          let fault := Fault.imported (.notFound spec) tried
          ⟨.error fault, visited, (.missing fault (base.join ⟨spec⟩) :: notices).reverse⟩
      | .ok path =>
          if _fresh : visited.contains path then
            run source visited (.repeated spec path :: notices) done rest
          else
            match load source path with
            | (.error fault, told) =>
                ⟨.error fault, visited.insert path, (told ++ notices).reverse⟩
            | (.ok program, _) =>
                run source (visited.insert path) notices done
                  (pending path.directory program ++ rest)
  | ⟨_, s⟩ :: rest => run source visited notices (s :: done) rest
termination_by (unvisited source visited, todo.length)
decreasing_by
  · exact Prod.Lex.right _ (Nat.lt_succ_self _)
  · exact Prod.Lex.left _ _ (unvisited_insert (source.resolve_mem _h) (by simpa using _fresh))
  · exact Prod.Lex.right _ (Nat.lt_succ_self _)

end Linking

namespace Linked

def ofProgram (source : ModuleSource) (visited : PathSet) (program : Program) (base : Path) :
    Linked :=
  Linking.run source visited [] [] (Linking.pending base program)

/-- The program of the file to start from, which counts as taken in from the beginning. -/
def ofEntry (source : ModuleSource) (visited : PathSet) (path : Path) : Linked :=
  match source.entry path with
  | .error error => ⟨.error (.source error), visited, []⟩
  | .ok file =>
      let visited := visited.insert file
      match Linking.load source file with
      | (.error fault, told) => ⟨.error fault, visited, told⟩
      | (.ok program, _) => ofProgram source visited program file.directory

end Linked

end ScriptCpp
