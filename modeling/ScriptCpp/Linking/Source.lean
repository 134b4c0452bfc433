import ScriptCpp.Fault

set_option autoImplicit false

namespace ScriptCpp

structure ModuleSource where
  modules : List Path
  entry : Path → Except FileError Path
  /-- The module that an import in a directory means; a failure gives the path that was tried. -/
  resolve : String → Path → Except Path Path
  read : Path → Except ImportCause String
  resolve_mem : ∀ {spec base path}, resolve spec base = .ok path → path ∈ modules

/-- Texts under normalized paths; a later text replaces an earlier one. -/
structure Shelf where
  files : List (Path × String)
deriving DecidableEq, Repr

namespace Shelf

def empty : Shelf := ⟨[]⟩

def insert (s : Shelf) (path : Path) (text : String) : Shelf :=
  ⟨(path.normalize, text) :: s.files.filter fun f => f.1 ≠ path.normalize⟩

def ofList (files : List (Path × String)) : Shelf :=
  files.foldl (fun s f => s.insert f.1 f.2) empty

def get? (s : Shelf) (path : Path) : Option String :=
  (s.files.find? fun f => f.1 = path.normalize).map Prod.snd

def paths (s : Shelf) : List Path := s.files.map Prod.fst

def entry (s : Shelf) (path : Path) : Except FileError Path :=
  if path.normalize ∈ s.paths then .ok path.normalize else .error (.absent path)

def resolve (s : Shelf) (spec : String) (base : Path) : Except Path Path :=
  let candidate := (base.join ⟨spec⟩).normalize
  if candidate ∈ s.paths then .ok candidate else .error candidate

def read (s : Shelf) (path : Path) : Except ImportCause String :=
  match s.get? path with
  | some text => .ok text
  | none => .error .unlisted

theorem resolve_mem {s : Shelf} {spec : String} {base path : Path}
    (h : s.resolve spec base = .ok path) : path ∈ s.paths := by
  simp only [resolve] at h
  split at h
  · next present => cases h; exact present
  · cases h

def source (s : Shelf) : ModuleSource where
  modules := s.paths
  entry := s.entry
  resolve := s.resolve
  read := s.read
  resolve_mem := resolve_mem

end Shelf

end ScriptCpp
