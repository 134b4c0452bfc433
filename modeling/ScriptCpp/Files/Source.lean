import ScriptCpp.Files.Tree
import ScriptCpp.Linking.Source

set_option autoImplicit false

namespace ScriptCpp

namespace Tree

def modulePaths (t : Tree) : List Path := t.nodes.map fun n => Location.path n.1

def entry (t : Tree) (home : Location) (p : Path) : Except FileError Path :=
  match t.trace home p with
  | .error e => .error e
  | .ok place => if t.isFile place then .ok place.path else .error (.notFile p)

def resolve (t : Tree) (home : Location) (spec : String) (base : Path) : Except Path Path :=
  let candidate := base.join ⟨spec⟩
  match t.locate home candidate with
  | .error _ => .error candidate
  | .ok place => if t.isFile place then .ok place.path else .error candidate

theorem path_mem_modulePaths {t : Tree} {place : Location} (h : t.isFile place = true) :
    place.path ∈ t.modulePaths := by
  simp only [isFile] at h
  split at h
  · next content runnable found =>
      have notRoot : place ≠ [] := by
        rintro rfl
        simp [get?] at found
      exact List.mem_map.mpr ⟨_, mem_of_get? found notRoot, rfl⟩
  · cases h

theorem resolve_mem {t : Tree} {home : Location} {spec : String} {base path : Path}
    (h : t.resolve home spec base = .ok path) : path ∈ t.modulePaths := by
  unfold resolve at h
  extract_lets at h
  split at h
  · cases h
  · split at h
    · next file => cases h; exact path_mem_modulePaths file
    · cases h

def source (t : Tree) (home : Location) : ModuleSource where
  modules := t.modulePaths
  entry := t.entry home
  resolve := t.resolve home
  read p := (t.readText home p).mapError .unreadable
  resolve_mem := resolve_mem

end Tree

end ScriptCpp
