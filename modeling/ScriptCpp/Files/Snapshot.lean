import ScriptCpp.Linking.Source

set_option autoImplicit false

namespace ScriptCpp

structure Snapshot where
  places : List (Path × Except FileError Path)
  texts : List (Path × Except FileError String)

namespace Snapshot

def empty : Snapshot := ⟨[], []⟩

def place? (s : Snapshot) (p : Path) : Option (Except FileError Path) :=
  (s.places.find? fun found => found.1 = p).map Prod.snd

def text? (s : Snapshot) (p : Path) : Option (Except FileError String) :=
  (s.texts.find? fun found => found.1 = p).map Prod.snd

def files (s : Snapshot) : List Path := s.places.filterMap fun found => found.2.toOption

def resolve (s : Snapshot) (spec : String) (base : Path) : Except Path Path :=
  let candidate := base.join ⟨spec⟩
  match s.place? candidate with
  | some (.ok file) => .ok file
  | _ => .error candidate

theorem resolve_mem {s : Snapshot} {spec : String} {base file : Path}
    (h : s.resolve spec base = .ok file) : file ∈ s.files := by
  simp only [resolve] at h
  split at h
  · next found =>
      cases h
      simp only [place?, Option.map_eq_some_iff] at found
      obtain ⟨entry, search, named⟩ := found
      exact List.mem_filterMap.mpr
        ⟨entry, List.mem_of_find?_eq_some search, by simp [named, Except.toOption]⟩
  · cases h

def source (s : Snapshot) : ModuleSource where
  modules := s.files
  entry p := (s.place? p).getD (.error .noEntry)
  resolve := s.resolve
  read p := ((s.text? p).getD (.error .noEntry)).mapError .unreadable
  resolve_mem := resolve_mem

end Snapshot

end ScriptCpp
