import ScriptCpp.Fault
import ScriptCpp.Text.Bytes

set_option autoImplicit false

namespace ScriptCpp

abbrev Location := List String

def Location.path (place : Location) : Path := ⟨"/" ++ Path.slashed place⟩

inductive Node where
  | directory
  | file (content : ByteArray) (runnable : Bool)
deriving DecidableEq

structure Tree where
  nodes : List (Location × Node)
deriving DecidableEq

namespace Tree

def empty : Tree := ⟨[]⟩

def get? (t : Tree) : Location → Option Node
  | [] => some .directory
  | place => (t.nodes.find? fun n => n.1 = place).map Prod.snd

def erase (t : Tree) (place : Location) : Tree :=
  ⟨t.nodes.filter fun n => n.1 ≠ place⟩

def set (t : Tree) (place : Location) (node : Node) : Tree :=
  ⟨(place, node) :: (t.erase place).nodes⟩

theorem mem_of_get? {t : Tree} {place : Location} {node : Node} (h : t.get? place = some node)
    (notRoot : place ≠ []) : (place, node) ∈ t.nodes := by
  cases place with
  | nil => exact absurd rfl notRoot
  | cons name rest =>
      simp only [get?, Option.map_eq_some_iff] at h
      obtain ⟨found, search, rfl⟩ := h
      have same : found.1 = name :: rest := by simpa using List.find?_some search
      rw [← same]
      exact List.mem_of_find?_eq_some search

@[simp]
theorem get?_set_self (t : Tree) (place : Location) (node : Node) (h : place ≠ []) :
    (t.set place node).get? place = some node := by
  cases place with
  | nil => exact absurd rfl h
  | cons _ _ => simp [get?, set]

theorem find?_erase (t : Tree) {place other : Location} (h : other ≠ place) :
    ((t.erase place).nodes.find? fun n => n.1 = other) = t.nodes.find? fun n => n.1 = other := by
  simp only [erase, List.find?_filter]
  congr 1
  funext n
  by_cases here : n.1 = other <;> simp [here, h]

theorem get?_set_of_ne (t : Tree) {place other : Location} (node : Node) (h : other ≠ place) :
    (t.set place node).get? other = t.get? other := by
  cases other with
  | nil => rfl
  | cons _ _ => simp [get?, set, find?_erase t h, Ne.symm h]

theorem get?_erase_of_ne (t : Tree) {place other : Location} (h : other ≠ place) :
    (t.erase place).get? other = t.get? other := by
  cases other with
  | nil => rfl
  | cons _ _ => simp [get?, find?_erase t h]

theorem get?_erase_self (t : Tree) (place : Location) (h : place ≠ []) :
    (t.erase place).get? place = none := by
  cases place with
  | nil => exact absurd rfl h
  | cons _ _ => simp [get?, erase]

def isDirectory (t : Tree) (place : Location) : Bool := t.get? place = some .directory

def isFile (t : Tree) (place : Location) : Bool :=
  match t.get? place with
  | some (.file _ _) => true
  | _ => false

-- Longest name and longest path, in bytes.
def nameLimit : Nat := 255
def pathLimit : Nat := 4095

def malformed? (p : Path) : Option FileError :=
  if p.text.toList.contains '\x00' then some .nulInName
  else if p.text.isEmpty then some .noEntry
  else none

def refusal? (p : Path) : Option FileError :=
  match malformed? p with
  | some e => some e
  | none => if pathLimit < p.text.utf8ByteSize then some .nameTooLong else none

def approach (t : Tree) (place : Location) (segment : List Char) : Except FileError Location :=
  match t.get? place with
  | none => .error .noEntry
  | some (.file _ _) => .error .notDirectory
  | some .directory =>
      if Path.isSilent segment then .ok place
      else if segment = ['.', '.'] then .ok place.dropLast
      else
        let name := String.ofList segment
        if nameLimit < name.utf8ByteSize then .error .nameTooLong else .ok (place ++ [name])

def step (t : Tree) (place : Location) (segment : List Char) : Except FileError Location :=
  match t.approach place segment with
  | .error e => .error e
  | .ok next => if (t.get? next).isSome then .ok next else .error .noEntry

def start (home : Location) (p : Path) : Location := if p.isAbsolute then [] else home

def walk (t : Tree) (home : Location) (p : Path) : Except FileError Location :=
  (Path.segments p.text.toList).foldlM t.step (start home p)

def locate (t : Tree) (home : Location) (p : Path) : Except FileError Location :=
  match refusal? p with
  | some e => .error e
  | none => t.walk home p

def trace (t : Tree) (home : Location) (p : Path) : Except FileError Location :=
  match malformed? p with
  | some e => .error e
  | none => t.walk home p

def holdsDirectory (t : Tree) (home : Location) (p : Path) : Bool :=
  match t.locate home p with
  | .ok place => t.isDirectory place
  | .error _ => false

def read (t : Tree) (home : Location) (p : Path) : Except FileError ByteArray := do
  match t.get? (← t.locate home p) with
  | some (.file content _) => .ok content
  | some .directory => .error .isDirectory
  | none => .error .noEntry

def readText (t : Tree) (home : Location) (p : Path) : Except FileError String := do
  match String.fromUTF8? (← t.read home p) with
  | some text => .ok text
  | none => .error .notUtf8

/-- The last part of a path, and the place where a new entry of that name would stand. Slashes at
the end do not count. -/
def slot (t : Tree) (home : Location) (p : Path) : Except FileError (List Char × Location) :=
  match refusal? p with
  | some e => .error e
  | none => do
      let parts := ((Path.segments p.text.toList).reverse.dropWhile List.isEmpty).reverse
      let outer ← parts.dropLast.foldlM t.step (start home p)
      let last := parts.getLast?.getD []
      return (last, ← t.approach outer last)

def isPlain (segment : List Char) : Bool :=
  !Path.isSilent segment && segment ≠ ['.', '.']

def makeDirectory (t : Tree) (home : Location) (p : Path) : Except FileError Tree := do
  let (last, place) ← t.slot home p
  if isPlain last && (t.get? place).isNone then .ok (t.set place .directory) else .error .exists

/-- Makes the first directory of a list that goes outward, and first those further out that it
needs. Those made before a failure stay. -/
def makeChain (t : Tree) (home : Location) : List Path → Except FileError Unit × Tree
  | [] => (.ok (), t)
  | p :: outer =>
      let settled (t : Tree) (e : FileError) : Except FileError Unit × Tree :=
        (if t.holdsDirectory home p then .ok () else .error e, t)
      match t.makeDirectory home p with
      | .ok t => (.ok (), t)
      | .error .noEntry =>
          match t.makeChain home outer with
          | (.error e, t) => (.error e, t)
          | (.ok (), t) =>
              match t.makeDirectory home p with
              | .ok t => (.ok (), t)
              | .error e => settled t e
      | .error e => settled t e

def outward : Nat → Path → List Path
  | 0, _ => []
  | limit + 1, p =>
      if p.text.isEmpty then []
      else p :: match p.parent? with
        | some q => outward limit q
        | none => []

def makeDirectories (t : Tree) (home : Location) (p : Path) : Except FileError Unit × Tree :=
  t.makeChain home (outward p.text.length p)

/-- Writes a file anew. One that was there stays as runnable as it was. -/
def write (t : Tree) (home : Location) (p : Path) (content : ByteArray) :
    Except FileError Tree := do
  let (last, place) ← t.slot home p
  if !isPlain last || p.text.toList.getLast? = some '/' then .error .isDirectory
  else
    match t.get? place with
    | some .directory => .error .isDirectory
    | some (.file _ runnable) => .ok (t.set place (.file content runnable))
    | none => .ok (t.set place (.file content false))

def remove (t : Tree) (home : Location) (p : Path) : Tree :=
  match t.locate home p with
  | .ok place => if t.isFile place then t.erase place else t
  | .error _ => t

def withRunnable (t : Tree) (home : Location) (p : Path) (runnable : Bool) :
    Except FileError Tree := do
  let place ← t.locate home p
  match t.get? place with
  | some (.file content _) => .ok (t.set place (.file content runnable))
  | some .directory => .ok t
  | none => .error .noEntry

def below (t : Tree) (place : Location) : List (Location × Node) :=
  t.nodes.filterMap fun n =>
    if place.isPrefixOf n.1 && n.1 ≠ place then some (n.1.drop place.length, n.2) else none

end Tree

end ScriptCpp
