set_option autoImplicit false

namespace ScriptCpp

structure Path where
  text : String
deriving DecidableEq, Repr

inductive Component where
  | root
  | current
  | parent
  | name (text : String)
deriving DecidableEq, Repr

namespace Component

-- The root first, then a leading dot, then a step up, then names.
def rank : Component → Nat
  | .root => 0
  | .current => 1
  | .parent => 2
  | .name _ => 3

def text : Component → String
  | .root => "/"
  | .current => "."
  | .parent => ".."
  | .name text => text

def order (a b : Component) : Ordering :=
  (compare a.rank b.rank).then (compare a.text b.text)

end Component

namespace Path

def segments : List Char → List (List Char)
  | [] => [[]]
  | c :: rest =>
      if c = '/' then [] :: segments rest
      else
        match segments rest with
        | [] => [[c]]
        | first :: others => (c :: first) :: others

def isSilent (segment : List Char) : Bool :=
  segment.isEmpty || segment = ['.']

def component (segment : List Char) : Component :=
  if segment = ['.', '.'] then .parent else .name (String.ofList segment)

def spoken (parts : List (List Char)) : List Component :=
  (parts.filter fun s => !isSilent s).map component

def isAbsolute (p : Path) : Bool :=
  p.text.toList.head? = some '/'

/-- What a path means, step by step. A dot counts only where it leads a relative path. -/
def components (p : Path) : List Component :=
  match segments p.text.toList with
  | [] => []
  | first :: rest =>
      if p.isAbsolute then .root :: spoken rest
      else if first = ['.'] then .current :: spoken rest
      else spoken (first :: rest)

def slashed (texts : List String) : String := "/".intercalate texts

def ofComponents : List Component → Path
  | .root :: rest => ⟨"/" ++ slashed (rest.map Component.text)⟩
  | cs => ⟨slashed (cs.map Component.text)⟩

def join (base rel : Path) : Path :=
  if rel.isAbsolute then rel
  else if base.text.isEmpty || base.text.toList.getLast? = some '/' then ⟨base.text ++ rel.text⟩
  else ⟨base.text ++ "/" ++ rel.text⟩

def dropSilentEnd (parts : List (List Char)) : List (List Char) :=
  (parts.reverse.dropWhile isSilent).reverse

def slashedChars (parts : List (List Char)) : String :=
  slashed (parts.map String.ofList)

def parent? (p : Path) : Option Path :=
  match segments p.text.toList with
  | [] => none
  | first :: rest =>
      let body := dropSilentEnd rest
      if p.isAbsolute then
        if body.isEmpty then none
        else some ⟨"/" ++ slashedChars (dropSilentEnd body.dropLast)⟩
      else if !body.isEmpty then some ⟨slashedChars (first :: dropSilentEnd body.dropLast)⟩
      else if first.isEmpty then none
      else some ⟨""⟩

def directory (p : Path) : Path := p.parent?.getD ⟨""⟩

def fileName? (p : Path) : Option String :=
  match p.components.getLast? with
  | some (.name text) => some text
  | _ => none

/-- A file name cut at its last dot. A dot that leads the name does not cut. -/
def cutName (name : String) : String × Option String :=
  let reversed := name.toList.reverse
  match reversed.dropWhile (· != '.') with
  | [] | [_] => (name, none)
  | _ :: before =>
      (String.ofList before.reverse, some (String.ofList (reversed.takeWhile (· != '.')).reverse))

def stem? (p : Path) : Option String :=
  p.fileName?.map fun name => (cutName name).1

def extension? (p : Path) : Option String :=
  p.fileName?.bind fun name => (cutName name).2

/-- Takes one more component, innermost first. A step up undoes any step before it; at the root or
at the start there is none to undo, and it stays. -/
def normalStep (stack : List Component) : Component → List Component
  | .current => stack
  | .parent =>
      match stack with
      | [] => [.parent]
      | .root :: rest => .parent :: .root :: rest
      | _ :: rest => rest
  | c => c :: stack

def normalize (p : Path) : Path :=
  ofComponents (p.components.foldl normalStep []).reverse

def order : List Component → List Component → Ordering
  | [], [] => .eq
  | [], _ :: _ => .lt
  | _ :: _, [] => .gt
  | a :: as, b :: bs => (a.order b).then (order as bs)

end Path

/-- Paths in order, no two with the same components. -/
structure PathSet where
  paths : List Path
deriving DecidableEq, Repr

namespace PathSet

def empty : PathSet := ⟨[]⟩

def contains (s : PathSet) (p : Path) : Bool :=
  s.paths.any fun q => q.components = p.components

def insertIn (p : Path) : List Path → List Path
  | [] => [p]
  | q :: rest =>
      match Path.order p.components q.components with
      | .lt => p :: q :: rest
      | .eq => q :: rest
      | .gt => q :: insertIn p rest

def insert (s : PathSet) (p : Path) : PathSet :=
  if s.contains p then s else ⟨insertIn p s.paths⟩

end PathSet

namespace PathSet

theorem mem_insertIn (p q : Path) (paths : List Path) (h : q ∈ paths) : q ∈ insertIn p paths := by
  induction paths with
  | nil => cases h
  | cons r rest ih =>
      simp only [insertIn]
      split
      · exact List.mem_cons_of_mem _ h
      · exact h
      · cases h with
        | head => exact List.mem_cons_self
        | tail _ later => exact List.mem_cons_of_mem _ (ih later)

theorem contains_insert (s : PathSet) (p q : Path) (h : s.contains q = true) :
    (s.insert p).contains q = true := by
  unfold insert
  split
  · exact h
  · simp only [contains, List.any_eq_true] at h ⊢
    obtain ⟨r, present, same⟩ := h
    exact ⟨r, mem_insertIn p r _ present, same⟩

theorem exists_mem_insertIn (p : Path) (paths : List Path) (h : ∀ a b : List Component,
    Path.order a b = .eq → a = b) :
    ∃ q ∈ insertIn p paths, q.components = p.components := by
  induction paths with
  | nil => exact ⟨p, by simp [insertIn], rfl⟩
  | cons r rest ih =>
      simp only [insertIn]
      split
      · exact ⟨p, by simp, rfl⟩
      · next same => exact ⟨r, by simp, (h _ _ same).symm⟩
      · obtain ⟨q, present, same⟩ := ih
        exact ⟨q, List.mem_cons_of_mem _ present, same⟩

end PathSet

theorem Component.eq_of_order {a b : Component} (h : a.order b = .eq) : a = b := by
  simp only [Component.order, Ordering.then_eq_eq, Nat.compare_eq_eq] at h
  obtain ⟨ranks, texts⟩ := h
  cases a <;> cases b <;> simp_all [Component.rank, Component.text]

theorem Path.eq_of_order : ∀ {a b : List Component}, Path.order a b = .eq → a = b
  | [], [], _ => rfl
  | [], _ :: _, h => by simp [Path.order] at h
  | _ :: _, [], h => by simp [Path.order] at h
  | a :: as, b :: bs, h => by
      simp only [Path.order, Ordering.then_eq_eq] at h
      rw [Component.eq_of_order h.1, Path.eq_of_order h.2]

theorem PathSet.contains_insert_self (s : PathSet) (p : Path) : (s.insert p).contains p = true := by
  unfold PathSet.insert
  split
  · assumption
  · obtain ⟨q, present, same⟩ := PathSet.exists_mem_insertIn p s.paths fun _ _ => Path.eq_of_order
    simp only [PathSet.contains, List.any_eq_true]
    exact ⟨q, present, by simp [same]⟩

end ScriptCpp
