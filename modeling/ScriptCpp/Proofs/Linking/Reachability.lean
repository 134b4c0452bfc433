import Mathlib
import ScriptCpp.Linking.Linker
import ScriptCpp.Proofs.PathText

set_option autoImplicit false

namespace ScriptCpp

namespace PathSet

variable {s : PathSet} {p q : Path}

theorem mem_insertIn_iff {paths : List Path}
    (fresh : ∀ r ∈ paths, r.components ≠ p.components) :
    q ∈ insertIn p paths ↔ q = p ∨ q ∈ paths := by
  induction paths with
  | nil => simp [insertIn]
  | cons r rest ih =>
    have later := ih fun r present => fresh r (List.mem_cons_of_mem _ present)
    cases compared : Path.order p.components r.components with
    | lt => simp [insertIn, compared]
    | eq => exact absurd (Path.eq_of_order compared).symm (fresh r List.mem_cons_self)
    | gt =>
      simp only [insertIn, compared, List.mem_cons, later]
      tauto

theorem mem_paths_insert (fresh : s.contains p = false) :
    q ∈ (s.insert p).paths ↔ q = p ∨ q ∈ s.paths := by
  rw [insert, fresh]
  exact mem_insertIn_iff (by simpa [contains] using fresh)

theorem contains_insert_iff :
    (s.insert p).contains q = true ↔ s.contains q = true ∨ q.components = p.components := by
  by_cases fresh : s.contains p = true
  · have unchanged : s.insert p = s := by rw [insert, if_pos fresh]
    rw [unchanged]
    constructor
    · exact .inl
    · rintro (present | same)
      · exact present
      · simpa only [contains, same] using fresh
  · simp only [Bool.not_eq_true] at fresh
    simp only [contains, List.any_eq_true, decide_eq_true_eq]
    constructor
    · rintro ⟨r, present, same⟩
      rcases (mem_paths_insert fresh).mp present with rfl | old
      · exact .inr same.symm
      · exact .inl ⟨r, old, same⟩
    · rintro (⟨r, present, same⟩ | same)
      · exact ⟨r, (mem_paths_insert fresh).mpr (.inr present), same⟩
      · exact ⟨p, (mem_paths_insert fresh).mpr (.inl rfl), same.symm⟩

end PathSet

namespace ModuleSource

def Resolved (source : ModuleSource) (f : Path) : Prop :=
  ∃ spec base, source.resolve spec base = .ok f

/-- Files that imports can mean are told apart by a set of paths. -/
def Distinct (source : ModuleSource) : Prop :=
  ∀ ⦃f g : Path⦄, source.Resolved f → source.Resolved g → f.components = g.components → f = g

end ModuleSource

theorem Shelf.source_distinct (s : Shelf) : s.source.Distinct := by
  have normal : ∀ {f : Path}, s.source.Resolved f → ∃ p : Path, f = p.normalize := by
    rintro f ⟨spec, base, found⟩
    simp only [Shelf.source, Shelf.resolve] at found
    split at found
    · exact ⟨base.join ⟨spec⟩, (Except.ok.inj found).symm⟩
    · cases found
  intro f g meansF meansG same
  obtain ⟨p, rfl⟩ := normal meansF
  obtain ⟨q, rfl⟩ := normal meansG
  exact Path.normalize_eq_of_components same

namespace Linking

def contents (source : ModuleSource) (f : Path) : List Pending :=
  match (load source f).1 with
  | .ok program => pending f.directory program
  | .error _ => []

def Imports (source : ModuleSource) (todo : List Pending) (f : Path) : Prop :=
  ∃ p ∈ todo, ∃ spec, p.stmt = .importFile spec ∧ source.resolve spec p.base = .ok f

/-- The files that imports lead to along files outside `V`. -/
inductive Reaches (source : ModuleSource) (V : PathSet) (todo : List Pending) : Path → Prop
  | direct {f : Path} (imported : Imports source todo f) (fresh : V.contains f = false) :
      Reaches source V todo f
  | onward {g f : Path} (reached : Reaches source V todo g)
      (imported : Imports source (contents source g) f)
      (fresh : V.contains f = false) : Reaches source V todo f

def Resolves (source : ModuleSource) (p : Pending) : Prop :=
  ∀ spec, p.stmt = .importFile spec → ∃ f, source.resolve spec p.base = .ok f

/-- Nothing stands in the way: every import met means a file, and every file met can be read. -/
structure Linkable (source : ModuleSource) (V : PathSet) (todo : List Pending) : Prop where
  resolves : ∀ p ∈ todo, Resolves source p
  loads : ∀ f, Reaches source V todo f → ∃ program, (load source f).1 = .ok program
  onward : ∀ f, Reaches source V todo f → ∀ p ∈ contents source f, Resolves source p

variable {source : ModuleSource} {V : PathSet} {f g : Path} {spec : String} {base : Path}
  {p : Pending} {todo rest : List Pending}

theorem contents_of_load {program : Program} (loaded : (load source f).1 = .ok program) :
    contents source f = pending f.directory program := by
  simp only [contents, loaded]

theorem Imports.resolved (h : Imports source todo f) : source.Resolved f := by
  obtain ⟨p, _, spec, _, found⟩ := h
  exact ⟨spec, p.base, found⟩

theorem Reaches.fresh (h : Reaches source V todo f) : V.contains f = false := by
  cases h with
  | direct _ fresh => exact fresh
  | onward _ _ fresh => exact fresh

theorem imports_append : Imports source (todo ++ rest) f ↔
    Imports source todo f ∨ Imports source rest f := by
  simp only [Imports, List.mem_append]
  constructor
  · rintro ⟨p, here | there, means⟩
    · exact .inl ⟨p, here, means⟩
    · exact .inr ⟨p, there, means⟩
  · rintro (⟨p, here, means⟩ | ⟨p, there, means⟩)
    · exact ⟨p, .inl here, means⟩
    · exact ⟨p, .inr there, means⟩

theorem imports_cons_own (own : ∀ spec, p.stmt ≠ .importFile spec) :
    Imports source (p :: rest) f ↔ Imports source rest f := by
  constructor
  · rintro ⟨q, present, spec, shape, found⟩
    rcases List.mem_cons.mp present with rfl | later
    · exact absurd shape (own spec)
    · exact ⟨q, later, spec, shape, found⟩
  · rintro ⟨q, present, means⟩
    exact ⟨q, List.mem_cons_of_mem _ present, means⟩

theorem imports_cons_import (found : source.resolve spec base = .ok g) :
    Imports source (⟨base, .importFile spec⟩ :: rest) f ↔ f = g ∨ Imports source rest f := by
  constructor
  · rintro ⟨q, present, spec', shape, found'⟩
    rcases List.mem_cons.mp present with rfl | later
    · cases shape
      exact .inl (Except.ok.inj (found'.symm.trans found))
    · exact .inr ⟨q, later, spec', shape, found'⟩
  · rintro (rfl | ⟨q, present, means⟩)
    · exact ⟨_, List.mem_cons_self, spec, rfl, found⟩
    · exact ⟨q, List.mem_cons_of_mem _ present, means⟩

-- What is reached depends on the first imports only through those outside `V`.
theorem Reaches.mono {todo' : List Pending}
    (start : ∀ f, Imports source todo f → V.contains f = false → Reaches source V todo' f)
    (h : Reaches source V todo f) : Reaches source V todo' f := by
  induction h with
  | direct imported fresh => exact start _ imported fresh
  | onward _ imported fresh ih => exact .onward ih imported fresh

theorem not_reaches_nil : ¬ Reaches source V [] f := by
  intro h
  induction h with
  | direct imported _ =>
    obtain ⟨_, present, _⟩ := imported
    cases present
  | onward _ _ _ ih => exact ih

theorem reaches_cons_own (own : ∀ spec, p.stmt ≠ .importFile spec) :
    Reaches source V (p :: rest) f ↔ Reaches source V rest f := by
  constructor
  · apply Reaches.mono
    intro g imported fresh
    exact .direct ((imports_cons_own own).mp imported) fresh
  · apply Reaches.mono
    intro g imported fresh
    exact .direct ((imports_cons_own own).mpr imported) fresh

theorem reaches_cons_repeated (found : source.resolve spec base = .ok g)
    (seen : V.contains g = true) :
    Reaches source V (⟨base, .importFile spec⟩ :: rest) f ↔ Reaches source V rest f := by
  constructor
  · apply Reaches.mono
    intro h imported fresh
    rcases (imports_cons_import found).mp imported with rfl | later
    · exact absurd seen (by simp [fresh])
    · exact .direct later fresh
  · apply Reaches.mono
    intro h imported fresh
    exact .direct ((imports_cons_import found).mpr (.inr imported)) fresh

theorem contains_insert_eq_false (distinct : source.Distinct) (meansF : source.Resolved f)
    (meansG : source.Resolved g) :
    (V.insert g).contains f = false ↔ V.contains f = false ∧ f ≠ g := by
  rw [← Bool.not_eq_true, ← Bool.not_eq_true, PathSet.contains_insert_iff, not_or]
  constructor
  · rintro ⟨old, apart⟩
    exact ⟨old, fun same => apart (same ▸ rfl)⟩
  · rintro ⟨old, apart⟩
    exact ⟨old, fun same => apart (distinct meansF meansG same)⟩

theorem reaches_cons_fresh (distinct : source.Distinct) (found : source.resolve spec base = .ok g)
    (fresh : V.contains g = false) :
    Reaches source V (⟨base, .importFile spec⟩ :: rest) f ↔
      f = g ∨ Reaches source (V.insert g) (contents source g ++ rest) f := by
  have means : source.Resolved g := ⟨spec, base, found⟩
  constructor
  · intro h
    -- A chain that comes back to the file can start there instead.
    induction h with
    | @direct f imported outside =>
      by_cases same : f = g
      · exact .inl same
      · have later : (V.insert g).contains f = false :=
          (contains_insert_eq_false distinct imported.resolved means).mpr ⟨outside, same⟩
        rcases (imports_cons_import found).mp imported with first | imported
        · exact absurd first same
        · exact .inr (.direct (imports_append.mpr (.inr imported)) later)
    | @onward h f _ imported outside ih =>
      by_cases same : f = g
      · exact .inl same
      · have later : (V.insert g).contains f = false :=
          (contains_insert_eq_false distinct imported.resolved means).mpr ⟨outside, same⟩
        rcases ih with rfl | reached
        · exact .inr (.direct (imports_append.mpr (.inl imported)) later)
        · exact .inr (.onward reached imported later)
  · have head : Reaches source V (⟨base, .importFile spec⟩ :: rest) g :=
      .direct ((imports_cons_import found).mpr (.inl rfl)) fresh
    rintro (rfl | h)
    · exact head
    · induction h with
      | direct imported later =>
        have outside := ((contains_insert_eq_false distinct imported.resolved means).mp later).1
        rcases imports_append.mp imported with inside | after
        · exact .onward head inside outside
        · exact .direct ((imports_cons_import found).mpr (.inr after)) outside
      | onward _ imported later ih =>
        have outside := ((contains_insert_eq_false distinct imported.resolved means).mp later).1
        exact .onward ih imported outside

theorem linkable_nil : Linkable source V [] where
  resolves _ present := nomatch present
  loads _ reached := (not_reaches_nil reached).elim
  onward _ reached := (not_reaches_nil reached).elim

theorem Resolves.of_own (own : ∀ spec, p.stmt ≠ .importFile spec) : Resolves source p :=
  fun spec shape => absurd shape (own spec)

theorem Resolves.of_found (found : source.resolve spec base = .ok g) :
    Resolves source ⟨base, .importFile spec⟩ := by
  intro spec' shape
  cases shape
  exact ⟨g, found⟩

-- A first statement that resolves and reaches nothing of its own makes no difference.
theorem linkable_cons (head : Resolves source p)
    (same : ∀ f, Reaches source V (p :: rest) f ↔ Reaches source V rest f) :
    Linkable source V (p :: rest) ↔ Linkable source V rest := by
  constructor
  · intro h
    exact ⟨fun q present => h.resolves q (List.mem_cons_of_mem _ present),
      fun f reached => h.loads f ((same f).mpr reached),
      fun f reached => h.onward f ((same f).mpr reached)⟩
  · intro h
    exact ⟨List.forall_mem_cons.mpr ⟨head, h.resolves⟩,
      fun f reached => h.loads f ((same f).mp reached),
      fun f reached => h.onward f ((same f).mp reached)⟩

theorem linkable_cons_fresh (distinct : source.Distinct) (found : source.resolve spec base = .ok g)
    (fresh : V.contains g = false) :
    Linkable source V (⟨base, .importFile spec⟩ :: rest) ↔
      (∃ program, (load source g).1 = .ok program) ∧
        Linkable source (V.insert g) (contents source g ++ rest) := by
  have step : ∀ f, Reaches source V (⟨base, .importFile spec⟩ :: rest) f ↔
      f = g ∨ Reaches source (V.insert g) (contents source g ++ rest) f :=
    fun f => reaches_cons_fresh distinct found fresh
  constructor
  · intro h
    have here := (step g).mpr (.inl rfl)
    refine ⟨h.loads g here, ?_, ?_, ?_⟩
    · intro p present
      rcases List.mem_append.mp present with inside | after
      · exact h.onward g here p inside
      · exact h.resolves p (List.mem_cons_of_mem _ after)
    · exact fun f reached => h.loads f ((step f).mpr (.inr reached))
    · exact fun f reached => h.onward f ((step f).mpr (.inr reached))
  · rintro ⟨loaded, h⟩
    refine ⟨?_, ?_, ?_⟩
    · exact List.forall_mem_cons.mpr ⟨.of_found found,
        fun p present => h.resolves p (List.mem_append_right _ present)⟩
    · intro f reached
      rcases (step f).mp reached with rfl | later
      · exact loaded
      · exact h.loads f later
    · intro f reached
      rcases (step f).mp reached with rfl | later
      · exact fun p present => h.resolves p (List.mem_append_left _ present)
      · exact h.onward f later

section Steps

variable {notices : List Notice} {done : List Stmt}

theorem run_repeated (found : source.resolve spec base = .ok g) (seen : V.contains g = true) :
    run source V notices done (⟨base, .importFile spec⟩ :: rest) =
      run source V (.repeated spec g :: notices) done rest := by
  rw [run]
  split
  · next missing => cases missing.symm.trans found
  · next h found' =>
    obtain rfl := Except.ok.inj (found'.symm.trans found)
    rw [dif_pos seen]

theorem run_fresh {program : Program}
    (found : source.resolve spec base = .ok g) (fresh : V.contains g = false)
    (loaded : (load source g).1 = .ok program) :
    run source V notices done (⟨base, .importFile spec⟩ :: rest) =
      run source (V.insert g) notices done (pending g.directory program ++ rest) := by
  rw [run]
  split
  · next missing => cases missing.symm.trans found
  · next h found' =>
    obtain rfl := Except.ok.inj (found'.symm.trans found)
    rw [dif_neg (by simp [fresh])]
    rcases read : load source h with ⟨fault | program', told⟩
    · simp [read] at loaded
    · obtain rfl : program' = program := by simpa [read] using loaded
      rfl

end Steps

theorem run_ok_iff (distinct : source.Distinct) (notices : List Notice) (done : List Stmt) :
    (∃ body, (run source V notices done todo).result = .ok body) ↔ Linkable source V todo := by
  fun_induction run source V notices done todo with
  | case1 V notices done => exact ⟨fun _ => linkable_nil, fun _ => ⟨_, rfl⟩⟩
  | case2 V notices done base spec rest tried missing =>
    constructor
    · rintro ⟨body, ⟨⟩⟩
    · intro h
      obtain ⟨f, found⟩ := h.resolves _ List.mem_cons_self spec rfl
      cases missing.symm.trans found
  | case3 V notices done base spec rest g found seen ih =>
    rw [ih, linkable_cons (.of_found found) fun f => reaches_cons_repeated found seen]
  | case4 V notices done base spec rest g found fresh fault told unread =>
    rw [linkable_cons_fresh distinct found (by simpa using fresh)]
    constructor
    · rintro ⟨body, ⟨⟩⟩
    · rintro ⟨⟨program, loaded⟩, _⟩
      simp [unread] at loaded
  | case5 V notices done base spec rest g found fresh program told loaded ih =>
    have read : (load source g).1 = .ok program := by rw [loaded]
    rw [ih, linkable_cons_fresh distinct found (by simpa using fresh), contents_of_load read]
    exact ⟨fun h => ⟨⟨program, read⟩, h⟩, And.right⟩
  | case6 V notices done base s rest own ih =>
    rw [ih, linkable_cons (.of_own own) fun f => reaches_cons_own own]

theorem mem_run_visited (distinct : source.Distinct) (notices : List Notice) (done : List Stmt)
    {body : Program} (linked : (run source V notices done todo).result = .ok body) :
    f ∈ (run source V notices done todo).visited.paths ↔
      f ∈ V.paths ∨ Reaches source V todo f := by
  fun_induction run source V notices done todo with
  | case1 V notices done => simp [not_reaches_nil]
  | case2 V notices done base spec rest tried missing => cases linked
  | case3 V notices done base spec rest g found seen ih =>
    rw [ih linked, reaches_cons_repeated found seen]
  | case4 V notices done base spec rest g found fresh fault told unread => cases linked
  | case5 V notices done base spec rest g found fresh program told loaded ih =>
    have outside : V.contains g = false := by simpa using fresh
    have read : (load source g).1 = .ok program := by rw [loaded]
    rw [ih linked, reaches_cons_fresh distinct found outside, contents_of_load read,
      PathSet.mem_paths_insert outside]
    tauto
  | case6 V notices done base s rest own ih => rw [ih linked, reaches_cons_own own]

end Linking

end ScriptCpp
