import Mathlib
import ScriptCpp.Proofs.Linking.Shelving

set_option autoImplicit false

namespace ScriptCpp

namespace PathSet

theorem insertIn_perm {p : Path} {paths : List Path}
    (fresh : ∀ q ∈ paths, q.components ≠ p.components) : (insertIn p paths).Perm (p :: paths) := by
  induction paths with
  | nil => exact .refl _
  | cons q rest ih =>
    have later := ih fun r present => fresh r (List.mem_cons_of_mem _ present)
    rw [insertIn]
    split
    · exact .refl _
    · next same => exact absurd (Path.eq_of_order same).symm (fresh q List.mem_cons_self)
    · exact (later.cons q).trans (.swap p q rest)

theorem paths_insert_perm {s : PathSet} {p : Path} (fresh : s.contains p = false) :
    (s.insert p).paths.Perm (p :: s.paths) := by
  rw [insert, fresh]
  exact insertIn_perm (by simpa [contains] using fresh)

end PathSet

namespace Linking

def importCount (todo : List Pending) : Nat :=
  todo.countP fun p => p.stmt.importSpec?.isSome

/-- The imports of `todo` and of the files `loaded` come to these files, which are those added to the
files taken in before, and to a warning for each of the others. -/
structure Balance (source : ModuleSource) (V : PathSet) (todo : List Pending) (visited : PathSet)
    (told : List Notice) (loaded : List Path) : Prop where
  mild : ∀ n ∈ told, n.isError = false
  once : loaded.Nodup
  reached : ∀ f, f ∈ loaded ↔ Reaches source V todo f
  loads : ∀ f ∈ loaded, ∃ program, (load source f).1 = .ok program
  added : visited.paths.Perm (loaded ++ V.paths)
  count : told.length + loaded.length =
    importCount todo + (loaded.map fun f => importCount (contents source f)).sum

variable {source : ModuleSource} {V visited : PathSet} {f g : Path} {spec : String} {base : Path}
  {todo rest : List Pending} {told notices : List Notice} {loaded : List Path} {done : List Stmt}

theorem importCount_append (xs ys : List Pending) :
    importCount (xs ++ ys) = importCount xs + importCount ys :=
  List.countP_append

theorem importCount_import : importCount (⟨base, .importFile spec⟩ :: rest) = importCount rest + 1 :=
  List.countP_cons_of_pos rfl

theorem importCount_own {s : Stmt} (own : ∀ spec, s ≠ .importFile spec) :
    importCount (⟨base, s⟩ :: rest) = importCount rest :=
  List.countP_cons_of_neg (by simp [Stmt.importSpec?_eq_none own])

namespace Balance

theorem nil : Balance source V [] V [] [] where
  mild := List.forall_mem_nil _
  once := .nil
  reached f := by simp [not_reaches_nil]
  loads := List.forall_mem_nil _
  added := .refl _
  count := rfl

theorem own {s : Stmt} (kept : ∀ spec, s ≠ .importFile spec)
    (h : Balance source V rest visited told loaded) :
    Balance source V (⟨base, s⟩ :: rest) visited told loaded :=
  { h with
    reached := fun f => by rw [h.reached, reaches_cons_own kept]
    count := by rw [h.count, importCount_own kept] }

theorem repeated (found : source.resolve spec base = .ok g) (seen : V.contains g = true)
    (h : Balance source V rest visited told loaded) :
    Balance source V (⟨base, .importFile spec⟩ :: rest) visited (.repeated spec g :: told) loaded :=
  { h with
    mild := List.forall_mem_cons.mpr ⟨rfl, h.mild⟩
    reached := fun f => by rw [h.reached, reaches_cons_repeated found seen]
    count := by
      have count := h.count
      rw [importCount_import, List.length_cons]
      omega }

theorem fresh {program : Program} (distinct : source.Distinct)
    (found : source.resolve spec base = .ok g) (outside : V.contains g = false)
    (read : (load source g).1 = .ok program)
    (h : Balance source (V.insert g) (pending g.directory program ++ rest) visited told loaded) :
    Balance source V (⟨base, .importFile spec⟩ :: rest) visited told (g :: loaded) where
  mild := h.mild
  once := by
    refine List.nodup_cons.mpr ⟨fun again => ?_, h.once⟩
    have later := ((h.reached g).mp again).fresh
    simp [PathSet.contains_insert_self] at later
  reached f := by
    rw [List.mem_cons, h.reached, reaches_cons_fresh distinct found outside, contents_of_load read]
  loads := List.forall_mem_cons.mpr ⟨⟨program, read⟩, h.loads⟩
  added := calc
    visited.paths.Perm (loaded ++ (V.insert g).paths) := h.added
    List.Perm _ (loaded ++ g :: V.paths) := (PathSet.paths_insert_perm outside).append_left loaded
    List.Perm _ (g :: loaded ++ V.paths) := List.perm_middle
  count := by
    have count := h.count
    rw [importCount_append, ← contents_of_load read] at count
    rw [importCount_import, List.length_cons, List.map_cons, List.sum_cons]
    omega

end Balance

theorem run_balances (distinct : source.Distinct) {body : Program}
    (linked : (run source V notices done todo).result = .ok body) :
    ∃ told loaded, (run source V notices done todo).notices = notices.reverse ++ told ∧
      Balance source V todo (run source V notices done todo).visited told loaded := by
  fun_induction run source V notices done todo with
  | case1 => exact ⟨[], [], by simp, .nil⟩
  | case2 => cases linked
  | case3 V notices done base spec rest g found seen ih =>
    obtain ⟨told, loaded, same, balance⟩ := ih linked
    exact ⟨_, loaded, by simp [same], balance.repeated found seen⟩
  | case4 => cases linked
  | case5 V notices done base spec rest g found fresh program _ load_eq ih =>
    obtain ⟨told, loaded, same, balance⟩ := ih linked
    exact ⟨told, _, same, balance.fresh distinct found (by simpa using fresh) (by rw [load_eq])⟩
  | case6 V notices done base s rest own ih =>
    obtain ⟨told, loaded, same, balance⟩ := ih linked
    exact ⟨told, loaded, same, balance.own own⟩

theorem Request.balances (distinct : source.Distinct) {r : Request} {body : Program}
    (linked : (r.linked source V).result = .ok body) :
    ∃ loaded, Balance source (r.outset source V) (r.opening source) (r.linked source V).visited
      (r.linked source V).notices loaded := by
  cases r with
  | mark path => exact ⟨[], .nil⟩
  | imports program base =>
    obtain ⟨told, loaded, same, balance⟩ := run_balances distinct linked
    exact ⟨loaded, same ▸ balance⟩
  | entry path =>
    rcases entry_cases source V path with
      ⟨error, -, same⟩ | ⟨file, entered, ⟨fault, told, -, same⟩ | ⟨program, read, same⟩⟩
    · rw [same] at linked
      cases linked
    · rw [same] at linked
      cases linked
    · rw [same] at linked ⊢
      obtain ⟨told, loaded, alike, balance⟩ := run_balances distinct linked
      rw [opening_entry entered, outset_entry entered, contents_of_load read]
      exact ⟨loaded, alike ▸ balance⟩

end Linking

namespace Linked

open Linking

/-- Linking from a shelf tells of every import. A success tells warnings only, one for each import that
took in no file. A failure tells one error, last, with the text of the fault and the file that is at fault;
but nothing is told, and nothing taken in, where the file to start from is missing. -/
theorem notices_account (files : List (Path × String)) (V : PathSet) (r : Request) :
    (∀ body, (r.linked (.ofFiles files) V).result = .ok body →
      ∃ loaded, Balance (.ofFiles files) (r.outset (.ofFiles files) V) (r.opening (.ofFiles files))
        (r.linked (.ofFiles files) V).visited (r.linked (.ofFiles files) V).notices loaded) ∧
    ∀ fault, (r.linked (.ofFiles files) V).result = .error fault →
      (∃ path error, r = .entry path ∧ (ModuleSource.ofFiles files).entry path = .error error ∧
        r.linked (.ofFiles files) V = ⟨.error (.source error), V, []⟩) ∨
      Reports (r.linked (.ofFiles files) V).notices fault
        (Blames (.ofFiles files) (r.opening (.ofFiles files)) (r.Needs (.ofFiles files) V) fault) := by
  have distinct := (Shelf.ofList files).source_distinct
  exact ⟨fun body => r.balances distinct, fun fault => r.reports distinct (Shelf.ofFiles_readable files)⟩

-- Two files that import each other, one of them twice.
def mutualFiles : List (Path × String) :=
  [(⟨"a"⟩, "import \"b\"; import \"b\";"), (⟨"b"⟩, "import \"a\";")]

theorem load_mutual :
    (load (.ofFiles mutualFiles) ⟨"a"⟩).1 = .ok [.importFile "b", .importFile "b"] ∧
      (load (.ofFiles mutualFiles) ⟨"b"⟩).1 = .ok [.importFile "a"] :=
  ⟨by with_unfolding_all rfl, by with_unfolding_all rfl⟩

theorem resolve_mutual :
    (ModuleSource.ofFiles mutualFiles).resolve "a" ⟨""⟩ = .ok ⟨"a"⟩ ∧
      (ModuleSource.ofFiles mutualFiles).resolve "b" ⟨""⟩ = .ok ⟨"b"⟩ ∧
      (ModuleSource.ofFiles mutualFiles).resolve "c" ⟨""⟩ = .error ⟨"c"⟩ := by
  decide +kernel

theorem run_mutual (rest : List Pending) :
    run (.ofFiles mutualFiles) (PathSet.empty.insert ⟨"a"⟩) [] []
        (pending ⟨""⟩ [.importFile "b", .importFile "b"] ++ rest) =
      run (.ofFiles mutualFiles) ((PathSet.empty.insert ⟨"a"⟩).insert ⟨"b"⟩)
        [.repeated "b" ⟨"b"⟩, .repeated "a" ⟨"a"⟩] [] rest := by
  obtain ⟨meansA, meansB, -⟩ := resolve_mutual
  have fresh : (PathSet.empty.insert ⟨"a"⟩).contains ⟨"b"⟩ = false := by decide +kernel
  have seenA : ((PathSet.empty.insert ⟨"a"⟩).insert ⟨"b"⟩).contains ⟨"a"⟩ = true := by decide +kernel
  have seenB := PathSet.contains_insert_self (PathSet.empty.insert ⟨"a"⟩) ⟨"b"⟩
  have home : Path.directory ⟨"b"⟩ = ⟨""⟩ := by decide +kernel
  simp only [pending, List.map_cons, List.map_nil, List.cons_append, List.nil_append]
  rw [run_fresh meansB fresh load_mutual.2, home]
  simp only [pending, List.map_cons, List.map_nil, List.cons_append, List.nil_append]
  rw [run_repeated meansA seenA, run_repeated meansB seenB]

theorem entry_mutual :
    (Request.entry ⟨"a"⟩).linked (.ofFiles mutualFiles) .empty =
      ⟨.ok [], (PathSet.empty.insert ⟨"a"⟩).insert ⟨"b"⟩, [.repeated "a" ⟨"a"⟩, .repeated "b" ⟨"b"⟩]⟩ := by
  have entered : (ModuleSource.ofFiles mutualFiles).entry ⟨"a"⟩ = .ok ⟨"a"⟩ := by decide +kernel
  have home : Path.directory ⟨"a"⟩ = ⟨""⟩ := by decide +kernel
  rcases Request.entry_cases (.ofFiles mutualFiles) .empty ⟨"a"⟩ with
    ⟨_, other, _⟩ | ⟨file, found, ⟨_, _, unread, _⟩ | ⟨program, loaded, same⟩⟩
  · cases entered.symm.trans other
  · cases entered.symm.trans found
    have read := load_mutual.1
    rw [unread] at read
    cases read
  · cases entered.symm.trans found
    cases load_mutual.1.symm.trans loaded
    have ran := run_mutual []
    rw [List.append_nil, run_nil] at ran
    rw [same, ofProgram, home, ran]
    rfl

theorem imports_mutual :
    (Request.imports [.importFile "a", .importFile "c"] ⟨""⟩).linked (.ofFiles mutualFiles) .empty =
      ⟨.error (.imported (.notFound "c") ⟨"c"⟩), (PathSet.empty.insert ⟨"a"⟩).insert ⟨"b"⟩,
        [.repeated "a" ⟨"a"⟩, .repeated "b" ⟨"b"⟩,
          .missing (.imported (.notFound "c") ⟨"c"⟩) (Path.join ⟨""⟩ ⟨"c"⟩)]⟩ := by
  obtain ⟨meansA, -, absent⟩ := resolve_mutual
  have outside : PathSet.empty.contains ⟨"a"⟩ = false := by decide +kernel
  have home : Path.directory ⟨"a"⟩ = ⟨""⟩ := by decide +kernel
  simp only [Request.linked, ofProgram, pending, List.map_cons, List.map_nil]
  rw [run_fresh meansA outside load_mutual.1, home, run_mutual, run_missing absent]
  rfl

theorem notices_account_mutual :
    (∃ loaded, Balance (.ofFiles mutualFiles) (PathSet.empty.insert ⟨"a"⟩)
      (contents (.ofFiles mutualFiles) ⟨"a"⟩) ((PathSet.empty.insert ⟨"a"⟩).insert ⟨"b"⟩)
      [.repeated "a" ⟨"a"⟩, .repeated "b" ⟨"b"⟩] loaded) ∧
    ∃ r : Request, (r.linked (.ofFiles mutualFiles) .empty).result =
        .error (.imported (.notFound "c") ⟨"c"⟩) ∧
      (r.linked (.ofFiles mutualFiles) .empty).notices.length = 3 ∧
      Reports (r.linked (.ofFiles mutualFiles) .empty).notices (.imported (.notFound "c") ⟨"c"⟩)
        (Blames (.ofFiles mutualFiles) (r.opening (.ofFiles mutualFiles))
          (r.Needs (.ofFiles mutualFiles) .empty) (.imported (.notFound "c") ⟨"c"⟩)) := by
  have entered : (ModuleSource.ofFiles mutualFiles).entry ⟨"a"⟩ = .ok ⟨"a"⟩ := by decide +kernel
  constructor
  · have balanced := (notices_account mutualFiles .empty (.entry ⟨"a"⟩)).1 [] (by rw [entry_mutual])
    rwa [entry_mutual, Request.outset_entry entered, Request.opening_entry entered] at balanced
  · have failed := congrArg result imports_mutual
    refine ⟨_, failed, by rw [imports_mutual]; rfl, ?_⟩
    rcases (notices_account mutualFiles .empty _).2 _ failed with ⟨_, _, other, _⟩ | reports
    · cases other
    · exact reports

end Linked

end ScriptCpp
