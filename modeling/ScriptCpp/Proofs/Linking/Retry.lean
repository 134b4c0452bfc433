import Mathlib
import ScriptCpp.Proofs.Linking.Expansion

set_option autoImplicit false

namespace ScriptCpp

theorem Stmt.ne_importFile {s : Stmt} (other : s.importSpec? = none) (spec : String) :
    s ≠ .importFile spec := by
  rintro rfl
  cases other

namespace Linking

variable {source : ModuleSource} {V : PathSet} {f g : Path} {spec : String} {base : Path}
  {p : Pending} {todo rest : List Pending} {notices : List Notice} {done : List Stmt}

section Steps

theorem run_nil : run source V notices done [] = ⟨.ok done.reverse, V, notices.reverse⟩ := by
  rw [run]

theorem run_missing {tried : Path} (missing : source.resolve spec base = .error tried) :
    run source V notices done (⟨base, .importFile spec⟩ :: rest) =
      ⟨.error (.imported (.notFound spec) tried), V,
        (.missing (.imported (.notFound spec) tried) (base.join ⟨spec⟩) :: notices).reverse⟩ := by
  rw [run]
  split
  · next missing' =>
    cases missing'.symm.trans missing
    rfl
  · next found => cases found.symm.trans missing

theorem run_unread {fault : Fault} {told : List Notice} (found : source.resolve spec base = .ok g)
    (fresh : V.contains g = false) (unread : load source g = (.error fault, told)) :
    run source V notices done (⟨base, .importFile spec⟩ :: rest) =
      ⟨.error fault, V.insert g, (told ++ notices).reverse⟩ := by
  rw [run]
  split
  · next missing => cases missing.symm.trans found
  · next h found' =>
    obtain rfl := Except.ok.inj (found'.symm.trans found)
    rw [dif_neg (by simp [fresh]), unread]

theorem run_own {s : Stmt} (own : ∀ spec, s ≠ .importFile spec) :
    run source V notices done (⟨base, s⟩ :: rest) = run source V notices (s :: done) rest := by
  rw [run]
  exact own

end Steps

theorem mem_paths_of_insert (present : f ∈ (V.insert g).paths) : f = g ∨ f ∈ V.paths := by
  cases held : V.contains g with
  | true =>
    rw [PathSet.insert, if_pos held] at present
    exact .inr present
  | false => exact (PathSet.mem_paths_insert held).mp present

theorem contains_run_visited {q : Path} (held : V.contains q = true) :
    (run source V notices done todo).visited.contains q = true := by
  fun_induction run source V notices done todo with
  | case1 => exact held
  | case2 => exact held
  | case3 _ _ _ _ _ _ _ _ _ ih => exact ih held
  | case4 V _ _ _ _ _ g => exact V.contains_insert g q held
  | case5 V _ _ _ _ _ g _ _ _ _ _ ih => exact ih (V.contains_insert g q held)
  | case6 _ _ _ _ _ _ _ ih => exact ih held

theorem run_accounts (added : f ∈ (run source V notices done todo).visited.paths) :
    f ∈ V.paths ∨ (∃ program, (load source f).1 = .ok program) ∨
      ∃ fault, (load source f).1 = .error fault ∧
        (run source V notices done todo).result = .error fault := by
  fun_induction run source V notices done todo with
  | case1 => exact .inl added
  | case2 => exact .inl added
  | case3 _ _ _ _ _ _ _ _ _ ih => exact ih added
  | case4 V notices done base spec rest g found fresh fault told unread =>
    rcases mem_paths_of_insert added with rfl | old
    · exact .inr (.inr ⟨fault, by rw [unread], rfl⟩)
    · exact .inl old
  | case5 V notices done base spec rest g found fresh program told loaded ih =>
    rcases ih added with old | read
    · rcases mem_paths_of_insert old with rfl | older
      · exact .inr (.inl ⟨program, by rw [loaded]⟩)
      · exact .inl older
    · exact .inr read
  | case6 _ _ _ _ _ _ _ ih => exact ih added

theorem run_leaves {fault : Fault} (failed : (run source V notices done todo).result = .error fault) :
    (∃ spec tried, fault = .imported (.notFound spec) tried) ∨
      ∃ f, (run source V notices done todo).visited.contains f = true ∧
        (load source f).1 = .error fault := by
  fun_induction run source V notices done todo with
  | case1 => cases failed
  | case2 _ _ _ _ spec _ tried => exact .inl ⟨spec, tried, (Except.error.inj failed).symm⟩
  | case3 _ _ _ _ _ _ _ _ _ ih => exact ih failed
  | case4 V _ _ _ _ _ g _ _ _ _ unread =>
    refine .inr ⟨g, V.contains_insert_self g, ?_⟩
    rw [unread]
    exact failed
  | case5 _ _ _ _ _ _ _ _ _ _ _ _ ih => exact ih failed
  | case6 _ _ _ _ _ _ _ ih => exact ih failed

theorem run_append_error {xs : List Pending} {fault : Fault}
    (failed : (run source V notices done xs).result = .error fault) (ys : List Pending) :
    run source V notices done (xs ++ ys) = run source V notices done xs := by
  fun_induction run source V notices done xs with
  | case1 => cases failed
  | case2 V notices done base spec rest tried missing => rw [List.cons_append, run_missing missing]
  | case3 V notices done base spec rest g found seen ih =>
    rw [List.cons_append, run_repeated found seen, ih failed]
  | case4 V notices done base spec rest g found fresh fault told unread =>
    rw [List.cons_append, run_unread found (by simpa using fresh) unread]
  | case5 V notices done base spec rest g found fresh program told loaded ih =>
    rw [List.cons_append, run_fresh found (by simpa using fresh) (by rw [loaded]), ← List.append_assoc,
      ih failed]
  | case6 V notices done base s rest own ih => rw [List.cons_append, run_own own, ih failed]

theorem run_append_ok {xs : List Pending} {body : Program}
    (linked : (run source V notices done xs).result = .ok body) (ys : List Pending) :
    run source V notices done (xs ++ ys) =
      run source (run source V notices done xs).visited (run source V notices done xs).notices.reverse
        body.reverse ys := by
  fun_induction run source V notices done xs with
  | case1 V notices done =>
    cases linked
    simp
  | case2 => cases linked
  | case3 V notices done base spec rest g found seen ih =>
    rw [List.cons_append, run_repeated found seen, ih linked]
  | case4 => cases linked
  | case5 V notices done base spec rest g found fresh program told loaded ih =>
    rw [List.cons_append, run_fresh found (by simpa using fresh) (by rw [loaded]), ← List.append_assoc,
      ih linked]
  | case6 V notices done base s rest own ih => rw [List.cons_append, run_own own, ih linked]

-- What was done and told before comes before, and changes nothing else.
theorem run_prepended (source : ModuleSource) (V : PathSet) (todo : List Pending) :
    ∃ result : Except Fault Program, ∀ notices done,
      (run source V notices done todo).result = result.map (done.reverse ++ ·) := by
  suffices ∀ (notices : List Notice) (done : List Stmt), ∃ result : Except Fault Program,
      ∀ notices done, (run source V notices done todo).result = result.map (done.reverse ++ ·) from
    this [] []
  intro notices done
  fun_induction run source V notices done todo with
  | case1 => exact ⟨.ok [], fun notices done => by simp [run_nil, Except.map]⟩
  | case2 V _ _ base spec rest tried missing =>
    exact ⟨.error _, fun notices done => by rw [run_missing missing]; rfl⟩
  | case3 V _ _ base spec rest g found seen ih =>
    obtain ⟨result, same⟩ := ih
    exact ⟨result, fun notices done => by rw [run_repeated found seen, same]⟩
  | case4 V _ _ base spec rest g found fresh fault told unread =>
    exact ⟨.error fault, fun notices done => by rw [run_unread found (by simpa using fresh) unread]; rfl⟩
  | case5 V _ _ base spec rest g found fresh program told loaded ih =>
    obtain ⟨result, same⟩ := ih
    exact ⟨result, fun notices done => by
      rw [run_fresh found (by simpa using fresh) (by rw [loaded]), same]⟩
  | case6 V _ _ base s rest own ih =>
    obtain ⟨result, same⟩ := ih
    refine ⟨result.map (s :: ·), fun notices done => ?_⟩
    rw [run_own own, same]
    cases result <;> simp [Except.map]

theorem run_result (notices : List Notice) (done : List Stmt) :
    (run source V notices done todo).result =
      (run source V [] [] todo).result.map (done.reverse ++ ·) := by
  obtain ⟨result, same⟩ := run_prepended source V todo
  rw [same notices done, same [] []]
  cases result <;> rfl

def AllSeen (source : ModuleSource) (V : PathSet) (todo : List Pending) : Prop :=
  ∀ p ∈ todo, ∀ spec, p.stmt = .importFile spec →
    ∃ f, source.resolve spec p.base = .ok f ∧ V.contains f = true

theorem allSeen_of_run {body : Program} (linked : (run source V notices done todo).result = .ok body) :
    AllSeen source (run source V notices done todo).visited todo := by
  fun_induction run source V notices done todo with
  | case1 => exact List.forall_mem_nil _
  | case2 => cases linked
  | case3 V notices done base spec rest g found seen ih =>
    refine List.forall_mem_cons.mpr ⟨?_, ih linked⟩
    rintro _ ⟨⟩
    exact ⟨g, found, contains_run_visited seen⟩
  | case4 => cases linked
  | case5 V notices done base spec rest g found fresh program told loaded ih =>
    refine List.forall_mem_cons.mpr ⟨?_, fun p present => ih linked p (List.mem_append_right _ present)⟩
    rintro _ ⟨⟩
    exact ⟨g, found, contains_run_visited (V.contains_insert_self g)⟩
  | case6 V notices done base s rest own ih =>
    exact List.forall_mem_cons.mpr ⟨fun spec same => absurd same (own spec), ih linked⟩

theorem AllSeen.mono {W : PathSet} (seen : AllSeen source V todo)
    (larger : ∀ q, V.contains q = true → W.contains q = true) : AllSeen source W todo := by
  intro p present spec same
  obtain ⟨f, found, held⟩ := seen p present spec same
  exact ⟨f, found, larger f held⟩

theorem run_seen (seen : AllSeen source V todo) (notices : List Notice) (done : List Stmt)
    (rest : List Pending) :
    ∃ told, run source V notices done (todo ++ rest) =
      run source V told ((ownStmts todo).reverse ++ done) rest := by
  induction todo generalizing notices done with
  | nil => exact ⟨notices, rfl⟩
  | cons p todo ih =>
    obtain ⟨here, later⟩ := List.forall_mem_cons.mp seen
    obtain ⟨base, s⟩ := p
    cases spelled : s.importSpec? with
    | some spec =>
      obtain rfl := Stmt.eq_importFile spelled
      obtain ⟨f, found, held⟩ := here spec rfl
      obtain ⟨told, same⟩ := ih later (.repeated spec f :: notices) done
      refine ⟨told, ?_⟩
      rw [List.cons_append, run_repeated found held, same]
      rfl
    | none =>
      obtain ⟨told, same⟩ := ih later notices (s :: done)
      refine ⟨told, ?_⟩
      rw [List.cons_append, run_own (Stmt.ne_importFile spelled), same]
      simp [ownStmts, spelled]

theorem run_stops {fault : Fault} (failed : (run source V notices done todo).result = .error fault) :
    ∃ before p after body, todo = before ++ p :: after ∧
      (run source V notices done before).result = .ok body ∧
      (∃ told, run source V notices done todo =
        run source (run source V notices done before).visited told body.reverse [p]) := by
  induction todo generalizing V notices done with
  | nil =>
    rw [run_nil] at failed
    cases failed
  | cons p todo ih =>
    cases first : (run source V notices done [p]).result with
    | error fault' =>
      refine ⟨[], p, todo, done.reverse, rfl, by rw [run_nil], notices, ?_⟩
      rw [List.reverse_reverse, run_nil]
      exact run_append_error first todo
    | ok body =>
      have whole := run_append_ok first todo
      rw [List.singleton_append] at whole
      rw [whole] at failed
      obtain ⟨before, q, after, last, rfl, linked, told, same⟩ := ih failed
      have earlier := run_append_ok first before
      rw [List.singleton_append] at earlier
      refine ⟨p :: before, q, after, last, rfl, ?_, told, ?_⟩
      · rw [earlier, linked]
      · rw [whole, earlier, same]

theorem run_single_error {s : Stmt} {fault : Fault}
    (failed : (run source V notices done [⟨base, s⟩]).result = .error fault) :
    ∃ spec, s = .importFile spec ∧
      ((∃ tried, source.resolve spec base = .error tried ∧ fault = .imported (.notFound spec) tried) ∨
        ∃ f, source.resolve spec base = .ok f ∧ V.contains f = false ∧
          (run source V notices done [⟨base, s⟩]).visited.contains f = true) := by
  cases spelled : s.importSpec? with
  | none =>
    rw [run_own (Stmt.ne_importFile spelled), run_nil] at failed
    cases failed
  | some spec =>
    obtain rfl := Stmt.eq_importFile spelled
    refine ⟨spec, rfl, ?_⟩
    cases found : source.resolve spec base with
    | error tried =>
      rw [run_missing found] at failed
      cases failed
      exact .inl ⟨tried, rfl, rfl⟩
    | ok f =>
      refine .inr ⟨f, rfl, ?_⟩
      cases held : V.contains f with
      | true =>
        rw [run_repeated found held, run_nil] at failed
        cases failed
      | false =>
        refine ⟨rfl, ?_⟩
        rcases loaded : load source f with ⟨fault' | program, told⟩
        · rw [run_unread found held loaded]
          exact V.contains_insert_self f
        · rw [run_fresh found held (by rw [loaded])]
          exact contains_run_visited (V.contains_insert_self f)

theorem ownStmts_pending (base : Path) (program : Program) :
    ownStmts (pending base program) = program.filter fun s => s.importSpec?.isNone := by
  simp [ownStmts, pending, Function.comp_def]

inductive Request where
  | entry (path : Path)
  | imports (program : Program) (base : Path)
  | mark (path : Path)

def Request.linked (source : ModuleSource) (V : PathSet) : Request → Linked
  | .entry path => .ofEntry source V path
  | .imports program base => .ofProgram source V program base
  | .mark path => ⟨.ok [], V.insert path, []⟩

def after (source : ModuleSource) (V : PathSet) (requests : List Request) : PathSet :=
  requests.foldl (fun V r => (r.linked source V).visited) V

namespace Request

variable {r : Request}

theorem entry_cases (source : ModuleSource) (V : PathSet) (path : Path) :
    (∃ error, source.entry path = .error error ∧
        (entry path).linked source V = ⟨.error (.source error), V, []⟩) ∨
      ∃ file, source.entry path = .ok file ∧
        ((∃ fault told, load source file = (.error fault, told) ∧
            (entry path).linked source V = ⟨.error fault, V.insert file, told⟩) ∨
          ∃ program, (load source file).1 = .ok program ∧
            (entry path).linked source V =
              Linked.ofProgram source (V.insert file) program file.directory) := by
  cases entered : source.entry path with
  | error error => exact .inl ⟨error, rfl, by simp only [linked, Linked.ofEntry, entered]⟩
  | ok file =>
    refine .inr ⟨file, rfl, ?_⟩
    rcases loaded : load source file with ⟨fault | program, told⟩
    · exact .inl ⟨fault, told, rfl, by simp only [linked, Linked.ofEntry, entered, loaded]⟩
    · exact .inr ⟨program, rfl, by simp only [linked, Linked.ofEntry, entered, loaded]⟩

theorem accounts (added : f ∈ (r.linked source V).visited.paths) :
    f ∈ V.paths ∨ r = .mark f ∨ (∃ program, (load source f).1 = .ok program) ∨
      ∃ fault, (load source f).1 = .error fault ∧ (r.linked source V).result = .error fault := by
  cases r with
  | mark path =>
    rcases mem_paths_of_insert added with rfl | old
    · exact .inr (.inl rfl)
    · exact .inl old
  | imports program base =>
    rcases run_accounts added with old | read
    · exact .inl old
    · exact .inr (.inr read)
  | entry path =>
    rcases entry_cases source V path with
      ⟨error, -, same⟩ | ⟨file, -, ⟨fault, told, unread, same⟩ | ⟨program, loaded, same⟩⟩
    · rw [same] at added
      exact .inl added
    · rw [same] at added ⊢
      rcases mem_paths_of_insert added with rfl | old
      · exact .inr (.inr (.inr ⟨fault, by rw [unread], rfl⟩))
      · exact .inl old
    · rw [same] at added ⊢
      rcases run_accounts added with old | read
      · rcases mem_paths_of_insert old with rfl | older
        · exact .inr (.inr (.inl ⟨program, loaded⟩))
        · exact .inl older
      · exact .inr (.inr read)

theorem contains_visited (held : V.contains f = true) :
    (r.linked source V).visited.contains f = true := by
  cases r with
  | mark path => exact V.contains_insert path f held
  | imports program base => exact contains_run_visited held
  | entry path =>
    rcases entry_cases source V path with
      ⟨error, -, same⟩ | ⟨file, -, ⟨fault, told, -, same⟩ | ⟨program, -, same⟩⟩
    · rw [same]
      exact held
    · rw [same]
      exact V.contains_insert file f held
    · rw [same]
      exact contains_run_visited (V.contains_insert file f held)

theorem leaves {fault : Fault} (failed : (r.linked source V).result = .error fault) :
    (∃ spec tried, fault = .imported (.notFound spec) tried) ∨
      (∃ path error, r = .entry path ∧ source.entry path = .error error ∧ fault = .source error) ∨
      ∃ f, (r.linked source V).visited.contains f = true ∧ (load source f).1 = .error fault := by
  cases r with
  | mark path => cases failed
  | imports program base => exact (run_leaves failed).imp_right .inr
  | entry path =>
    rcases entry_cases source V path with
      ⟨error, entered, same⟩ | ⟨file, -, ⟨fault', told, unread, same⟩ | ⟨program, -, same⟩⟩
    · rw [same] at failed
      cases failed
      exact .inr (.inl ⟨path, error, rfl, entered, rfl⟩)
    · rw [same] at failed ⊢
      cases failed
      exact .inr (.inr ⟨file, V.contains_insert_self file, by rw [unread]⟩)
    · rw [same] at failed ⊢
      exact (run_leaves failed).imp_right .inr

end Request

theorem contains_after {requests : List Request} (held : V.contains f = true) :
    (after source V requests).contains f = true := by
  induction requests generalizing V with
  | nil => exact held
  | cons r requests ih => exact ih (r.contains_visited held)

theorem after_append (before later : List Request) :
    after source V (before ++ later) = after source (after source V before) later :=
  List.foldl_append

theorem after_accounts {requests : List Request} (added : f ∈ (after source V requests).paths) :
    f ∈ V.paths ∨ .mark f ∈ requests ∨ (∃ program, (load source f).1 = .ok program) ∨
      ∃ before r later fault, requests = before ++ r :: later ∧ (load source f).1 = .error fault ∧
        (r.linked source (after source V before)).result = .error fault := by
  induction requests generalizing V with
  | nil => exact .inl added
  | cons r requests ih =>
    rcases ih added with here | marked | read | ⟨before, q, later, fault, rfl, unread, failed⟩
    · rcases r.accounts here with old | rfl | read | ⟨fault, unread, failed⟩
      · exact .inl old
      · exact .inr (.inl List.mem_cons_self)
      · exact .inr (.inr (.inl read))
      · exact .inr (.inr (.inr ⟨[], r, requests, fault, rfl, unread, failed⟩))
    · exact .inr (.inl (List.mem_cons_of_mem r marked))
    · exact .inr (.inr (.inl read))
    · exact .inr (.inr (.inr ⟨r :: before, q, later, fault, rfl, unread, failed⟩))

end Linking

namespace Linked

open Linking

variable {source : ModuleSource} {V : PathSet} {program : Program} {base : Path} {fault : Fault}

theorem ofProgram_stops (failed : (ofProgram source V program base).result = .error fault) :
    ∃ before spec rest, program = before ++ .importFile spec :: rest ∧
      AllSeen source (ofProgram source V program base).visited (pending base before) ∧
      ((∃ tried, source.resolve spec base = .error tried ∧ fault = .imported (.notFound spec) tried) ∨
        ∃ f, source.resolve spec base = .ok f ∧ V.contains f = false ∧
          (ofProgram source V program base).visited.contains f = true) := by
  obtain ⟨before', p, after', body, split, linked, told, same⟩ := run_stops failed
  obtain ⟨before, others, rfl, rfl, tail⟩ := List.map_eq_append_iff.mp split
  obtain ⟨s, rest, rfl, rfl, rfl⟩ := List.map_eq_cons_iff.mp tail
  change ofProgram source V (before ++ s :: rest) base = _ at same
  rw [same] at failed ⊢
  obtain ⟨spec, rfl, cause⟩ := run_single_error failed
  have seen := allSeen_of_run linked
  refine ⟨before, spec, rest, rfl, seen.mono fun q => contains_run_visited, ?_⟩
  rcases cause with missing | ⟨f, found, fresh, held⟩
  · exact .inl missing
  · refine .inr ⟨f, found, ?_, held⟩
    by_contra present
    rw [Bool.not_eq_false] at present
    rw [contains_run_visited present] at fresh
    cases fresh

theorem ofProgram_seen {before : Program} (seen : AllSeen source V (pending base before))
    (rest : Program) :
    ∃ told, ofProgram source V (before ++ rest) base =
      run source V told (before.filter fun s => s.importSpec?.isNone).reverse (pending base rest) := by
  have split : pending base (before ++ rest) = pending base before ++ pending base rest :=
    List.map_append
  obtain ⟨told, same⟩ := run_seen seen [] [] (pending base rest)
  rw [ownStmts_pending, List.append_nil] at same
  exact ⟨told, by rw [ofProgram, split, same]⟩

theorem ofProgram_again (failed : (ofProgram source V program base).result = .error fault) :
    ∃ before spec rest, program = before ++ .importFile spec :: rest ∧
      ((∃ tried, source.resolve spec base = .error tried ∧ fault = .imported (.notFound spec) tried ∧
          (ofProgram source (ofProgram source V program base).visited program base).result =
            .error fault) ∨
        ∃ f, source.resolve spec base = .ok f ∧ V.contains f = false ∧
          (ofProgram source V program base).visited.contains f = true ∧
          (ofProgram source (ofProgram source V program base).visited program base).result =
            (ofProgram source (ofProgram source V program base).visited rest base).result.map
              ((before.filter fun s => s.importSpec?.isNone) ++ ·)) := by
  obtain ⟨before, spec, rest, same, seen, cause⟩ := ofProgram_stops failed
  obtain ⟨told, again⟩ := ofProgram_seen seen (.importFile spec :: rest)
  rw [← same] at again
  refine ⟨before, spec, rest, same, ?_⟩
  rcases cause with ⟨tried, missing, rfl⟩ | ⟨f, found, fresh, held⟩
  · refine .inl ⟨tried, missing, rfl, ?_⟩
    rw [again, pending, List.map_cons, run_missing missing]
  · refine .inr ⟨f, found, fresh, held, ?_⟩
    rw [again, pending, List.map_cons, run_repeated found held, run_result, List.reverse_reverse]
    rfl

/-- What failures leave behind, over all that a linker may be asked. A file that counts as taken in was
marked, or loads, or made a request fail because it does not load; and each request that fails for a
reason other than a missing file leaves such a file. -/
theorem visited_after_failures (source : ModuleSource) (requests : List Request) :
    (∀ f ∈ (after source .empty requests).paths, .mark f ∈ requests ∨
      (∃ program, (load source f).1 = .ok program) ∨
      ∃ before r later fault, requests = before ++ r :: later ∧ (load source f).1 = .error fault ∧
        (r.linked source (after source .empty before)).result = .error fault) ∧
    (∀ before r later fault, requests = before ++ r :: later →
      (r.linked source (after source .empty before)).result = .error fault →
      (∃ spec tried, fault = .imported (.notFound spec) tried) ∨
        (∃ path error, r = .entry path ∧ source.entry path = .error error ∧ fault = .source error) ∨
        ∃ f, (after source .empty requests).contains f = true ∧ (load source f).1 = .error fault) ∧
    ∀ program base fault first, first = ofProgram source (after source .empty requests) program base →
      first.result = .error fault →
      ∃ before spec rest, program = before ++ .importFile spec :: rest ∧
        ((∃ tried, source.resolve spec base = .error tried ∧
            fault = .imported (.notFound spec) tried ∧
            (ofProgram source first.visited program base).result = .error fault) ∨
          ∃ f, source.resolve spec base = .ok f ∧
            (after source .empty requests).contains f = false ∧ first.visited.contains f = true ∧
            (ofProgram source first.visited program base).result =
              (ofProgram source first.visited rest base).result.map
                ((before.filter fun s => s.importSpec?.isNone) ++ ·)) := by
  refine ⟨fun f added => ?_, ?_, ?_⟩
  · rcases after_accounts added with none | accounted
    · cases none
    · exact accounted
  · rintro before r later fault rfl failed
    rcases r.leaves failed with missing | absent | ⟨f, held, unread⟩
    · exact .inl missing
    · exact .inr (.inl absent)
    · refine .inr (.inr ⟨f, ?_, unread⟩)
      rw [after_append]
      exact @contains_after source (r.linked source (after source .empty before)).visited f later held
  · rintro program base fault first rfl failed
    exact ofProgram_again failed

-- One module, and it is no program.
def broken : Shelf :=
  ⟨[(⟨"/p/bad.rr"⟩, "let = 2;")]⟩

theorem load_broken : ∃ fault told, load broken.source ⟨"/p/bad.rr"⟩ = (.error fault, told) := by
  have unread : (load broken.source ⟨"/p/bad.rr"⟩).1.toOption.isNone = true := by decide +kernel
  rcases loaded : load broken.source ⟨"/p/bad.rr"⟩ with ⟨fault | program, told⟩
  · exact ⟨fault, told, rfl⟩
  · rw [loaded] at unread
    cases unread

theorem resolve_broken : broken.source.resolve "bad.rr" ⟨"/p"⟩ = .ok ⟨"/p/bad.rr"⟩ := by
  decide +kernel

theorem ofProgram_broken :
    ∃ fault told, (load broken.source ⟨"/p/bad.rr"⟩).1 = .error fault ∧
      ofProgram broken.source .empty [.importFile "bad.rr"] ⟨"/p"⟩ =
        ⟨.error fault, PathSet.empty.insert ⟨"/p/bad.rr"⟩, told⟩ := by
  obtain ⟨fault, told, unread⟩ := load_broken
  have fresh : PathSet.empty.contains ⟨"/p/bad.rr"⟩ = false := by decide +kernel
  have ran : ofProgram broken.source .empty [.importFile "bad.rr"] ⟨"/p"⟩ = _ :=
    run_unread resolve_broken fresh unread
  exact ⟨fault, _, by rw [unread], ran⟩

theorem ofProgram_broken_again :
    (ofProgram broken.source (PathSet.empty.insert ⟨"/p/bad.rr"⟩) [.importFile "bad.rr"]
      ⟨"/p"⟩).result = .ok [] := by
  have held := PathSet.empty.contains_insert_self ⟨"/p/bad.rr"⟩
  rw [ofProgram, pending, List.map_singleton, run_repeated resolve_broken held, run_nil]
  rfl

theorem visited_after_failures_broken :
    ∃ fault first, first = ofProgram broken.source .empty [.importFile "bad.rr"] ⟨"/p"⟩ ∧
      first.result = .error fault ∧
      ((∃ spec tried, fault = .imported (.notFound spec) tried) ∨
        (∃ path error, Request.imports [.importFile "bad.rr"] ⟨"/p"⟩ = .entry path ∧
          broken.source.entry path = .error error ∧ fault = .source error) ∨
        ∃ f, (after broken.source .empty [.imports [.importFile "bad.rr"] ⟨"/p"⟩]).contains f = true ∧
          (load broken.source f).1 = .error fault) ∧
      ∃ before spec rest, [.importFile "bad.rr"] = before ++ Stmt.importFile spec :: rest ∧
        ((∃ tried, broken.source.resolve spec ⟨"/p"⟩ = .error tried ∧
            fault = .imported (.notFound spec) tried ∧
            (ofProgram broken.source first.visited [.importFile "bad.rr"] ⟨"/p"⟩).result =
              .error fault) ∨
          ∃ f, broken.source.resolve spec ⟨"/p"⟩ = .ok f ∧ PathSet.empty.contains f = false ∧
            first.visited.contains f = true ∧
            (ofProgram broken.source first.visited [.importFile "bad.rr"] ⟨"/p"⟩).result =
              (ofProgram broken.source first.visited rest ⟨"/p"⟩).result.map
                ((before.filter fun s => s.importSpec?.isNone) ++ ·)) := by
  obtain ⟨fault, told, unread, ran⟩ := ofProgram_broken
  have failed : (ofProgram broken.source .empty [.importFile "bad.rr"] ⟨"/p"⟩).result =
      .error fault := by
    rw [ran]
  refine ⟨fault, _, rfl, failed, ?_, ?_⟩
  · exact (visited_after_failures broken.source [.imports [.importFile "bad.rr"] ⟨"/p"⟩]).2.1
      [] _ [] fault rfl failed
  · exact (visited_after_failures broken.source []).2.2 _ _ fault _ rfl failed

theorem failed_import_masked :
    ∃ fault first, first = ofProgram broken.source .empty [.importFile "bad.rr"] ⟨"/p"⟩ ∧
      first.result = .error fault ∧ (load broken.source ⟨"/p/bad.rr"⟩).1 = .error fault ∧
      ⟨"/p/bad.rr"⟩ ∈ first.visited.paths ∧
      (ofProgram broken.source first.visited [.importFile "bad.rr"] ⟨"/p"⟩).result = .ok [] := by
  obtain ⟨fault, told, unread, ran⟩ := ofProgram_broken
  have listed : ⟨"/p/bad.rr"⟩ ∈ (PathSet.empty.insert ⟨"/p/bad.rr"⟩).paths := by decide +kernel
  exact ⟨fault, _, ran.symm, rfl, unread, listed, ofProgram_broken_again⟩

end Linked

end ScriptCpp
