import Mathlib
import ScriptCpp.Proofs.Linking.Reachability

set_option autoImplicit false

namespace ScriptCpp

def Stmt.importSpec? : Stmt → Option String
  | .importFile spec => some spec
  | _ => none

theorem Stmt.importSpec?_eq_none {s : Stmt} (own : ∀ spec, s ≠ .importFile spec) :
    s.importSpec? = none := by
  cases s with
  | importFile spec => exact absurd rfl (own spec)
  | _ => rfl

theorem Stmt.eq_importFile {s : Stmt} {spec : String} (h : s.importSpec? = some spec) :
    s = .importFile spec := by
  cases s with
  | importFile path => rw [Option.some.inj h]
  | _ => cases h

namespace Linking

/-- What becomes of a sequence of statements. An import either has the file in its place or, when the
file is there already, nothing. -/
inductive Expansion where
  | done
  | own (s : Stmt) (next : Expansion)
  | skipped (f : Path) (next : Expansion)
  | file (f : Path) (inside next : Expansion)

inductive Expands (source : ModuleSource) : List Pending → Expansion → Prop
  | done : Expands source [] .done
  | own {base : Path} {s : Stmt} {rest : List Pending} {next : Expansion}
      (kept : ∀ spec, s ≠ .importFile spec) (after : Expands source rest next) :
      Expands source (⟨base, s⟩ :: rest) (.own s next)
  | skipped {base f : Path} {spec : String} {rest : List Pending} {next : Expansion}
      (found : source.resolve spec base = .ok f) (after : Expands source rest next) :
      Expands source (⟨base, .importFile spec⟩ :: rest) (.skipped f next)
  | file {base f : Path} {spec : String} {rest : List Pending} {program : Program}
      {inside next : Expansion} (found : source.resolve spec base = .ok f)
      (loaded : (load source f).1 = .ok program)
      (within : Expands source (pending f.directory program) inside)
      (after : Expands source rest next) :
      Expands source (⟨base, .importFile spec⟩ :: rest) (.file f inside next)

namespace Expansion

def stmts : Expansion → List Stmt
  | .done => []
  | .own s next => s :: next.stmts
  | .skipped _ next => next.stmts
  | .file _ inside next => inside.stmts ++ next.stmts

/-- The imports in the order they are met, with whether the file was put in place. -/
def met : Expansion → List (Path × Bool)
  | .done => []
  | .own _ next => next.met
  | .skipped f next => (f, false) :: next.met
  | .file f inside next => (f, true) :: (inside.met ++ next.met)

def files (e : Expansion) : List Path :=
  (e.met.filter Prod.snd).map Prod.fst

def parts (owner : Option Path) : Expansion → List (Option Path × Stmt)
  | .done => []
  | .own s next => (owner, s) :: next.parts owner
  | .skipped _ next => next.parts owner
  | .file f inside next => inside.parts (some f) ++ next.parts owner

def append : Expansion → Expansion → Expansion
  | .done, e => e
  | .own s next, e => .own s (next.append e)
  | .skipped f next, e => .skipped f (next.append e)
  | .file f inside next, e => .file f inside (next.append e)

theorem stmts_append (a b : Expansion) : (a.append b).stmts = a.stmts ++ b.stmts := by
  induction a with
  | done => rfl
  | own s next ih => simp [append, stmts, ih]
  | skipped f next ih => simp [append, stmts, ih]
  | file f inside next _ ih => simp [append, stmts, ih]

theorem met_append (a b : Expansion) : (a.append b).met = a.met ++ b.met := by
  induction a with
  | done => rfl
  | own s next ih => simp [append, met, ih]
  | skipped f next ih => simp [append, met, ih]
  | file f inside next _ ih => simp [append, met, ih]

theorem map_parts (owner : Option Path) (e : Expansion) : (e.parts owner).map Prod.snd = e.stmts := by
  induction e generalizing owner with
  | done => rfl
  | own s next ih => simp [parts, stmts, ih]
  | skipped f next ih => simp [parts, stmts, ih]
  | file f inside next within after => simp [parts, stmts, within, after]

end Expansion

def ownStmts (todo : List Pending) : List Stmt :=
  (todo.map Pending.stmt).filter fun s => s.importSpec?.isNone

def comingFrom (owner : Option Path) (parts : List (Option Path × Stmt)) : List Stmt :=
  (parts.filter fun part => part.1 = owner).map Prod.snd

def FirstMet (V : PathSet) (met : List (Path × Bool)) : Prop :=
  ∀ before f placed after, met = before ++ (f, placed) :: after →
    (placed = true ↔ V.contains f = false ∧ f ∉ before.map Prod.fst)

structure Expanded (source : ModuleSource) (V : PathSet) (todo : List Pending) (e : Expansion) :
    Prop where
  expands : Expands source todo e
  first : FirstMet V e.met
  once : e.files.Nodup
  reached : ∀ f, f ∈ e.files ↔ Reaches source V todo f

variable {source : ModuleSource} {V : PathSet} {f g : Path} {spec : String} {base : Path}
  {todo rest : List Pending} {e : Expansion} {owner : Option Path}

section Files

variable (s : Stmt) (f : Path) (inside next : Expansion)

theorem files_own : (Expansion.own s next).files = next.files := rfl

theorem files_skipped : (Expansion.skipped f next).files = next.files := rfl

theorem files_file :
    (Expansion.file f inside next).files = f :: (inside.files ++ next.files) := by
  simp [Expansion.files, Expansion.met]

theorem files_append (a b : Expansion) : (a.append b).files = a.files ++ b.files := by
  simp [Expansion.files, Expansion.met_append]

end Files

theorem expands_append {xs ys : List Pending} (h : Expands source (xs ++ ys) e) :
    ∃ a b, e = a.append b ∧ Expands source xs a ∧ Expands source ys b := by
  induction xs generalizing e with
  | nil => exact ⟨.done, e, rfl, .done, h⟩
  | cons x xs ih =>
    cases h with
    | own kept after =>
      obtain ⟨a, b, rfl, left, right⟩ := ih after
      exact ⟨.own _ a, b, rfl, .own kept left, right⟩
    | skipped found after =>
      obtain ⟨a, b, rfl, left, right⟩ := ih after
      exact ⟨.skipped _ a, b, rfl, .skipped found left, right⟩
    | file found loaded within after =>
      obtain ⟨a, b, rfl, left, right⟩ := ih after
      exact ⟨.file _ _ a, b, rfl, .file found loaded within left, right⟩

theorem Expands.met_resolved (h : Expands source todo e) : ∀ m ∈ e.met, source.Resolved m.1 := by
  induction h with
  | done => simp [Expansion.met]
  | own _ _ ih => exact ih
  | skipped found _ ih => exact List.forall_mem_cons.mpr ⟨⟨_, _, found⟩, ih⟩
  | file found _ _ _ within after =>
    exact List.forall_mem_cons.mpr ⟨⟨_, _, found⟩, List.forall_mem_append.mpr ⟨within, after⟩⟩

theorem FirstMet.skipped {met : List (Path × Bool)} (seen : V.contains g = true)
    (h : FirstMet V met) : FirstMet V ((g, false) :: met) := by
  intro before f placed after split
  cases before with
  | nil =>
    obtain ⟨⟨rfl, rfl⟩, _⟩ := by simpa using split
    simp [seen]
  | cons m before =>
    obtain ⟨rfl, later⟩ := List.cons.inj split
    rw [h before f placed after later]
    -- The skipped import tells nothing new, as its file is there already.
    have other : V.contains f = false → f ≠ g := by
      rintro outside rfl
      exact absurd seen (by simp [outside])
    simp only [List.map_cons, List.mem_cons]
    tauto

theorem FirstMet.placed {met : List (Path × Bool)} (distinct : source.Distinct)
    (means : source.Resolved g) (all : ∀ m ∈ met, source.Resolved m.1)
    (fresh : V.contains g = false) (h : FirstMet (V.insert g) met) :
    FirstMet V ((g, true) :: met) := by
  intro before f placed after split
  cases before with
  | nil =>
    obtain ⟨⟨rfl, rfl⟩, _⟩ := by simpa using split
    simp [fresh]
  | cons m before =>
    obtain ⟨rfl, later⟩ := List.cons.inj split
    have meansF : source.Resolved f := all (f, placed) (by rw [later]; simp)
    rw [h before f placed after later, contains_insert_eq_false distinct meansF means]
    simp only [List.map_cons, List.mem_cons]
    tauto

namespace Expanded

theorem done : Expanded source V [] .done where
  expands := .done
  first := fun before f placed after split => by
    cases before <;> cases split
  once := .nil
  reached f := by simp [Expansion.files, Expansion.met, not_reaches_nil]

theorem own {s : Stmt} (kept : ∀ spec, s ≠ .importFile spec) (h : Expanded source V rest e) :
    Expanded source V (⟨base, s⟩ :: rest) (.own s e) where
  expands := .own kept h.expands
  first := h.first
  once := h.once
  reached f := by rw [files_own, h.reached, reaches_cons_own kept]

theorem skipped (found : source.resolve spec base = .ok g) (seen : V.contains g = true)
    (h : Expanded source V rest e) :
    Expanded source V (⟨base, .importFile spec⟩ :: rest) (.skipped g e) where
  expands := .skipped found h.expands
  first := h.first.skipped seen
  once := h.once
  reached f := by rw [files_skipped, h.reached, reaches_cons_repeated found seen]

theorem file {program : Program} (distinct : source.Distinct)
    (found : source.resolve spec base = .ok g) (fresh : V.contains g = false)
    (loaded : (load source g).1 = .ok program)
    (h : Expanded source (V.insert g) (pending g.directory program ++ rest) e) :
    ∃ inside next, e = inside.append next ∧
      Expanded source V (⟨base, .importFile spec⟩ :: rest) (.file g inside next) := by
  obtain ⟨inside, next, rfl, within, after⟩ := expands_append h.expands
  have files : (Expansion.file g inside next).files = g :: (inside.append next).files := by
    rw [files_file, files_append]
  have apart : g ∉ (inside.append next).files := by
    intro present
    have outside := ((h.reached g).mp present).fresh
    simp [PathSet.contains_insert_self] at outside
  refine ⟨inside, next, rfl, .file found loaded within after, ?_, ?_, ?_⟩
  · rw [Expansion.met, ← Expansion.met_append]
    exact .placed distinct ⟨spec, base, found⟩ h.expands.met_resolved fresh h.first
  · rw [files]
    exact List.nodup_cons.mpr ⟨apart, h.once⟩
  · intro f
    rw [files, List.mem_cons, h.reached, reaches_cons_fresh distinct found fresh,
      contents_of_load loaded]

end Expanded

theorem run_expanded (distinct : source.Distinct) (notices : List Notice) (done : List Stmt)
    {body : Program} (linked : (run source V notices done todo).result = .ok body) :
    ∃ e, Expanded source V todo e ∧ body = done.reverse ++ e.stmts := by
  fun_induction run source V notices done todo with
  | case1 V notices done =>
    exact ⟨.done, .done, by simpa [Expansion.stmts] using (Except.ok.inj linked).symm⟩
  | case2 V notices done base spec rest tried missing => cases linked
  | case3 V notices done base spec rest g found seen ih =>
    obtain ⟨e, expanded, same⟩ := ih linked
    exact ⟨.skipped g e, expanded.skipped found seen, same⟩
  | case4 V notices done base spec rest g found fresh fault told unread => cases linked
  | case5 V notices done base spec rest g found fresh program told loaded ih =>
    obtain ⟨e, expanded, same⟩ := ih linked
    obtain ⟨inside, next, rfl, whole⟩ :=
      expanded.file distinct found (by simpa using fresh) (by rw [loaded])
    exact ⟨.file g inside next, whole, by rw [same, Expansion.stmts_append, Expansion.stmts]⟩
  | case6 V notices done base s rest own ih =>
    obtain ⟨e, expanded, same⟩ := ih linked
    exact ⟨.own s e, expanded.own own, by simpa [Expansion.stmts] using same⟩

theorem comingFrom_append (xs ys : List (Option Path × Stmt)) :
    comingFrom owner (xs ++ ys) = comingFrom owner xs ++ comingFrom owner ys := by
  simp [comingFrom]

theorem origin_of_mem_parts {part : Option Path × Stmt} (present : part ∈ e.parts owner) :
    part.1 = owner ∨ ∃ f ∈ e.files, part.1 = some f := by
  induction e generalizing owner with
  | done => cases present
  | own s next ih =>
    rcases List.mem_cons.mp present with rfl | later
    · exact .inl rfl
    · exact ih later
  | skipped f next ih => exact ih present
  | file f inside next within after =>
    rw [files_file]
    rcases List.mem_append.mp present with here | later
    · rcases within here with same | ⟨g, placed, same⟩
      · exact .inr ⟨f, by simp, same⟩
      · exact .inr ⟨g, by simp [placed], same⟩
    · rcases after later with same | ⟨g, placed, same⟩
      · exact .inl same
      · exact .inr ⟨g, by simp [placed], same⟩

theorem comingFrom_eq_nil {origin : Option Path} (other : origin ≠ owner)
    (absent : ∀ f ∈ e.files, origin ≠ some f) : comingFrom origin (e.parts owner) = [] := by
  rw [comingFrom, List.map_eq_nil_iff, List.filter_eq_nil_iff]
  intro part present
  simp only [decide_eq_true_eq]
  rintro rfl
  rcases origin_of_mem_parts present with same | ⟨f, placed, same⟩
  · exact other same
  · exact absent f placed same

theorem Expands.comingFrom_owner (h : Expands source todo e)
    (absent : ∀ f ∈ e.files, owner ≠ some f) :
    comingFrom owner (e.parts owner) = ownStmts todo := by
  induction h with
  | done => rfl
  | own kept _ ih =>
    have rest := ih absent
    simp only [comingFrom, ownStmts] at rest ⊢
    simp [Expansion.parts, Stmt.importSpec?_eq_none kept, rest]
  | skipped _ _ ih => exact ih absent
  | file _ _ _ _ _ after =>
    rw [files_file, List.forall_mem_cons, List.forall_mem_append] at absent
    rw [Expansion.parts, comingFrom_append, comingFrom_eq_nil absent.1 absent.2.1,
      after absent.2.2]
    rfl

theorem Expands.comingFrom_file (h : Expands source todo e) (once : e.files.Nodup)
    (absent : ∀ f ∈ e.files, owner ≠ some f) :
    ∀ f ∈ e.files, comingFrom (some f) (e.parts owner) = ownStmts (contents source f) := by
  induction h generalizing owner with
  | done => simp [Expansion.files, Expansion.met]
  | own _ _ ih =>
    intro f placed
    have rest := ih once absent f placed
    have other := absent f placed
    simpa [comingFrom, Expansion.parts, other] using rest
  | skipped _ _ ih => exact ih once absent
  | @file base g spec rest program inside next found loaded within _ ihWithin ihAfter =>
    rw [files_file] at once absent ⊢
    obtain ⟨apart, split⟩ := List.nodup_cons.mp once
    obtain ⟨onceWithin, onceAfter, disjoint⟩ := List.nodup_append.mp split
    rw [List.mem_append, not_or] at apart
    rw [List.forall_mem_cons, List.forall_mem_append] at absent
    have absentWithin : ∀ f ∈ inside.files, some g ≠ some f := by
      rintro f placed ⟨⟩
      exact apart.1 placed
    intro f placed
    rw [Expansion.parts, comingFrom_append]
    -- Each file has one place: here, further inside, or after.
    rcases List.mem_cons.mp placed with rfl | further
    · have nothing : comingFrom (some f) (next.parts owner) = [] :=
        comingFrom_eq_nil absent.1.symm (by rintro f placed ⟨⟩; exact apart.2 placed)
      rw [within.comingFrom_owner absentWithin, nothing, List.append_nil, contents_of_load loaded]
    · rcases List.mem_append.mp further with inner | later
      · have nothing : comingFrom (some f) (next.parts owner) = [] :=
          comingFrom_eq_nil (absent.2.1 f inner).symm
            (by rintro g placed ⟨⟩; exact disjoint _ inner _ placed rfl)
        rw [nothing, List.append_nil]
        exact ihWithin onceWithin absentWithin f inner
      · have nothing : comingFrom (some f) (inside.parts (some g)) = [] :=
          comingFrom_eq_nil (by rintro ⟨⟩; exact apart.2 later)
            (by rintro g placed ⟨⟩; exact disjoint _ placed _ later rfl)
        rw [nothing, List.nil_append]
        exact ihAfter onceAfter absent.2.2 f later

theorem Expands.importFile_not_mem (h : Expands source todo e) : .importFile spec ∉ e.stmts := by
  induction h with
  | done => simp [Expansion.stmts]
  | own kept _ ih => simp [Expansion.stmts, ih, Ne.symm (kept spec)]
  | skipped _ _ ih => exact ih
  | file _ _ _ _ within after => simp [Expansion.stmts, within, after]

/-- The statements `body` are those of `todo`, which come from `owner`, with every file outside `V`
that imports lead to put in place of its first import, and `visited` is `V` with these files. -/
structure Inlined (source : ModuleSource) (V : PathSet) (owner : Option Path)
    (todo : List Pending) (visited : PathSet) (body : Program) : Prop where
  visited_iff : ∀ f, f ∈ visited.paths ↔ f ∈ V.paths ∨ Reaches source V todo f
  no_import : ∀ spec, .importFile spec ∉ body
  placed : ∃ e, Expands source todo e ∧ e.stmts = body ∧ (e.parts owner).map Prod.snd = body ∧
    FirstMet V e.met ∧ e.files.Nodup ∧ (∀ f, f ∈ e.files ↔ Reaches source V todo f) ∧
    comingFrom owner (e.parts owner) = ownStmts todo ∧
    (∀ f ∈ e.files, comingFrom (some f) (e.parts owner) = ownStmts (contents source f)) ∧
    ∀ part ∈ e.parts owner, part.1 = owner ∨ ∃ f ∈ e.files, part.1 = some f

theorem run_inlined (distinct : source.Distinct) (taken : ∀ f, owner = some f → V.contains f = true)
    {body : Program} (linked : (run source V [] [] todo).result = .ok body) :
    Inlined source V owner todo (run source V [] [] todo).visited body := by
  obtain ⟨e, expanded, same⟩ := run_expanded distinct [] [] linked
  have absent : ∀ f ∈ e.files, owner ≠ some f := by
    rintro f present rfl
    have fresh := ((expanded.reached f).mp present).fresh
    exact absurd (taken f rfl) (by simp [fresh])
  obtain rfl : e.stmts = body := by simpa using same.symm
  exact ⟨fun f => mem_run_visited distinct [] [] linked,
    fun spec => expanded.expands.importFile_not_mem,
    e, expanded.expands, rfl, e.map_parts owner, expanded.first, expanded.once, expanded.reached,
    expanded.expands.comingFrom_owner absent, expanded.expands.comingFrom_file expanded.once absent,
    fun part present => origin_of_mem_parts present⟩

end Linking

namespace Linked

open Linking

theorem ofEntry_ok_iff {source : ModuleSource} {V : PathSet} {path : Path} {body : Program} :
    (ofEntry source V path).result = .ok body ↔
      ∃ file program, source.entry path = .ok file ∧ (load source file).1 = .ok program ∧
        (run source (V.insert file) [] [] (contents source file)).result = .ok body := by
  unfold ofEntry
  cases entered : source.entry path with
  | error error => simp
  | ok file =>
    rcases loaded : load source file with ⟨fault | program, told⟩
    · simp [loaded]
    · simp [loaded, ofProgram, contents]

theorem ofEntry_visited {source : ModuleSource} {V : PathSet} {path file : Path} {program : Program}
    (entered : source.entry path = .ok file) (loaded : (load source file).1 = .ok program) :
    (ofEntry source V path).visited =
      (run source (V.insert file) [] [] (contents source file)).visited := by
  rw [contents_of_load loaded]
  rcases read : load source file with ⟨fault | program', told⟩
  · simp [read] at loaded
  · obtain rfl : program' = program := by simpa [read] using loaded
    simp [ofEntry, entered, read, ofProgram]

/-- Linking succeeds exactly when nothing stands in its way, and then puts in place the files that
imports lead to, each once. The file to start from is taken in before anything else. -/
theorem inlines_reachable_files (s : Shelf) (V : PathSet) :
    (∀ program base,
      ((∃ body, (ofProgram s.source V program base).result = .ok body) ↔
        Linkable s.source V (pending base program)) ∧
      ∀ body, (ofProgram s.source V program base).result = .ok body →
        Inlined s.source V none (pending base program)
          (ofProgram s.source V program base).visited body) ∧
    ∀ path,
      ((∃ body, (ofEntry s.source V path).result = .ok body) ↔
        ∃ file program, s.source.entry path = .ok file ∧ (load s.source file).1 = .ok program ∧
          Linkable s.source (V.insert file) (pending file.directory program)) ∧
      ∀ body, (ofEntry s.source V path).result = .ok body →
        ∃ file program, s.source.entry path = .ok file ∧ (load s.source file).1 = .ok program ∧
          Inlined s.source (V.insert file) (some file) (pending file.directory program)
            (ofEntry s.source V path).visited body := by
  have distinct := s.source_distinct
  refine ⟨fun program base => ⟨run_ok_iff distinct [] [], fun body => ?_⟩, fun path => ⟨?_, ?_⟩⟩
  · exact run_inlined distinct (by simp)
  · constructor
    · rintro ⟨body, linked⟩
      obtain ⟨file, program, entered, loaded, ran⟩ := ofEntry_ok_iff.mp linked
      rw [contents_of_load loaded] at ran
      exact ⟨file, program, entered, loaded, (run_ok_iff distinct [] []).mp ⟨body, ran⟩⟩
    · rintro ⟨file, program, entered, loaded, linkable⟩
      rw [← contents_of_load loaded] at linkable
      obtain ⟨body, ran⟩ := (run_ok_iff distinct [] []).mpr linkable
      exact ⟨body, ofEntry_ok_iff.mpr ⟨file, program, entered, loaded, ran⟩⟩
  · intro body linked
    obtain ⟨file, program, entered, loaded, ran⟩ := ofEntry_ok_iff.mp linked
    refine ⟨file, program, entered, loaded, ?_⟩
    rw [ofEntry_visited entered loaded]
    rw [contents_of_load loaded] at ran ⊢
    refine run_inlined distinct ?_ ran
    rintro f ⟨⟩
    exact V.contains_insert_self file

-- Two files that import each other, linked from the first one.
def cycle : Shelf :=
  ⟨[(⟨"a"⟩, "import \"b\"; x;"), (⟨"b"⟩, "y; import \"a\";")]⟩

-- The spec of an import, or the name that stands as a statement.
def outline (s : Stmt) : Option String × Option String :=
  (s.importSpec?, s.expr?.bind Expr.name?)

theorem eq_of_outline_import {s : Stmt} {spec : String} (h : outline s = (some spec, none)) :
    s = .importFile spec :=
  Stmt.eq_importFile (congrArg Prod.fst h)

theorem eq_of_outline_name {s : Stmt} {name : String} (h : outline s = (none, some name)) :
    s = .expr (.ident name) := by
  have named : s.expr?.bind Expr.name? = some name := congrArg Prod.snd h
  obtain ⟨e, isExpr, isIdent⟩ := Option.bind_eq_some_iff.mp named
  cases s with
  | expr value =>
    obtain rfl : value = e := Option.some.inj isExpr
    cases value with
    | ident text => rw [Option.some.inj isIdent]
    | _ => cases isIdent
  | _ => cases isExpr

theorem load_eq_of_outline {source : ModuleSource} {f : Path}
    {a b : Option String × Option String}
    (h : (load source f).1.toOption.map (List.map outline) = some [a, b]) :
    ∃ x y, (load source f).1 = .ok [x, y] ∧ outline x = a ∧ outline y = b := by
  cases loaded : (load source f).1 with
  | error fault =>
    rw [loaded] at h
    cases h
  | ok program =>
    rw [loaded] at h
    have outlined : program.map outline = [a, b] := Option.some.inj h
    obtain ⟨x, rest, rfl, first, outlined⟩ := List.map_eq_cons_iff.mp outlined
    obtain ⟨y, rest, rfl, second, outlined⟩ := List.map_eq_cons_iff.mp outlined
    obtain rfl := List.map_eq_nil_iff.mp outlined
    exact ⟨x, y, rfl, first, second⟩

theorem load_cycle_a :
    (load cycle.source ⟨"a"⟩).1 = .ok [.importFile "b", .expr (.ident "x")] := by
  have outlined : (load cycle.source ⟨"a"⟩).1.toOption.map (List.map outline) =
      some [(some "b", none), (none, some "x")] := by decide +kernel
  obtain ⟨s, t, loaded, first, second⟩ := load_eq_of_outline outlined
  rw [loaded, eq_of_outline_import first, eq_of_outline_name second]

theorem load_cycle_b :
    (load cycle.source ⟨"b"⟩).1 = .ok [.expr (.ident "y"), .importFile "a"] := by
  have outlined : (load cycle.source ⟨"b"⟩).1.toOption.map (List.map outline) =
      some [(none, some "y"), (some "a", none)] := by decide +kernel
  obtain ⟨s, t, loaded, first, second⟩ := load_eq_of_outline outlined
  rw [loaded, eq_of_outline_name first, eq_of_outline_import second]

theorem ofEntry_cycle :
    (ofEntry cycle.source .empty ⟨"a"⟩).result = .ok [.expr (.ident "y"), .expr (.ident "x")] := by
  have entered : cycle.source.entry ⟨"a"⟩ = .ok ⟨"a"⟩ := by decide +kernel
  have meansA : cycle.source.resolve "a" (Path.directory ⟨"b"⟩) = .ok ⟨"a"⟩ := by decide +kernel
  have meansB : cycle.source.resolve "b" (Path.directory ⟨"a"⟩) = .ok ⟨"b"⟩ := by decide +kernel
  have fresh : (PathSet.empty.insert ⟨"a"⟩).contains ⟨"b"⟩ = false := by decide +kernel
  have seen : ((PathSet.empty.insert ⟨"a"⟩).insert ⟨"b"⟩).contains ⟨"a"⟩ = true := by
    decide +kernel
  refine ofEntry_ok_iff.mpr ⟨_, _, entered, load_cycle_a, ?_⟩
  rw [contents_of_load load_cycle_a]
  simp [pending, run_fresh meansB fresh load_cycle_b, run_repeated meansA seen, run]

theorem inlines_reachable_files_cycle :
    (ofEntry cycle.source .empty ⟨"a"⟩).result = .ok [.expr (.ident "y"), .expr (.ident "x")] ∧
      ∃ file program, cycle.source.entry ⟨"a"⟩ = .ok file ∧
        (load cycle.source file).1 = .ok program ∧
        Inlined cycle.source (PathSet.empty.insert file) (some file)
          (pending file.directory program)
          (ofEntry cycle.source .empty ⟨"a"⟩).visited [.expr (.ident "y"), .expr (.ident "x")] :=
  ⟨ofEntry_cycle, ((inlines_reachable_files cycle .empty).2 ⟨"a"⟩).2 _ ofEntry_cycle⟩

end Linked

end ScriptCpp
