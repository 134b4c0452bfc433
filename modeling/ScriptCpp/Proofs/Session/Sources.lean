import Mathlib
import ScriptCpp.Proofs.Emission.Composition
import ScriptCpp.Proofs.Lexing.Lexeme
import ScriptCpp.Proofs.Linking.Expansion
import ScriptCpp.Proofs.Session.Footprint

set_option autoImplicit false

namespace ScriptCpp

def IsScript (content : ByteArray) : Prop :=
  ∃ text program, String.fromUTF8? content = some text ∧ Program.ofText text = .ok program

namespace Linking

variable {source : ModuleSource} {V : PathSet} {todo : List Pending} {f : Path}

theorem run_loads (notices : List Notice) (done : List Stmt) {body : Program}
    (linked : (run source V notices done todo).result = .ok body)
    (before : ∀ f ∈ V.paths, ∃ program, (load source f).1 = .ok program) :
    ∀ f ∈ (run source V notices done todo).visited.paths,
      ∃ program, (load source f).1 = .ok program := by
  fun_induction run source V notices done todo with
  | case1 V notices done => exact before
  | case2 V notices done base spec rest tried missing => cases linked
  | case3 V notices done base spec rest g found seen ih => exact ih linked before
  | case4 V notices done base spec rest g found fresh fault told unread => cases linked
  | case5 V notices done base spec rest g found fresh program told loaded ih =>
    apply ih linked
    intro f present
    rcases (PathSet.mem_paths_insert (by simpa using fresh)).mp present with rfl | old
    · exact ⟨program, by rw [loaded]⟩
    · exact before f old
  | case6 V notices done base s rest own ih => exact ih linked before

-- A program that imports nothing is linked to itself.
theorem run_plain {notices : List Notice} {done : List Stmt} {base : Path} {program : Program}
    (plain : ∀ s ∈ program, s.importSpec? = none) :
    run source V notices done (pending base program) =
      ⟨.ok (done.reverse ++ program), V, notices.reverse⟩ := by
  induction program generalizing done with
  | nil => simp [pending, run]
  | cons s rest ih =>
    have own : ∀ spec, s ≠ .importFile spec := by
      rintro spec rfl
      cases plain _ List.mem_cons_self
    have step : run source V notices done (pending base (s :: rest)) =
        run source V notices (s :: done) (pending base rest) := by
      rw [pending, List.map_cons, run.eq_3 _ _ _ _ _ _ _ own]
      rfl
    rw [step, ih fun t present => plain t (List.mem_cons_of_mem _ present)]
    simp

end Linking

namespace Compiled

variable {source : ModuleSource} {features : Features} {file p : Path} {compiled : Compiled}

theorem ofFile_ok_iff : ofFile source features file = .ok compiled ↔
    ∃ program, (Linked.ofEntry source .empty file).result = .ok program ∧
      program.toCpp features = .ok compiled.cpp ∧
      compiled.files = (Linked.ofEntry source .empty file).visited.paths := by
  unfold ofFile ofLinked
  cases (Linked.ofEntry source .empty file).result with
  | error e => simp [bind, Except.bind]
  | ok program =>
    cases emitted : program.toCpp features with
    | error e => simp [bind, Except.bind, emitted]
    | ok cpp =>
      cases compiled
      simp [bind, Except.bind, pure, Except.pure, emitted, eq_comm]

theorem files_load (h : ofFile source features file = .ok compiled) (present : p ∈ compiled.files) :
    ∃ program, (Linking.load source p).1 = .ok program := by
  obtain ⟨body, linked, _, files⟩ := ofFile_ok_iff.mp h
  obtain ⟨start, program, entered, loaded, ran⟩ := Linked.ofEntry_ok_iff.mp linked
  rw [files, Linked.ofEntry_visited entered loaded] at present
  apply Linking.run_loads [] [] ran _ p present
  intro f first
  rcases (PathSet.mem_paths_insert rfl).mp first with rfl | old
  · exact ⟨program, loaded⟩
  · cases old

theorem files_read {t : Tree} {home : Location}
    (h : ofFile (t.source home) features file = .ok compiled) (present : p ∈ compiled.files) :
    ∃ content, t.read home p = .ok content ∧ IsScript content := by
  obtain ⟨program, loaded⟩ := files_load h present
  unfold Linking.load at loaded
  simp only [Tree.source, Tree.readText] at loaded
  cases read : t.read home p with
  | error e => simp [read, bind, Except.bind, Except.mapError] at loaded
  | ok content =>
    cases decoded : String.fromUTF8? content with
    | none => simp [read, decoded, bind, Except.bind, Except.mapError] at loaded
    | some text =>
      simp only [read, decoded, bind, Except.bind, Except.mapError] at loaded
      cases parsed : Program.ofText text with
      | error fault => simp [parsed] at loaded
      | ok program => exact ⟨content, rfl, text, program, decoded, parsed⟩

end Compiled

section Hash

theorem Program.ofText_hash {text : String} {program : Program}
    (h : Program.ofText text = .ok program) : text.toList.head? ≠ some '#' := by
  intro first
  obtain ⟨rest, shape⟩ := List.head?_eq_some_iff.mp first
  have stuck : Token.piece '#' rest = .error (.unexpected '#') := by
    apply Token.piece_unexpected
    · decide
    · rfl
    · rfl
  have refused : Token.ofText text = .error ⟨.unexpected '#', .start⟩ := by
    rw [Token.ofText, shape, Token.scan]
    split
    · next cause found =>
      rw [stuck] at found
      cases found
      rfl
    · next found => cases stuck.symm.trans found
    · next found => cases stuck.symm.trans found
  simp [Program.ofText, refused] at h

theorem IsScript.ne_hash {content : ByteArray} {text : String} (script : IsScript content)
    (first : text.toList.head? = some '#') : content ≠ text.toUTF8 := by
  rintro rfl
  obtain ⟨read, program, decoded, parsed⟩ := script
  have same : String.fromUTF8? text.toUTF8 = some text := by
    simp [String.fromUTF8?, text.isValidUTF8, String.fromUTF8]
  rw [same, Option.some.injEq] at decoded
  exact Program.ofText_hash parsed (decoded ▸ first)

theorem Program.toCpp_hash {program : Program} {features : Features} {cpp : String}
    (h : program.toCpp features = .ok cpp) : cpp.toList.head? = some '#' := by
  obtain ⟨rest, shape⟩ : ∃ rest, Prelude.standardHeaders = "#include <iostream>\n" ++ rest :=
    ⟨_, by rw [Prelude.standardHeaders, Prelude.lines, List.map_cons, String.join_cons]; rfl⟩
  unfold toCpp at h
  rw [emit_eq_layout] at h
  cases declared : program.declarations.mapM (Emission.alone features) with
  | error e => rw [declared] at h; cases h
  | ok units =>
    cases entered : program.entry.mapM (Emission.alone features) with
    | error e => rw [declared, entered] at h; cases h
    | ok texts =>
      rw [declared, entered] at h
      obtain rfl : layout features units texts = cpp := Except.ok.inj h
      simp [layout, prelude, shape]

end Hash

namespace Artifacts

variable {outDir file : Path} {a : Artifacts}

theorem cpp_place {stem : String} (named : ofFile outDir file = .ok a)
    (h : file.stem? = some stem) (home : Location) :
    a.cpp.place home = outDir.place home ++ [stem ++ ".cpp"] := by
  obtain ⟨same, found, rfl⟩ := ofFile_ok named
  obtain rfl : stem = same := Option.some.inj (h.symm.trans found)
  have whole : '/' ∉ (stem ++ ".cpp").toList := by simpa using Path.stem?_whole h
  have heard : Path.isSilent (stem ++ ".cpp").toList = false := by
    simp [Path.isSilent, List.append_eq_singleton_iff]
  have down : (stem ++ ".cpp").toList ≠ ['.', '.'] := by
    intro same
    have := congrArg List.length same
    simp at this
  rw [Path.place_join home outDir whole, Path.stride, heard, if_neg Bool.false_ne_true, if_neg down,
    String.ofList_toList]

theorem program_place {stem : String} (named : ofFile outDir file = .ok a)
    (h : file.stem? = some stem) (home : Location) :
    a.program.place home = Path.stride (outDir.place home) stem.toList := by
  obtain ⟨same, found, rfl⟩ := ofFile_ok named
  obtain rfl : stem = same := Option.some.inj (h.symm.trans found)
  exact Path.place_join home outDir (Path.stem?_whole h)

theorem program_place_plain {stem : String} (named : ofFile outDir file = .ok a)
    (h : file.stem? = some stem) (plain : Tree.isPlain stem.toList = true) (home : Location) :
    a.program.place home = outDir.place home ++ [stem] := by
  simp only [Tree.isPlain, Bool.and_eq_true, Bool.not_eq_true', decide_eq_true_eq] at plain
  rw [program_place named h, Path.stride, plain.1, if_neg Bool.false_ne_true, if_neg plain.2,
    String.ofList_toList]

theorem cpp_place_ne (named : ofFile outDir file = .ok a) (home : Location) :
    a.cpp.place home ≠ a.program.place home := by
  obtain ⟨stem, found, _⟩ := ofFile_ok named
  rw [cpp_place named found, program_place named found]
  unfold Path.stride
  -- A stem that names nothing leads to the directory or above it.
  split
  · simp
  · split
    · intro same
      have lengths := congrArg List.length same
      rw [List.length_append, List.length_singleton, List.length_dropLast] at lengths
      omega
    · intro same
      have texts := List.singleton_inj.mp (List.append_cancel_left same)
      rw [String.ofList_toList, ← String.toList_inj] at texts
      simp at texts

theorem cpp_place_eq_iff (named : ofFile outDir file = .ok a) (home : Location) :
    file.place home = a.cpp.place home ↔
      (file.place home).dropLast = outDir.place home ∧ file.extension? = some "cpp" := by
  obtain ⟨stem, found, _⟩ := ofFile_ok named
  obtain ⟨name, last, shape⟩ := Path.stem?_cases found
  rw [cpp_place named found, Path.place_eq_iff home last]
  apply and_congr_right
  intro _
  rcases shape with ⟨rfl, bare⟩ | ⟨extension, rfl, cut⟩
  · rw [bare, ← String.toList_inj]
    simp
  · rw [cut, Option.some.injEq, ← String.toList_inj, ← String.toList_inj]
    simp

theorem program_place_eq_iff {stem : String} (named : ofFile outDir file = .ok a)
    (found : file.stem? = some stem) (plain : Tree.isPlain stem.toList = true) (home : Location) :
    file.place home = a.program.place home ↔
      (file.place home).dropLast = outDir.place home ∧ file.extension? = none := by
  obtain ⟨name, last, shape⟩ := Path.stem?_cases found
  rw [program_place_plain named found plain, Path.place_eq_iff home last]
  apply and_congr_right
  intro _
  rcases shape with ⟨rfl, bare⟩ | ⟨extension, rfl, cut⟩
  · simp [bare]
  · rw [cut, ← String.toList_inj]
    simp

end Artifacts

namespace Launcher

def bare : Launcher := fun t _ _ => (.error .noEntry, t)

def idle : Launcher := fun t _ _ => (.ok ⟨.exited 0, .empty⟩, t)

theorem idle_confined : idle.Confined := ⟨fun _ _ _ _ _ => rfl, fun _ _ _ _ entry => entry⟩

def stub : Launcher := fun t home what =>
  (.ok ⟨.exited 0, .empty⟩,
    match what.target? with
    | some target =>
        if t.isDirectory (target.place home) then t
        else t.set (target.place home) (.file "#".toUTF8 true)
    | none => t)

theorem stub_confined : stub.Confined := by
  constructor
  · intro t home what place apart
    unfold stub
    cases told : what.target? with
    | none => rfl
    | some target =>
      by_cases directory : t.isDirectory (target.place home) = true
      · simp [directory]
      · simpa [directory] using Tree.get?_set_of_ne t _ (apart target told)
  · intro t home what place entry
    unfold stub
    cases told : what.target? with
    | none => exact entry
    | some target =>
      by_cases directory : t.isDirectory (target.place home) = true
      · simpa [directory] using entry
      · have apart : place ≠ target.place home := by
          rintro rfl
          simp [Tree.isDirectory, entry] at directory
        simpa [directory, entry] using Tree.get?_set_of_ne t (.file "#".toUTF8 true) apart

end Launcher

/-- The text can be written to the file, once the directories for it are made. -/
def Machine.Accepts (s : Machine) (p : Path) (text : String) : Prop :=
  ((Session.write (Machine.host Launcher.bare) p text).run.run s).1 = .ok ()

def Tree.Within (t t' : Tree) : Prop :=
  ∀ place node, t.get? place = some node → t'.get? place = some node

namespace Session

open Machine

variable {launcher : Launcher} {settings : Settings} {file : Path} {a : Artifacts} {s s₁ : Machine}
  {compiled : Compiled}

theorem launch_within (confined : launcher.Confined) {what : Launch} (quiet : what.target? = none)
    (s : Machine) : (((host launcher).launch what).run s).2.tree.Within s.tree := by
  intro place node entry
  rw [← confined.elsewhere s.tree s.home what place (by simp [quiet])]
  exact entry

theorem remove_within (launcher : Launcher) (p : Path) (s : Machine) :
    (((host launcher).remove p).run s).2.tree.Within s.tree := by
  intro place node entry
  change (s.tree.remove s.home p).get? place = some node at entry
  rcases s.tree.remove_cases s.home p with same | ⟨file, gone⟩
  · rwa [same] at entry
  · rw [gone] at entry
    by_cases here : place = p.place s.home
    · have notRoot : p.place s.home ≠ [] := by
        intro root
        rw [root] at file
        cases file
      rw [here, Tree.get?_erase_self _ _ notRoot] at entry
      cases entry
    · rwa [Tree.get?_erase_of_ne _ here] at entry

theorem compile_ok
    (compiles : Compiled.ofFile (s.tree.source s.home) settings.features file = .ok compiled) :
    (compile (host launcher) settings file).run.run s = (.ok compiled, s) := by
  change (Except.mapError _ (Compiled.ofFile (s.tree.source s.home) settings.features file), s) = _
  rw [compiles]
  rfl

theorem artifacts_ok (named : Artifacts.ofFile (settings.outDir.getD ⟨"."⟩) file = .ok a) :
    (ExceptT.mk (pure (Artifacts.ofFile (settings.outDir.getD ⟨"."⟩) file)) :
      ExceptT Failure (StateM Machine) Artifacts).run.run s = (.ok a, s) := by
  rw [named]
  rfl

section Build

variable
  (compiles : Compiled.ofFile (s.tree.source s.home) settings.features file = .ok compiled)
  (named : Artifacts.ofFile (settings.outDir.getD ⟨"."⟩) file = .ok a)

include compiles named

theorem build_unwritten {failure : Failure}
    (wrote : (write (host launcher) a.cpp compiled.cpp).run.run s = (.error failure, s₁)) :
    (build (host launcher) settings file).run.run s = (.error failure, s₁) := by
  unfold build
  rw [andThen_of_ok (compile_ok compiles), andThen_of_ok (artifacts_ok named), andThen_error wrote]

-- After the compiler has run, a build only takes the C++ text away.
theorem build_within
    (wrote : (write (host launcher) a.cpp compiled.cpp).run.run s = (.ok (), s₁)) :
    ((build (host launcher) settings file).run.run s).2.tree.Within
      ((runCompiler (host launcher) settings a).run.run s₁).2.tree := by
  unfold build
  rw [andThen_of_ok (compile_ok compiles), andThen_of_ok (artifacts_ok named), andThen_of_ok wrote]
  rcases ended : (runCompiler (host launcher) settings a).run.run s₁ with ⟨result, s₂⟩
  have lifted : (ExceptT.lift (runCompiler (host launcher) settings a).run :
      ExceptT Failure (StateM Machine) (Except Failure Unit)).run.run s₁ = (.ok result, s₂) := by
    change (Except.ok ((runCompiler (host launcher) settings a).run.run s₁).1,
      ((runCompiler (host launcher) settings a).run.run s₁).2) = _
    rw [ended]
  rw [andThen_of_ok lifted]
  extract_lets finish
  have finished : ∀ s', ((finish ()).run.run s').2 = s' := by
    intro s'
    cases result with
    | error e => rfl
    | ok _ => rfl
  split
  · have removed : (liftM ((host launcher).remove a.cpp) :
        ExceptT Failure (StateM Machine) Unit).run.run s₂ =
          (.ok (), (((host launcher).remove a.cpp).run s₂).2) := rfl
    rw [andThen_of_ok removed, finished]
    exact remove_within launcher a.cpp s₂
  · rw [finished]
    exact fun _ _ entry => entry

end Build

theorem buildAndRun_within (confined : launcher.Confined) :
    ((buildAndRun (host launcher) settings file).run.run s).2.tree.Within
      ((build (host launcher) settings file).run.run s).2.tree := by
  unfold buildAndRun
  rcases built : (build (host launcher) settings file).run.run s with ⟨e | program, s'⟩
  · rw [andThen_error built]
    exact fun _ _ entry => entry
  · rw [andThen_of_ok built]
    have quiet : Launch.target? ⟨program.text, []⟩ = none := rfl
    intro place node entry
    apply launch_within confined quiet s' place node
    apply remove_within launcher program _ place node
    exact entry

theorem run_within : ((run (host launcher) settings file).run.run s).2.tree.Within
    ((buildAndRun (host launcher) settings file).run.run s).2.tree := by
  unfold run
  rcases ran : (buildAndRun (host launcher) settings file).run.run s with ⟨e | outcome, s'⟩
  · rw [andThen_error ran]
    exact fun _ _ entry => entry
  · rw [andThen_of_ok ran]
    cases outcome.status.isSuccess <;> exact fun _ _ entry => entry

end Session

namespace Invocation

/-- A file that could be read before an invocation reads the same after it. -/
def Keeps (invocation : Invocation) (launcher : Launcher) (s : Machine) (p : Path) : Prop :=
  ∃ content, s.tree.read s.home p = .ok content ∧
    (invocation.after launcher s).tree.read s.home p = .ok content

variable {invocation : Invocation} {launcher : Launcher} {s s₁ : Machine} {file p : Path}
  {compiled : Compiled} {a : Artifacts}

section One

variable (asked : invocation.command = .build file ∨ invocation.command = .run file)
  (compiles : Compiled.ofFile (s.tree.source s.home) invocation.settings.features file =
    .ok compiled)
  (named : Artifacts.ofFile invocation.outDir file = .ok a)

include asked

theorem builds_of_asked : invocation.builds s = [file] := by
  unfold builds
  rcases asked with build | run
  · rw [build]
  · rw [run]

include compiles named

theorem after_unwritten {failure : Failure}
    (wrote : (Session.write (Machine.host launcher) a.cpp compiled.cpp).run.run s =
      (.error failure, s₁)) : invocation.after launcher s = s₁ := by
  have built := Session.build_unwritten compiles named wrote
  unfold after perform
  rcases asked with build | run
  · simp only [build, Machine.discard_run, built]
  · simp only [run]
    unfold Session.run Session.buildAndRun
    rw [Machine.andThen_error (Machine.andThen_error built)]

theorem after_within (confined : launcher.Confined)
    (wrote : (Session.write (Machine.host launcher) a.cpp compiled.cpp).run.run s = (.ok (), s₁)) :
    (invocation.after launcher s).tree.Within
      ((Session.runCompiler (Machine.host launcher) invocation.settings a).run.run s₁).2.tree := by
  have built := Session.build_within compiles named wrote
  unfold after perform
  intro place node entry
  apply built place node
  rcases asked with build | run
  · simpa only [build, Machine.discard_run] using entry
  · simp only [run] at entry
    apply Session.buildAndRun_within confined place node
    exact Session.run_within place node entry

-- A text that starts with a hash is no script.
theorem not_keeps (confined : launcher.Confined) (present : p ∈ compiled.files)
    (wrote : (Session.write (Machine.host launcher) a.cpp compiled.cpp).run.run s = (.ok (), s₁))
    {place : Location} (here : p.place s.home = place) {text : String} {runnable : Bool}
    (replaced : ((Session.runCompiler (Machine.host launcher) invocation.settings a).run.run
      s₁).2.tree.get? place = some (.file text.toUTF8 runnable))
    (hash : text.toList.head? = some '#') : ¬ invocation.Keeps launcher s p := by
  rintro ⟨content, before, afterwards⟩
  obtain ⟨same, read, script⟩ := Compiled.files_read compiles present
  obtain rfl : content = same := Except.ok.inj (before.symm.trans read)
  obtain ⟨_, _, entry⟩ := Tree.read_ok_iff.mp afterwards
  have left := after_within asked compiles named confined wrote _ _ entry
  rw [here, replaced, Option.some.injEq, Node.file.injEq] at left
  exact script.ne_hash hash left.1.symm

theorem not_keeps_cpp (confined : launcher.Confined) (accepted : s.Accepts a.cpp compiled.cpp)
    (present : p ∈ compiled.files) (here : p.place s.home = a.cpp.place s.home) :
    ¬ invocation.Keeps launcher s p := by
  obtain ⟨t, _, ⟨failure, failed⟩ | ⟨free, runnable, wrote⟩⟩ :=
    Session.write_cases launcher s a.cpp compiled.cpp
  · cases accepted.symm.trans (congrArg Prod.fst failed)
  · obtain ⟨program, _, emitted, _⟩ := Compiled.ofFile_ok_iff.mp compiles
    have compiler : Machine.Confines (fun place => place = a.program.place s.home)
        { s with tree := t.set (a.cpp.place s.home) (.file compiled.cpp.toUTF8 runnable) }
        (Session.runCompiler (Machine.host launcher) invocation.settings a).run :=
      Session.confines_runCompiler confined named rfl
    have notRoot : a.cpp.place s.home ≠ [] := by
      intro root
      rw [root] at free
      exact free rfl
    have written := Tree.get?_set_self t _ (.file compiled.cpp.toUTF8 runnable) notRoot
    have stays := compiler.tree.file (Artifacts.cpp_place_ne named s.home) written
    exact not_keeps asked compiles named confined present wrote here stays
      (Program.toCpp_hash emitted)

theorem not_keeps_program (accepted : s.Accepts a.cpp compiled.cpp)
    (present : p ∈ compiled.files) (here : p.place s.home = a.program.place s.home) :
    ¬ invocation.Keeps Launcher.stub s p := by
  obtain ⟨t, spared, ⟨failure, failed⟩ | ⟨free, runnable, wrote⟩⟩ :=
    Session.write_cases Launcher.stub s a.cpp compiled.cpp
  · cases accepted.symm.trans (congrArg Prod.fst failed)
  · obtain ⟨content, read, _⟩ := Compiled.files_read compiles present
    obtain ⟨_, mode, entry⟩ := Tree.read_ok_iff.mp read
    rw [here] at entry
    have before : (t.set (a.cpp.place s.home) (.file compiled.cpp.toUTF8 runnable)).get?
        (a.program.place s.home) = some (.file content mode) := by
      rw [Tree.get?_set_of_ne t _ (Artifacts.cpp_place_ne named s.home).symm]
      exact spared.file not_false entry
    obtain ⟨t', extra, spared', _, left⟩ := Session.runCompiler_cases Launcher.stub_confined
      { s with tree := t.set (a.cpp.place s.home) (.file compiled.cpp.toUTF8 runnable) }
    have still := spared'.file not_false before
    have notRoot : a.program.place s.home ≠ [] := by
      intro root
      rw [root] at entry
      cases entry
    have replaced : (Launcher.stub t' s.home ⟨invocation.settings.compiler,
        a.compilerArguments invocation.settings.optimize extra⟩).2.get? (a.program.place s.home) =
          some (.file "#".toUTF8 true) := by
      simp only [Launcher.stub, Artifacts.target?_compilerArguments named, Tree.isDirectory, still]
      exact Tree.get?_set_self t' _ _ notRoot
    rw [← left] at replaced
    exact not_keeps asked compiles named Launcher.stub_confined present wrote here replaced rfl

theorem keeps_of_refused (refused : ¬ s.Accepts a.cpp compiled.cpp) (present : p ∈ compiled.files) :
    invocation.Keeps launcher s p := by
  obtain ⟨content, read, _⟩ := Compiled.files_read compiles present
  obtain ⟨t, spared, ⟨failure, failed⟩ | ⟨free, runnable, wrote⟩⟩ :=
    Session.write_cases launcher s a.cpp compiled.cpp
  · rw [Keeps, after_unwritten asked compiles named failed]
    exact ⟨content, read, spared.read not_false read⟩
  · exact absurd (congrArg Prod.fst wrote) refused

end One

theorem keeps_of_apart (confined : launcher.Confined)
    (apart : ¬ invocation.Touches s (p.place s.home)) {content : ByteArray} (read : s.tree.read s.home p = .ok content) :
    invocation.Keeps launcher s p :=
  ⟨content, read, (after_spares confined invocation s).tree.read apart read⟩

/-- A file that a script is compiled from survives whatever is done with the script, unless it
stands where the C++ text or the program of a script is put. One that stands there can be lost in
a build, as soon as the C++ text can be written; the script itself does if it lies in the output
directory and its name ends in `.cpp` or has no extension. -/
theorem sources_survive (invocation : Invocation) (s : Machine) {file : Path} {compiled : Compiled}
    (compiles : Compiled.ofFile (s.tree.source s.home) invocation.settings.features file =
      .ok compiled) :
    (∀ launcher : Launcher, launcher.Confined → ∀ p ∈ compiled.files,
      ¬ invocation.Touches s (p.place s.home) → invocation.Keeps launcher s p) ∧
    (invocation.command = .build file ∨ invocation.command = .run file →
      ((∀ launcher : Launcher, launcher.Confined → ∀ p ∈ compiled.files,
          invocation.Keeps launcher s p) ↔
        ∀ a, Artifacts.ofFile invocation.outDir file = .ok a → s.Accepts a.cpp compiled.cpp →
          ∀ p ∈ compiled.files,
            p.place s.home ≠ a.cpp.place s.home ∧ p.place s.home ≠ a.program.place s.home)) ∧
    ∀ a stem, Artifacts.ofFile invocation.outDir file = .ok a → file.stem? = some stem →
      (file.place s.home = a.cpp.place s.home ↔
        (file.place s.home).dropLast = invocation.outDir.place s.home ∧
          file.extension? = some "cpp") ∧
      (Tree.isPlain stem.toList = true →
        (file.place s.home = a.program.place s.home ↔
          (file.place s.home).dropLast = invocation.outDir.place s.home ∧
            file.extension? = none)) := by
  have apart : ∀ launcher : Launcher, launcher.Confined → ∀ p ∈ compiled.files,
      ¬ invocation.Touches s (p.place s.home) → invocation.Keeps launcher s p := by
    intro launcher confined p present untouched
    obtain ⟨content, read, _⟩ := Compiled.files_read compiles present
    exact keeps_of_apart confined untouched read
  refine ⟨apart, fun asked => ⟨?_, ?_⟩, ?_⟩
  · intro kept a named accepted p present
    have keeps := kept Launcher.stub Launcher.stub_confined p present
    constructor
    · intro here
      exact not_keeps_cpp asked compiles named Launcher.stub_confined accepted present here keeps
    · intro here
      exact not_keeps_program asked compiles named accepted present here keeps
  · intro clear launcher confined p present
    by_cases refused : ∃ a, Artifacts.ofFile invocation.outDir file = .ok a ∧
        ¬ s.Accepts a.cpp compiled.cpp
    · obtain ⟨a, named, refused⟩ := refused
      exact keeps_of_refused asked compiles named refused present
    · apply apart launcher confined p present
      rintro ⟨other, among, a, named, here⟩
      rw [builds_of_asked asked, List.mem_singleton] at among
      subst among
      have accepted : s.Accepts a.cpp compiled.cpp := by
        by_contra rejected
        exact refused ⟨a, named, rejected⟩
      obtain ⟨cpp, program⟩ := clear a named accepted p present
      exact here.elim cpp program
  · intro a stem named found
    exact ⟨Artifacts.cpp_place_eq_iff named s.home,
      fun plain => Artifacts.program_place_eq_iff named found plain s.home⟩

section Fixed

-- A build of one script, with everything else left as it is by default.
def plainBuild (compiler : String) (file : Path) : Invocation :=
  ⟨.build file, ⟨⟨false, false⟩, false, false, false, none, compiler⟩⟩

-- A script and the file that it imports.
def pair : Machine :=
  ⟨⟨[(["w"], .directory), (["w", "main.rr"], .file "import \"lib.rr\"; x;".toUTF8 false),
    (["w", "lib.rr"], .file "y; z;".toUTF8 false)]⟩, ["w"], .empty⟩

theorem load_pair_main : (Linking.load (pair.tree.source pair.home) ⟨"/w/main.rr"⟩).1 =
    .ok [.importFile "lib.rr", .expr (.ident "x")] := by
  have outlined : (Linking.load (pair.tree.source pair.home) ⟨"/w/main.rr"⟩).1.toOption.map
      (List.map Linked.outline) = some [(some "lib.rr", none), (none, some "x")] := by
    decide +kernel
  obtain ⟨s, t, loaded, first, second⟩ := Linked.load_eq_of_outline outlined
  rw [loaded, Linked.eq_of_outline_import first, Linked.eq_of_outline_name second]

theorem load_pair_lib : (Linking.load (pair.tree.source pair.home) ⟨"/w/lib.rr"⟩).1 =
    .ok [.expr (.ident "y"), .expr (.ident "z")] := by
  have outlined : (Linking.load (pair.tree.source pair.home) ⟨"/w/lib.rr"⟩).1.toOption.map
      (List.map Linked.outline) = some [(none, some "y"), (none, some "z")] := by
    decide +kernel
  obtain ⟨s, t, loaded, first, second⟩ := Linked.load_eq_of_outline outlined
  rw [loaded, Linked.eq_of_outline_name first, Linked.eq_of_outline_name second]

theorem pair_compiles : ∃ cpp,
    Compiled.ofFile (pair.tree.source pair.home) ⟨false, false⟩ ⟨"main.rr"⟩ =
      .ok ⟨cpp, [⟨"/w/lib.rr"⟩, ⟨"/w/main.rr"⟩]⟩ := by
  have entered : (pair.tree.source pair.home).entry ⟨"main.rr"⟩ = .ok ⟨"/w/main.rr"⟩ := by
    decide +kernel
  have found : (pair.tree.source pair.home).resolve "lib.rr" (Path.directory ⟨"/w/main.rr"⟩) =
      .ok ⟨"/w/lib.rr"⟩ := by decide +kernel
  have fresh : (PathSet.empty.insert ⟨"/w/main.rr"⟩).contains ⟨"/w/lib.rr"⟩ = false := by
    decide +kernel
  have order : ((PathSet.empty.insert ⟨"/w/main.rr"⟩).insert ⟨"/w/lib.rr"⟩).paths =
      [⟨"/w/lib.rr"⟩, ⟨"/w/main.rr"⟩] := by decide +kernel
  have ran : Linking.run (pair.tree.source pair.home) (PathSet.empty.insert ⟨"/w/main.rr"⟩) [] []
      (Linking.contents (pair.tree.source pair.home) ⟨"/w/main.rr"⟩) =
        ⟨.ok [.expr (.ident "y"), .expr (.ident "z"), .expr (.ident "x")],
          (PathSet.empty.insert ⟨"/w/main.rr"⟩).insert ⟨"/w/lib.rr"⟩, []⟩ := by
    rw [Linking.contents_of_load load_pair_main]
    simp [Linking.pending, Linking.run_fresh found fresh load_pair_lib, Linking.run]
  have emits : (Program.toCpp ⟨false, false⟩
      [.expr (.ident "y"), .expr (.ident "z"), .expr (.ident "x")]).toOption.isSome = true := by
    decide +kernel
  obtain ⟨cpp, emitted⟩ : ∃ cpp, Program.toCpp ⟨false, false⟩
      [.expr (.ident "y"), .expr (.ident "z"), .expr (.ident "x")] = .ok cpp := by
    cases emitted : Program.toCpp ⟨false, false⟩
      [.expr (.ident "y"), .expr (.ident "z"), .expr (.ident "x")] with
    | error fault => simp [emitted, Except.toOption] at emits
    | ok cpp => exact ⟨cpp, rfl⟩
  refine ⟨cpp, Compiled.ofFile_ok_iff.mpr ⟨_, ?_, emitted, ?_⟩⟩
  · exact Linked.ofEntry_ok_iff.mpr ⟨_, _, entered, load_pair_main, by rw [ran]⟩
  · rw [Linked.ofEntry_visited entered load_pair_main, ran]
    exact order.symm

theorem sources_survive_import : Launcher.stub.Confined ∧ ∃ compiled,
    Compiled.ofFile (pair.tree.source pair.home) ⟨false, false⟩ ⟨"main.rr"⟩ = .ok compiled ∧
      compiled.files = [⟨"/w/lib.rr"⟩, ⟨"/w/main.rr"⟩] ∧
      ∀ p ∈ compiled.files, (plainBuild "g++" ⟨"main.rr"⟩).Keeps Launcher.stub pair p := by
  obtain ⟨cpp, compiles⟩ := pair_compiles
  refine ⟨Launcher.stub_confined, _, compiles, rfl, fun p present => ?_⟩
  apply (sources_survive (plainBuild "g++" ⟨"main.rr"⟩) pair compiles).1 Launcher.stub
    Launcher.stub_confined p present
  rintro ⟨file, among, a, named, here⟩
  obtain rfl : file = ⟨"main.rr"⟩ := List.mem_singleton.mp among
  obtain rfl : ⟨⟨"./main.cpp"⟩, ⟨"./main"⟩⟩ = a := Except.ok.inj named
  simp only [List.mem_cons, List.not_mem_nil, or_false] at present
  rcases present with rfl | rfl
  · revert here
    decide +kernel
  · revert here
    decide +kernel

-- A script whose name ends as that of its C++ text.
def lone : Machine :=
  ⟨⟨[(["w"], .directory), (["w", "a.cpp"], .file "print(1);".toUTF8 false)]⟩, ["w"], .empty⟩

theorem lone_compiles : ∃ cpp,
    Compiled.ofFile (lone.tree.source lone.home) ⟨false, false⟩ ⟨"a.cpp"⟩ =
      .ok ⟨cpp, [⟨"/w/a.cpp"⟩]⟩ := by
  have entered : (lone.tree.source lone.home).entry ⟨"a.cpp"⟩ = .ok ⟨"/w/a.cpp"⟩ := by
    decide +kernel
  have plain : ((Linking.load (lone.tree.source lone.home) ⟨"/w/a.cpp"⟩).1.toOption.map
      fun program => (program.all fun s => s.importSpec?.isNone) &&
        (program.toCpp ⟨false, false⟩).toOption.isSome) = some true := by
    decide +kernel
  cases loaded : (Linking.load (lone.tree.source lone.home) ⟨"/w/a.cpp"⟩).1 with
  | error fault => simp [loaded, Except.toOption] at plain
  | ok program =>
    simp only [loaded, Except.toOption, Option.map_some, Option.some.injEq, Bool.and_eq_true,
      List.all_eq_true, Option.isNone_iff_eq_none] at plain
    have ran := Linking.contents_of_load loaded
    cases emitted : program.toCpp ⟨false, false⟩ with
    | error fault => simp [emitted] at plain
    | ok cpp =>
      refine ⟨cpp, Compiled.ofFile_ok_iff.mpr ⟨program, ?_, emitted, ?_⟩⟩
      · apply Linked.ofEntry_ok_iff.mpr ⟨_, _, entered, loaded, _⟩
        rw [ran, Linking.run_plain plain.1]
        rfl
      · rw [Linked.ofEntry_visited entered loaded, ran, Linking.run_plain plain.1]
        rfl

-- Even a compiler that does nothing leaves no input behind.
theorem input_lost : Launcher.idle.Confined ∧ ∃ compiled,
    Compiled.ofFile (lone.tree.source lone.home) ⟨false, false⟩ ⟨"a.cpp"⟩ = .ok compiled ∧
      ⟨"/w/a.cpp"⟩ ∈ compiled.files ∧
      lone.tree.read lone.home ⟨"/w/a.cpp"⟩ = .ok "print(1);".toUTF8 ∧
      ((plainBuild "true" ⟨"a.cpp"⟩).after Launcher.idle lone).tree.read lone.home ⟨"/w/a.cpp"⟩ =
        .error .noEntry := by
  obtain ⟨cpp, compiles⟩ := lone_compiles
  refine ⟨Launcher.idle_confined, _, compiles, List.mem_singleton_self _, by decide +kernel, ?_⟩
  have ran : (Session.compile (Machine.host Launcher.idle) (plainBuild "true" ⟨"a.cpp"⟩).settings
      ⟨"a.cpp"⟩).run.run lone = (.ok ⟨cpp, [⟨"/w/a.cpp"⟩]⟩, lone) := Session.compile_ok compiles
  have built : (plainBuild "true" ⟨"a.cpp"⟩).after Launcher.idle lone =
      ((Session.build (Machine.host Launcher.idle) (plainBuild "true" ⟨"a.cpp"⟩).settings
        ⟨"a.cpp"⟩).run.run lone).2 := Machine.discard_run _
  rw [built]
  unfold Session.build
  rw [Machine.andThen_of_ok ran]
  rfl

end Fixed

end Invocation

end ScriptCpp
