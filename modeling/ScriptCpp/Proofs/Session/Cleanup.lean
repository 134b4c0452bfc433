import Mathlib
import ScriptCpp.Proofs.Session.Sources

set_option autoImplicit false

namespace ScriptCpp

namespace Tree

variable {t : Tree} {home : Location} {p : Path}

def holdsFile (t : Tree) (home : Location) (p : Path) : Bool :=
  match t.locate home p with
  | .ok place => t.isFile place
  | .error _ => false

theorem holdsFile_iff : t.holdsFile home p = true ↔
    t.locate home p = .ok (p.place home) ∧ t.isFile (p.place home) = true := by
  unfold holdsFile
  cases found : t.locate home p with
  | error e => simp
  | ok place =>
    obtain rfl := locate_place found
    simp

theorem isFile_ne_root {place : Location} (file : t.isFile place = true) : place ≠ [] := by
  rintro rfl
  cases file

/-- The second tree has no file at the path, and nothing at all if the first one has at most a file
there. Elsewhere they are the same. -/
structure Clears (t t' : Tree) (home : Location) (p : Path) : Prop where
  noFile : t'.holdsFile home p = false
  nothing : t.get? (p.place home) = none ∨ t.holdsFile home p = true → t'.get? (p.place home) = none
  elsewhere : ∀ place, place ≠ p.place home → t'.get? place = t.get? place

theorem remove_clears (t : Tree) (home : Location) (p : Path) : t.Clears (t.remove home p) home p := by
  by_cases held : t.holdsFile home p = true
  · obtain ⟨found, file⟩ := holdsFile_iff.mp held
    have gone := get?_erase_self t _ (isFile_ne_root file)
    have erased : t.remove home p = t.erase (p.place home) := by simp [remove, found, file]
    rw [erased]
    refine ⟨?_, fun _ => gone, fun place other => get?_erase_of_ne t other⟩
    rw [Bool.eq_false_iff, Ne, holdsFile_iff]
    rintro ⟨-, again⟩
    simp [isFile, gone] at again
  · have same : t.remove home p = t := by
      rcases remove_cases t home p with same | ⟨file, erased⟩
      · exact same
      · unfold remove
        cases found : t.locate home p with
        | error e => rfl
        | ok place =>
          obtain rfl := locate_place found
          exact absurd (holdsFile_iff.mpr ⟨found, file⟩) held
    rw [same]
    refine ⟨Bool.eq_false_iff.mpr held, ?_, fun _ _ => rfl⟩
    rintro (absent | present)
    · exact absent
    · exact absurd present held

end Tree

namespace Machine

def without (s : Machine) (p : Path) : Machine := { s with tree := s.tree.remove s.home p }

theorem remove_run (launcher : Launcher) (p : Path) (s : Machine) :
    (liftM ((host launcher).remove p) : ExceptT Failure (StateM Machine) Unit).run.run s =
      (.ok (), s.without p) := rfl

theorem liftM_run {α : Type} (step : StateM Machine α) (s : Machine) :
    (liftM step : ExceptT Failure (StateM Machine) α).run.run s =
      (.ok (step.run s).1, (step.run s).2) := rfl

end Machine

namespace Session

open Machine

section Steps

variable {m : Type → Type} [Monad m]

def buildSteps (host : Host m) (settings : Settings) (file : Path) : ExceptT Failure m Path := do
  let compiled ← compile host settings file
  let a ← ExceptT.mk (pure (Artifacts.ofFile (settings.outDir.getD ⟨"."⟩) file))
  write host a.cpp compiled.cpp
  runCompiler host settings a
  return a.program

def trialSteps (host : Host m) (settings : Settings) (file : Path) : ExceptT Failure m Outcome := do
  let program ← build host settings file
  attempt (.programUnlaunched program) (host.launch ⟨program.text, []⟩)

end Steps

def ending (file : Path) (outcome : Outcome) : Except Failure Unit :=
  if outcome.status.isSuccess then .ok () else .error (.programFailed file outcome.status)

def verdict (file : Path) : Except Failure Outcome → String
  | .ok outcome => (if passed outcome then "PASS " else "FAIL ") ++ file.text ++ "\n"
  | .error failure => "FAIL " ++ file.text ++ " (" ++ failure.message ++ ")\n"

def tested (launcher : Launcher) (settings : Settings) (files : List Path) (s : Machine) : Machine :=
  ((files.mapM (test (host launcher) settings)).run s).2

variable {launcher : Launcher} {settings : Settings} {file : Path} {a : Artifacts}
  {compiled : Compiled} {s s₁ : Machine}

section Build

theorem toolkitFlags_home (launcher : Launcher) (settings : Settings) (s : Machine) :
    ((toolkitFlags (host launcher) settings).run s).2.home = s.home := by
  unfold toolkitFlags
  split
  · rw [StateT.run_bind, launch_run]
    cases (launcher s.tree s.home Toolkit.query).1 <;> rfl
  · rfl

theorem runCompiler_home (launcher : Launcher) (settings : Settings) (a : Artifacts) (s : Machine) :
    ((runCompiler (host launcher) settings a).run.run s).2.home = s.home := by
  rw [← toolkitFlags_home launcher settings s]
  unfold runCompiler
  rw [andThen_of_ok (liftM_run _ s)]
  generalize (toolkitFlags (host launcher) settings).run s = told
  generalize Launch.mk settings.compiler (a.compilerArguments settings.optimize told.1) = what
  have launched := attempt_run (.compilerUnlaunched settings.compiler)
    ((host launcher).launch what) (s := told.2)
  rw [launch_run] at launched
  rcases ended : launcher told.2.tree told.2.home what with ⟨e | outcome, t⟩
  · rw [ended] at launched
    rw [andThen_error launched]
  · rw [ended] at launched
    rw [andThen_of_ok launched]
    cases outcome.status.isSuccess <;> rfl

-- Behind the compiler there is only the clean-up, whatever the compiler came to.
theorem build_written
    (compiles : Compiled.ofFile (s.tree.source s.home) settings.features file = .ok compiled)
    (named : Artifacts.ofFile (settings.outDir.getD ⟨"."⟩) file = .ok a)
    (wrote : (write (host launcher) a.cpp compiled.cpp).run.run s = (.ok (), s₁)) :
    (build (host launcher) settings file).run.run s =
      (((runCompiler (host launcher) settings a).run.run s₁).1.map fun _ => a.program,
        if settings.keepCpp then ((runCompiler (host launcher) settings a).run.run s₁).2
        else ((runCompiler (host launcher) settings a).run.run s₁).2.without a.cpp) := by
  unfold build
  rw [andThen_of_ok (compile_ok compiles), andThen_of_ok (artifacts_ok named), andThen_of_ok wrote]
  generalize (runCompiler (host launcher) settings a).run = compiler
  have ran : (ExceptT.lift compiler : ExceptT Failure (StateM Machine) (Except Failure Unit)).run.run s₁ =
      (.ok (compiler.run s₁).1, (compiler.run s₁).2) := rfl
  rw [andThen_of_ok ran]
  extract_lets finish
  have finished : ∀ s', (finish ()).run.run s' =
      ((compiler.run s₁).1.map fun _ => a.program, s') := by
    intro s'
    cases ended : (compiler.run s₁).1 <;> simp only [finish, ended] <;> rfl
  cases settings.keepCpp with
  | true => exact finished _
  | false =>
    have removed := remove_run launcher a.cpp (compiler.run s₁).2
    exact (andThen_of_ok removed).trans (finished _)

theorem buildSteps_written
    (compiles : Compiled.ofFile (s.tree.source s.home) settings.features file = .ok compiled)
    (named : Artifacts.ofFile (settings.outDir.getD ⟨"."⟩) file = .ok a)
    (wrote : (write (host launcher) a.cpp compiled.cpp).run.run s = (.ok (), s₁)) :
    ((buildSteps (host launcher) settings file).run.run s).1 =
      ((runCompiler (host launcher) settings a).run.run s₁).1.map fun _ => a.program := by
  unfold buildSteps
  rw [andThen_of_ok (compile_ok compiles), andThen_of_ok (artifacts_ok named), andThen_of_ok wrote]
  rcases ended : (runCompiler (host launcher) settings a).run.run s₁ with ⟨e | _, s₂⟩
  · rw [andThen_error ended]
    rfl
  · rw [andThen_of_ok ended]
    rfl

theorem write_home {p : Path} {text : String} {result : Except Failure Unit}
    (wrote : (write (host launcher) p text).run.run s = (result, s₁)) : s₁.home = s.home := by
  obtain ⟨t, -, ⟨failure, ended⟩ | ⟨-, runnable, ended⟩⟩ := write_cases launcher s p text
  · rw [← (Prod.mk.inj (wrote.symm.trans ended)).2.symm]
  · rw [← (Prod.mk.inj (wrote.symm.trans ended)).2.symm]

theorem write_present {p : Path} {text : String}
    (wrote : (write (host launcher) p text).run.run s = (.ok (), s₁)) :
    ∃ runnable, s₁.tree.get? (p.place s.home) = some (.file text.toUTF8 runnable) := by
  obtain ⟨t, -, ⟨failure, ended⟩ | ⟨free, runnable, ended⟩⟩ := write_cases launcher s p text
  · cases wrote.symm.trans ended
  · obtain rfl := (Prod.mk.inj (wrote.symm.trans ended)).2
    have notRoot : p.place s.home ≠ [] := by
      intro root
      rw [root] at free
      exact free rfl
    exact ⟨runnable, Tree.get?_set_self t _ _ notRoot⟩

theorem build_cases (launcher : Launcher) (settings : Settings) (file : Path) (s : Machine) :
    (∃ failure s', (build (host launcher) settings file).run.run s = (.error failure, s') ∧
      (buildSteps (host launcher) settings file).run.run s = (.error failure, s') ∧ s'.home = s.home) ∨
    ∃ compiled a s₁, Compiled.ofFile (s.tree.source s.home) settings.features file = .ok compiled ∧
      Artifacts.ofFile (settings.outDir.getD ⟨"."⟩) file = .ok a ∧
      (write (host launcher) a.cpp compiled.cpp).run.run s = (.ok (), s₁) := by
  cases compiles : Compiled.ofFile (s.tree.source s.home) settings.features file with
  | error fault =>
    have stopped : (compile (host launcher) settings file).run.run s =
        (.error (.uncompiled file fault), s) := by
      change (Except.mapError _ (Compiled.ofFile (s.tree.source s.home) settings.features file), s) = _
      rw [compiles]
      rfl
    exact .inl ⟨_, _, andThen_error stopped, andThen_error stopped, rfl⟩
  | ok compiled =>
    cases named : Artifacts.ofFile (settings.outDir.getD ⟨"."⟩) file with
    | error failure =>
      have stopped : (ExceptT.mk (pure (Artifacts.ofFile (settings.outDir.getD ⟨"."⟩) file)) :
          ExceptT Failure (StateM Machine) Artifacts).run.run s = (.error failure, s) := by
        rw [named]
        rfl
      refine .inl ⟨failure, s, ?_, ?_, rfl⟩
      · unfold build
        rw [andThen_of_ok (compile_ok compiles), andThen_error stopped]
      · unfold buildSteps
        rw [andThen_of_ok (compile_ok compiles), andThen_error stopped]
    | ok a =>
      rcases wrote : (write (host launcher) a.cpp compiled.cpp).run.run s with ⟨failure | _, s₁⟩
      · refine .inl ⟨failure, s₁, build_unwritten compiles named wrote, ?_, write_home wrote⟩
        unfold buildSteps
        rw [andThen_of_ok (compile_ok compiles), andThen_of_ok (artifacts_ok named), andThen_error wrote]
      · exact .inr ⟨compiled, a, s₁, rfl, rfl, wrote⟩

theorem build_reported (launcher : Launcher) (settings : Settings) (file : Path) (s : Machine) :
    ((build (host launcher) settings file).run.run s).1 =
      ((buildSteps (host launcher) settings file).run.run s).1 := by
  rcases build_cases launcher settings file s with
    ⟨failure, s', stopped, same, -⟩ | ⟨compiled, a, s₁, compiles, named, wrote⟩
  · rw [stopped, same]
  · rw [build_written compiles named wrote, buildSteps_written compiles named wrote]

theorem build_home (launcher : Launcher) (settings : Settings) (file : Path) (s : Machine) :
    ((build (host launcher) settings file).run.run s).2.home = s.home := by
  rcases build_cases launcher settings file s with
    ⟨failure, s', stopped, -, stays⟩ | ⟨compiled, a, s₁, compiles, named, wrote⟩
  · rw [stopped]
    exact stays
  · have stays := (runCompiler_home launcher settings a s₁).trans (write_home wrote)
    rw [build_written compiles named wrote]
    cases settings.keepCpp <;> exact stays

structure BuildClears (launcher : Launcher) (settings : Settings) (file : Path) (s : Machine) : Prop where
  reported : ((build (host launcher) settings file).run.run s).1 =
    ((buildSteps (host launcher) settings file).run.run s).1
  named : ∀ program s', (build (host launcher) settings file).run.run s = (.ok program, s') →
    ∃ a, Artifacts.ofFile (settings.outDir.getD ⟨"."⟩) file = .ok a ∧ program = a.program
  written : ∀ compiled a s₁,
    Compiled.ofFile (s.tree.source s.home) settings.features file = .ok compiled →
    Artifacts.ofFile (settings.outDir.getD ⟨"."⟩) file = .ok a →
    (write (host launcher) a.cpp compiled.cpp).run.run s = (.ok (), s₁) →
      (∃ runnable, s₁.tree.get? (a.cpp.place s.home) = some (.file compiled.cpp.toUTF8 runnable)) ∧
      (settings.keepCpp = true → ((build (host launcher) settings file).run.run s).2 =
        ((runCompiler (host launcher) settings a).run.run s₁).2) ∧
      (settings.keepCpp = false → ((runCompiler (host launcher) settings a).run.run s₁).2.tree.Clears
        ((build (host launcher) settings file).run.run s).2.tree s.home a.cpp)

theorem build_clears (launcher : Launcher) (settings : Settings) (file : Path) (s : Machine) :
    BuildClears launcher settings file s where
  reported := build_reported launcher settings file s
  named _ _ := build_ok
  written compiled a s₁ compiles named wrote := by
    have stays := (runCompiler_home launcher settings a s₁).trans (write_home wrote)
    rw [build_written compiles named wrote]
    refine ⟨write_present wrote, fun keep => ?_, fun clean => ?_⟩
    · rw [keep]
      rfl
    · rw [clean, ← stays]
      exact Tree.remove_clears _ _ a.cpp

end Build

section Runs

variable {program : Path} {s' : Machine}

def launched (launcher : Launcher) (program : Path) (s : Machine) : Machine :=
  { s with tree := (launcher s.tree s.home ⟨program.text, []⟩).2 }

theorem buildAndRun_built
    (built : (build (host launcher) settings file).run.run s = (.ok program, s')) :
    (buildAndRun (host launcher) settings file).run.run s =
      (((launcher s'.tree s'.home ⟨program.text, []⟩).1.mapError (.programUnlaunched program)),
        (launched launcher program s').without program) := by
  unfold buildAndRun
  rw [andThen_of_ok built, andThen_of_ok (liftM_run _ s'), andThen_of_ok (remove_run launcher program _)]
  rfl

theorem buildAndRun_reported (launcher : Launcher) (settings : Settings) (file : Path) (s : Machine) :
    ((buildAndRun (host launcher) settings file).run.run s).1 =
      ((trialSteps (host launcher) settings file).run.run s).1 := by
  rcases built : (build (host launcher) settings file).run.run s with ⟨failure | program, s'⟩
  · unfold buildAndRun trialSteps
    rw [andThen_error built, andThen_error built]
  · rw [buildAndRun_built built]
    unfold trialSteps
    rw [andThen_of_ok built, attempt_run, launch_run]

/-- What becomes of the program when a session leads from one machine to the other by way of a build
and a run of the script. -/
structure ProgramClears (launcher : Launcher) (settings : Settings) (file : Path) (s s'' : Machine) :
    Prop where
  home : s''.home = s.home
  unbuilt : ∀ failure s', (build (host launcher) settings file).run.run s = (.error failure, s') →
    s''.tree = s'.tree
  built : ∀ program s', (build (host launcher) settings file).run.run s = (.ok program, s') →
    (launched launcher program s').tree.Clears s''.tree s.home program

theorem buildAndRun_clears (launcher : Launcher) (settings : Settings) (file : Path) (s : Machine) :
    ProgramClears launcher settings file s
      ((buildAndRun (host launcher) settings file).run.run s).2 := by
  have stays := build_home launcher settings file s
  rcases ended : (build (host launcher) settings file).run.run s with ⟨failure | program, s₁⟩
  · rw [ended] at stays
    have same : (buildAndRun (host launcher) settings file).run.run s = (.error failure, s₁) := by
      unfold buildAndRun
      rw [andThen_error ended]
    rw [same]
    refine ⟨stays, fun _ s' stopped => ?_, fun _ s' built => ?_⟩
    · rw [(Prod.mk.inj (ended.symm.trans stopped)).2]
    · cases ended.symm.trans built
  · rw [ended] at stays
    rw [buildAndRun_built ended]
    refine ⟨stays, fun _ s' stopped => ?_, fun other s' built => ?_⟩
    · cases ended.symm.trans stopped
    · obtain ⟨same, rfl⟩ := Prod.mk.inj (ended.symm.trans built)
      obtain rfl := Except.ok.inj same
      rw [← stays]
      exact Tree.remove_clears _ _ program

theorem ProgramClears.of_tree {s'' s₃ : Machine} (h : ProgramClears launcher settings file s s'')
    (home : s₃.home = s''.home) (tree : s₃.tree = s''.tree) :
    ProgramClears launcher settings file s s₃ := by
  constructor
  · rw [home, h.home]
  · rw [tree]
    exact h.unbuilt
  · rw [tree]
    exact h.built

structure RunClears (launcher : Launcher) (settings : Settings) (file : Path) (s : Machine) : Prop where
  reported : ((run (host launcher) settings file).run.run s).1 =
    ((trialSteps (host launcher) settings file).run.run s).1 >>= ending file
  cleared : ProgramClears launcher settings file s ((run (host launcher) settings file).run.run s).2

theorem run_clears (launcher : Launcher) (settings : Settings) (file : Path) (s : Machine) :
    RunClears launcher settings file s := by
  have cleared := buildAndRun_clears launcher settings file s
  have reported := buildAndRun_reported launcher settings file s
  rcases ran : (buildAndRun (host launcher) settings file).run.run s with ⟨failure | outcome, s'⟩
  · have same : (run (host launcher) settings file).run.run s = (.error failure, s') := by
      unfold run
      rw [andThen_error ran]
    rw [ran] at cleared reported
    constructor
    · rw [← reported, same]
      rfl
    · rw [same]
      exact cleared
  · have same : (run (host launcher) settings file).run.run s =
        (ending file outcome, { s' with output := s'.output ++ outcome.output }) := by
      unfold run
      rw [andThen_of_ok ran, andThen_of_ok (liftM_run _ s')]
      unfold ending
      cases outcome.status.isSuccess <;> rfl
    rw [ran] at cleared reported
    constructor
    · rw [← reported, same]
      rfl
    · rw [same]
      exact cleared.of_tree rfl rfl

end Runs

section Tests

theorem test_run (launcher : Launcher) (settings : Settings) (file : Path) (s : Machine) :
    (test (host launcher) settings file).run s =
      (((buildAndRun (host launcher) settings file).run.run s).1.toOption.any passed,
        { ((buildAndRun (host launcher) settings file).run.run s).2 with
          output := ((buildAndRun (host launcher) settings file).run.run s).2.output ++
            (verdict file ((buildAndRun (host launcher) settings file).run.run s).1).toUTF8 }) := by
  unfold test
  rw [StateT.run_bind]
  generalize (buildAndRun (host launcher) settings file).run.run s = ended
  obtain ⟨failure | outcome, s'⟩ := ended <;> rfl

structure TestClears (launcher : Launcher) (settings : Settings) (file : Path) (s : Machine) : Prop where
  reported : ((test (host launcher) settings file).run s).1 =
    ((trialSteps (host launcher) settings file).run.run s).1.toOption.any passed
  printed : ((test (host launcher) settings file).run s).2.output =
    ((buildAndRun (host launcher) settings file).run.run s).2.output ++
      (verdict file ((trialSteps (host launcher) settings file).run.run s).1).toUTF8
  cleared : ProgramClears launcher settings file s ((test (host launcher) settings file).run s).2

theorem test_clears (launcher : Launcher) (settings : Settings) (file : Path) (s : Machine) :
    TestClears launcher settings file s := by
  constructor
  · rw [test_run, buildAndRun_reported]
  · rw [test_run, buildAndRun_reported]
  · rw [test_run]
    exact (buildAndRun_clears launcher settings file s).of_tree rfl rfl

theorem tested_concat (launcher : Launcher) (settings : Settings) (files : List Path) (file : Path)
    (s : Machine) : tested launcher settings (files ++ [file]) s =
      ((test (host launcher) settings file).run (tested launcher settings files s)).2 := by
  unfold tested
  rw [List.mapM_append, StateT.run_bind]
  rfl

theorem tested_home (launcher : Launcher) (settings : Settings) (files : List Path) (s : Machine) :
    (tested launcher settings files s).home = s.home := by
  induction files using List.reverseRecOn with
  | nil => rfl
  | append_singleton files file ih =>
    rw [tested_concat, (test_clears launcher settings file _).cleared.home, ih]

/-- What the tests of a directory come to. Each file is tested on the machine that those before it
have left. -/
structure TestsClear (launcher : Launcher) (settings : Settings) (directory : Path) (s : Machine) :
    Prop where
  absent : s.tree.holdsDirectory s.home directory = false →
    (testAll (host launcher) settings directory).run.run s = (.error (.noTests directory), s)
  reported : ∀ failures, s.tree.holdsDirectory s.home directory = true →
    (((scripts (filesBelow s.tree s.home directory)).mapM
      (test (host launcher) settings)).run s).1.count false = failures →
    ((testAll (host launcher) settings directory).run.run s).1 =
      if failures = 0 then .ok () else .error (.testsFailed failures)
  cleared : s.tree.holdsDirectory s.home directory = true →
    ((testAll (host launcher) settings directory).run.run s).2.tree =
      (tested launcher settings (scripts (filesBelow s.tree s.home directory)) s).tree
  each : ∀ before file after, scripts (filesBelow s.tree s.home directory) = before ++ file :: after →
    TestClears launcher settings file (tested launcher settings before s) ∧
      (tested launcher settings before s).home = s.home ∧
      tested launcher settings (before ++ [file]) s =
        ((test (host launcher) settings file).run (tested launcher settings before s)).2

theorem testAll_present {directory : Path} {failures : Nat}
    (present : s.tree.holdsDirectory s.home directory = true)
    (counted : (((scripts (filesBelow s.tree s.home directory)).mapM
      (test (host launcher) settings)).run s).1.count false = failures) :
    ((testAll (host launcher) settings directory).run.run s).1 =
        (if failures = 0 then .ok () else .error (.testsFailed failures)) ∧
      ((testAll (host launcher) settings directory).run.run s).2.tree =
        (tested launcher settings (scripts (filesBelow s.tree s.home directory)) s).tree := by
  have looked : (liftM ((host launcher).isDirectory directory) :
      ExceptT Failure (StateM Machine) Bool).run.run s = (.ok true, s) := by
    rw [← present]
    rfl
  have listed : (liftM ((host launcher).filesBelow directory) :
      ExceptT Failure (StateM Machine) (List Path)).run.run s =
        (.ok (filesBelow s.tree s.home directory), s) := rfl
  have there : ¬ (!true) = true := by decide
  unfold testAll
  rw [andThen_of_ok looked]
  simp only [if_neg there]
  rw [andThen_of_ok listed, andThen_of_ok (liftM_run _ s)]
  unfold tested
  subst counted
  generalize ((scripts (filesBelow s.tree s.home directory)).mapM
    (test (host launcher) settings)).run s = ended
  rw [andThen_of_ok (liftM_run _ ended.2)]
  by_cases none : ended.1.count false = 0
  · simp only [none, ne_eq, not_true_eq_false, if_false, if_true]
    exact ⟨rfl, rfl⟩
  · simp only [none, ne_eq, not_false_eq_true, if_false, if_true]
    exact ⟨rfl, rfl⟩

theorem testAll_clears (launcher : Launcher) (settings : Settings) (directory : Path) (s : Machine) :
    TestsClear launcher settings directory s where
  absent missing := by
    have looked : (liftM ((host launcher).isDirectory directory) :
        ExceptT Failure (StateM Machine) Bool).run.run s = (.ok false, s) := by
      rw [← missing]
      rfl
    unfold testAll
    rw [andThen_of_ok looked]
    rfl
  reported failures present counted := (testAll_present present counted).1
  cleared present := (testAll_present present rfl).2
  each before file after split :=
    ⟨test_clears launcher settings file _, tested_home .., tested_concat ..⟩

end Tests

/-- Once a build has written the C++ text, it is gone when the build returns, unless it is to be kept;
once a build has succeeded, a run or a test leaves no program, whatever becomes of it. The answers are
those of the steps, up to the first that fails. -/
theorem artifacts_cleared (launcher : Launcher) (settings : Settings) (s : Machine) :
    (∀ file, BuildClears launcher settings file s) ∧ (∀ file, RunClears launcher settings file s) ∧
      ∀ directory, TestsClear launcher settings directory s :=
  ⟨fun file => build_clears launcher settings file s, fun file => run_clears launcher settings file s,
    fun directory => testAll_clears launcher settings directory s⟩

def plain : Settings := (Invocation.plainBuild "g++" ⟨"main.rr"⟩).settings

-- The program is there once it has been launched, and gone when the run returns.
theorem artifacts_cleared_pair : ∃ program built,
    (build (host .stub) plain ⟨"main.rr"⟩).run.run Invocation.pair = (.ok program, built) ∧
      (launched .stub program built).tree.holdsFile ["w"] program = true ∧
      ((run (host .stub) plain ⟨"main.rr"⟩).run.run Invocation.pair).2.tree.get?
        (program.place ["w"]) = none := by
  obtain ⟨cpp, compiles⟩ := Invocation.pair_compiles
  have named : Artifacts.ofFile (plain.outDir.getD ⟨"."⟩) ⟨"main.rr"⟩ =
      .ok ⟨⟨"./main.cpp"⟩, ⟨"./main"⟩⟩ := by decide +kernel
  have wrote : (write (host .stub) ⟨"./main.cpp"⟩ cpp).run.run Invocation.pair =
      (.ok (), ((write (host .stub) ⟨"./main.cpp"⟩ cpp).run.run Invocation.pair).2) := rfl
  have built : (build (host .stub) plain ⟨"main.rr"⟩).run.run Invocation.pair = _ :=
    build_written compiles named wrote
  have cleared := (artifacts_cleared .stub plain Invocation.pair).2.1 ⟨"main.rr"⟩
  refine ⟨⟨"./main"⟩, _, built, ?_, ?_⟩
  · rfl
  · exact (cleared.cleared.built _ _ built).nothing (.inr rfl)

end Session

end ScriptCpp
