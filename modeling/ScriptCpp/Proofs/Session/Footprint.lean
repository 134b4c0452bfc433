import Mathlib
import ScriptCpp.Machine
import ScriptCpp.Proofs.Files.Sparing
import ScriptCpp.Session

set_option autoImplicit false

namespace ScriptCpp

def Launch.target? (what : Launch) : Option Path :=
  match what.arguments.dropWhile (· ≠ "-o") with
  | _ :: target :: _ => some ⟨target⟩
  | _ => none

/-- No program changes anything but the file that it is told to write. -/
structure Launcher.Confined (launcher : Launcher) : Prop where
  elsewhere : ∀ (t : Tree) (home : Location) (what : Launch) (place : Location),
    (∀ target, what.target? = some target → place ≠ target.place home) →
      (launcher t home what).2.get? place = t.get? place
  directory : ∀ (t : Tree) (home : Location) (what : Launch) (place : Location),
    t.get? place = some .directory → (launcher t home what).2.get? place = some .directory

theorem Launcher.Confined.spares {launcher : Launcher} (confined : launcher.Confined)
    {touched : Location → Prop} {home : Location} {what : Launch}
    (hit : ∀ target, what.target? = some target → touched (target.place home)) (t : Tree) :
    t.Spares touched (launcher t home what).2 := by
  constructor
  · exact fun {place} => confined.directory t home what place
  · intro place content runnable apart entry
    rw [confined.elsewhere, entry]
    rintro target told rfl
    exact apart (hit target told)

namespace Artifacts

variable {outDir file : Path} {a : Artifacts}

theorem ofFile_ok (h : ofFile outDir file = .ok a) : ∃ stem, file.stem? = some stem ∧
    a = ⟨outDir.join ⟨stem ++ ".cpp"⟩, outDir.join ⟨stem⟩⟩ := by
  unfold ofFile at h
  cases named : file.stem? with
  | none => simp [named] at h
  | some stem =>
    simp only [named, Except.ok.injEq] at h
    exact ⟨stem, rfl, h.symm⟩

theorem cpp_ne_output (h : ofFile outDir file = .ok a) : a.cpp.text ≠ "-o" := by
  obtain ⟨stem, _, rfl⟩ := ofFile_ok h
  have suffix : ".cpp".length = 4 := rfl
  have long : 4 ≤ (outDir.join ⟨stem ++ ".cpp"⟩).text.length := by
    unfold Path.join
    split
    · rw [String.length_append]
      omega
    · split <;> simp only [String.length_append] <;> omega
  intro same
  rw [same] at long
  exact absurd long (by decide)

theorem target?_compilerArguments (h : ofFile outDir file = .ok a) (compiler : String)
    (optimize : Bool) (extra : List String) :
    Launch.target? ⟨compiler, a.compilerArguments optimize extra⟩ = some a.program := by
  cases optimize <;> simp [Launch.target?, compilerArguments, cpp_ne_output h]

end Artifacts

namespace Machine

structure Spares (touched : Location → Prop) (s s' : Machine) : Prop where
  home : s'.home = s.home
  tree : s.tree.Spares touched s'.tree

def Confines (touched : Location → Prop) (s : Machine) {α : Type} (step : StateM Machine α) :
    Prop :=
  s.Spares touched (step.run s).2

variable {touched : Location → Prop} {home : Location} {s : Machine} {α β : Type}

namespace Confines

theorem still {step : StateM Machine α} (sameTree : (step.run s).2.tree = s.tree)
    (sameHome : (step.run s).2.home = s.home) : Confines touched s step :=
  ⟨sameHome, sameTree ▸ .refl touched s.tree⟩

theorem pure (a : α) : Confines touched s (pure a : StateM Machine α) :=
  .still rfl rfl

theorem bind {step : StateM Machine α} {next : α → StateM Machine β}
    (first : Confines touched s step)
    (second : ∀ s', s'.home = s.home → (step.run s).2 = s' →
      Confines touched s' (next (step.run s).1)) :
    Confines touched s (step >>= next) := by
  have rest := second (step.run s).2 first.home rfl
  exact ⟨rest.home.trans first.home, first.tree.trans rest.tree⟩

-- A step that can fail: what follows is run only after a success.
theorem andThen {step : ExceptT Failure (StateM Machine) α}
    {next : α → ExceptT Failure (StateM Machine) β} (first : Confines touched s step.run)
    (second : ∀ a s', step.run.run s = (.ok a, s') → s'.home = s.home →
      Confines touched s' (next a).run) :
    Confines touched s (step >>= next).run := by
  rw [ExceptT.run_bind]
  apply bind first
  rintro s' stays rfl
  cases ended : (step.run.run s).1 with
  | error e => exact pure _
  | ok a => exact second a _ (Prod.ext ended rfl) stays

theorem mapM {items : List β} {step : β → StateM Machine α}
    (each : ∀ item ∈ items, ∀ s', s'.home = s.home → Confines touched s' (step item)) :
    Confines touched s (items.mapM step) := by
  induction items generalizing s with
  | nil => exact pure _
  | cons item rest ih =>
    rw [List.mapM_cons]
    apply bind (each item List.mem_cons_self s rfl)
    intro s' stays _
    apply bind
    · apply ih
      intro other member s'' stays'
      exact each other (List.mem_cons_of_mem _ member) s'' (stays'.trans stays)
    · intro _ _ _
      exact pure _

theorem lift {step : StateM Machine α} (h : Confines touched s step) :
    Confines touched s (liftM step : ExceptT Failure (StateM Machine) α).run := h

theorem attempt {ε : Type} {cause : ε → Failure} {step : StateM Machine (Except ε α)}
    (h : Confines touched s step) : Confines touched s (Session.attempt cause step).run := h

end Confines

theorem discard_run (step : ExceptT Failure (StateM Machine) α) :
    ((discard step).run.run s).2 = (step.run.run s).2 := by
  change ((Function.const α PUnit.unit <$> step).run.run s).2 = _
  rw [ExceptT.run_map, StateT.run_map]
  rfl

theorem andThen_of_ok {step : ExceptT Failure (StateM Machine) α} {s' : Machine} {a : α}
    {next : α → ExceptT Failure (StateM Machine) β} (h : step.run.run s = (.ok a, s')) :
    (step >>= next).run.run s = (next a).run.run s' := by
  rw [ExceptT.run_bind, StateT.run_bind, h]
  rfl

theorem andThen_error {step : ExceptT Failure (StateM Machine) α} {s' : Machine} {e : Failure}
    {next : α → ExceptT Failure (StateM Machine) β} (h : step.run.run s = (.error e, s')) :
    (step >>= next).run.run s = (.error e, s') := by
  rw [ExceptT.run_bind, StateT.run_bind, h]
  rfl

theorem andThen_ok {step : ExceptT Failure (StateM Machine) α} {s'' : Machine} {b : β}
    {next : α → ExceptT Failure (StateM Machine) β}
    (h : (step >>= next).run.run s = (.ok b, s'')) :
    ∃ a s', step.run.run s = (.ok a, s') ∧ (next a).run.run s' = (.ok b, s'') := by
  rw [ExceptT.run_bind, StateT.run_bind] at h
  rcases ended : step.run.run s with ⟨e | a, s'⟩
  · rw [ended] at h
    cases h
  · rw [ended] at h
    exact ⟨a, s', rfl, h⟩

end Machine

namespace Session

open Machine

variable {touched : Location → Prop} {home : Location} {launcher : Launcher} {settings : Settings}
  {file : Path} {a : Artifacts} {s : Machine}

def Covers (touched : Location → Prop) (settings : Settings) (home : Location) (file : Path) :
    Prop :=
  ∀ a, Artifacts.ofFile (settings.outDir.getD ⟨"."⟩) file = .ok a →
    touched (a.cpp.place home) ∧ touched (a.program.place home)

theorem attempt_run {α ε : Type} (cause : ε → Failure) (step : StateM Machine (Except ε α)) :
    (attempt cause step).run.run s = ((step.run s).1.mapError cause, (step.run s).2) := rfl

theorem makeDirectories_run (p : Path) : ((host launcher).makeDirectories p).run s =
    ((s.tree.makeDirectories s.home p).1,
      { s with tree := (s.tree.makeDirectories s.home p).2 }) := rfl

theorem launch_run (what : Launch) : ((host launcher).launch what).run s =
    ((launcher s.tree s.home what).1, { s with tree := (launcher s.tree s.home what).2 }) := rfl

theorem confines_print (bytes : ByteArray) : Confines touched s ((host launcher).print bytes) :=
  .still rfl rfl

theorem confines_compile :
    Confines touched s (compile (host launcher) settings file).run :=
  .attempt (.still rfl rfl)

theorem hostWrite_cases (launcher : Launcher) (s : Machine) (p : Path) (text : String) :
    (∃ e, ((host launcher).write p text).run s = (.error e, s)) ∨
      s.tree.get? (p.place s.home) ≠ some .directory ∧ ∃ runnable,
        ((host launcher).write p text).run s = (.ok (),
          { s with tree := s.tree.set (p.place s.home) (.file text.toUTF8 runnable) }) := by
  change (∃ e, Machine.write p text s = _) ∨ _ ∧ ∃ runnable, Machine.write p text s = _
  unfold Machine.write
  cases written : s.tree.write s.home p text.toUTF8 with
  | error e => exact .inl ⟨e, rfl⟩
  | ok t =>
    obtain ⟨free, runnable, rfl⟩ := Tree.write_ok written
    exact .inr ⟨free, runnable, rfl⟩

theorem write_cases (launcher : Launcher) (s : Machine) (p : Path) (text : String) :
    ∃ t, s.tree.Spares (fun _ => False) t ∧
      ((∃ failure, (write (host launcher) p text).run.run s =
          (.error failure, { s with tree := t })) ∨
        t.get? (p.place s.home) ≠ some .directory ∧ ∃ runnable,
          (write (host launcher) p text).run.run s = (.ok (),
            { s with tree := t.set (p.place s.home) (.file text.toUTF8 runnable) })) := by
  unfold write
  extract_lets directory finish
  have finished : ∀ s₀ : Machine,
      (∃ failure, (finish ()).run.run s₀ = (.error failure, s₀)) ∨
        s₀.tree.get? (p.place s₀.home) ≠ some .directory ∧ ∃ runnable,
          (finish ()).run.run s₀ = (.ok (),
            { s₀ with tree := s₀.tree.set (p.place s₀.home) (.file text.toUTF8 runnable) }) := by
    intro s₀
    have ended := attempt_run (.unwritten p) ((host launcher).write p text) (s := s₀)
    rcases hostWrite_cases launcher s₀ p text with ⟨e, wrote⟩ | ⟨free, runnable, wrote⟩
    · rw [wrote] at ended
      exact .inl ⟨.unwritten p e, ended⟩
    · rw [wrote] at ended
      exact .inr ⟨free, runnable, ended⟩
  -- A path with a directory before its name has that directory made first.
  split
  · have spared := s.tree.makeDirectories_spares (fun _ => False) s.home directory
    have ran := attempt_run (.noDirectory directory)
      ((host launcher).makeDirectories directory) (s := s)
    rw [makeDirectories_run] at ran
    rcases made : s.tree.makeDirectories s.home directory with ⟨e | _, t⟩
    · rw [made] at ran spared
      exact ⟨t, spared, .inl ⟨.noDirectory directory e, andThen_error ran⟩⟩
    · rw [made] at ran spared
      rw [andThen_of_ok ran]
      exact ⟨t, spared, finished { s with tree := t }⟩
  · exact ⟨s.tree, .refl _ s.tree, finished s⟩

theorem confines_write {p : Path} {text : String} (hit : touched (p.place s.home)) :
    Confines touched s (write (host launcher) p text).run := by
  unfold Confines
  obtain ⟨t, spared, ⟨failure, ended⟩ | ⟨free, runnable, ended⟩⟩ := write_cases launcher s p text
  · rw [ended]
    exact ⟨rfl, spared.mono fun _ => False.elim⟩
  · rw [ended]
    exact ⟨rfl, (spared.mono fun _ => False.elim).trans (.set free hit)⟩

theorem confines_remove {p : Path} (hit : touched (p.place s.home)) :
    Confines touched s ((host launcher).remove p) :=
  ⟨rfl, Tree.remove_spares hit⟩

section Launches

variable (confined : launcher.Confined)

include confined

theorem confines_launch {what : Launch}
    (hit : ∀ target, what.target? = some target → touched (target.place s.home)) :
    Confines touched s ((host launcher).launch what) :=
  ⟨rfl, confined.spares hit s.tree⟩

theorem confines_toolkitFlags : Confines touched s (toolkitFlags (host launcher) settings) := by
  unfold toolkitFlags
  split
  · apply Confines.bind
    · apply confines_launch confined
      have silent : Toolkit.query.target? = none := by decide
      simp [silent]
    · intro s' _ _
      split <;> exact .pure _
  · exact .pure _

theorem runCompiler_cases (s : Machine) :
    ∃ t extra, s.tree.Spares (fun _ => False) t ∧
      ((runCompiler (host launcher) settings a).run.run s).2.home = s.home ∧
      ((runCompiler (host launcher) settings a).run.run s).2.tree =
        (launcher t s.home ⟨settings.compiler, a.compilerArguments settings.optimize extra⟩).2 := by
  have asked : Confines (fun _ => False) s (toolkitFlags (host launcher) settings) :=
    confines_toolkitFlags confined
  rcases told : (toolkitFlags (host launcher) settings).run s with ⟨extra, s'⟩
  unfold Confines at asked
  rw [told] at asked
  refine ⟨s'.tree, extra, asked.tree, ?_⟩
  rw [← asked.home]
  have lifted : (liftM (toolkitFlags (host launcher) settings) :
      ExceptT Failure (StateM Machine) (List String)).run.run s = (.ok extra, s') := by
    change (Except.ok ((toolkitFlags (host launcher) settings).run s).1,
      ((toolkitFlags (host launcher) settings).run s).2) = _
    rw [told]
  unfold runCompiler
  rw [andThen_of_ok lifted]
  generalize Launch.mk settings.compiler (a.compilerArguments settings.optimize extra) = what
  have launched := attempt_run (.compilerUnlaunched settings.compiler)
    ((host launcher).launch what) (s := s')
  rw [launch_run] at launched
  rcases ended : launcher s'.tree s'.home what with ⟨e | outcome, t⟩
  · rw [ended] at launched
    rw [andThen_error launched]
    exact ⟨rfl, rfl⟩
  · rw [ended] at launched
    rw [andThen_of_ok launched]
    cases outcome.status.isSuccess <;> exact ⟨rfl, rfl⟩

theorem confines_runCompiler {outDir : Path} (named : Artifacts.ofFile outDir file = .ok a)
    (hit : touched (a.program.place s.home)) :
    Confines touched s (runCompiler (host launcher) settings a).run := by
  obtain ⟨t, extra, spared, stays, left⟩ := runCompiler_cases confined s
  constructor
  · exact stays
  · rw [left]
    apply (spared.mono fun _ => False.elim).trans
    apply confined.spares
    intro target told
    rw [Artifacts.target?_compilerArguments named, Option.some.injEq] at told
    rw [← told]
    exact hit

theorem confines_build (hit : Covers touched settings s.home file) :
    Confines touched s (build (host launcher) settings file).run := by
  unfold build
  apply Confines.andThen confines_compile
  intro compiled s₁ _ stays₁
  apply Confines.andThen
  · exact .pure _
  · intro a s₂ named stays₂
    have named : Artifacts.ofFile (settings.outDir.getD ⟨"."⟩) file = .ok a := (Prod.mk.inj named).1
    have home₂ : s₂.home = s.home := stays₂.trans stays₁
    obtain ⟨cpp, program⟩ := hit a named
    apply Confines.andThen
    · apply confines_write
      rw [home₂]
      exact cpp
    · intro _ s₃ _ stays₃
      have home₃ : s₃.home = s.home := stays₃.trans home₂
      apply Confines.andThen
      · apply Confines.lift
        apply confines_runCompiler confined named
        rw [home₃]
        exact program
      · intro result s₄ _ stays₄
        extract_lets finish
        have finished : ∀ s', Confines touched s' (finish ()).run := by
          intro s'
          apply Confines.andThen
          · exact .pure _
          · intro _ _ _ _
            exact .pure _
        split
        · apply Confines.andThen
          · apply Confines.lift
            apply confines_remove
            rw [stays₄, home₃]
            exact cpp
          · intro _ s₅ _ _
            exact finished s₅
        · exact finished s₄

omit confined in
theorem build_ok {program : Path} {s' : Machine}
    (h : (build (host launcher) settings file).run.run s = (.ok program, s')) :
    ∃ a, Artifacts.ofFile (settings.outDir.getD ⟨"."⟩) file = .ok a ∧ program = a.program := by
  obtain ⟨compiled, s₁, _, h⟩ := andThen_ok h
  obtain ⟨a, s₂, named, h⟩ := andThen_ok h
  obtain ⟨_, s₃, _, h⟩ := andThen_ok h
  obtain ⟨result, s₄, _, h⟩ := andThen_ok h
  refine ⟨a, (Prod.mk.inj named).1, ?_⟩
  split at h
  · obtain ⟨_, s₅, _, h⟩ := andThen_ok h
    obtain ⟨_, s₆, _, h⟩ := andThen_ok h
    exact (Except.ok.inj (Prod.mk.inj h).1).symm
  · obtain ⟨_, s₆, _, h⟩ := andThen_ok h
    exact (Except.ok.inj (Prod.mk.inj h).1).symm

theorem confines_buildAndRun (hit : Covers touched settings s.home file) :
    Confines touched s (buildAndRun (host launcher) settings file).run := by
  unfold buildAndRun
  apply Confines.andThen (confines_build confined hit)
  intro program s₁ built stays₁
  obtain ⟨a, named, rfl⟩ := build_ok built
  apply Confines.andThen
  · apply Confines.lift
    apply confines_launch confined
    simp [Launch.target?]
  · intro result s₂ _ stays₂
    apply Confines.andThen
    · apply Confines.lift
      apply confines_remove
      rw [stays₂, stays₁]
      exact (hit a named).2
    · intro _ s₃ _ _
      exact .attempt (.pure _)

theorem confines_run (hit : Covers touched settings s.home file) :
    Confines touched s (run (host launcher) settings file).run := by
  unfold run
  apply Confines.andThen (confines_buildAndRun confined hit)
  intro outcome s₁ _ _
  apply Confines.andThen
  · exact .lift (confines_print _)
  · intro _ s₂ _ _
    split
    · exact .pure _
    · exact .pure _

theorem confines_test (hit : Covers touched settings s.home file) :
    Confines touched s (test (host launcher) settings file) := by
  unfold test
  apply Confines.bind (confines_buildAndRun confined hit)
  intro s₁ _ _
  split
  · exact .bind (confines_print _) fun _ _ _ => .pure _
  · exact .bind (confines_print _) fun _ _ _ => .pure _

theorem confines_testAll {directory : Path}
    (hit : ∀ file ∈ scripts (filesBelow s.tree s.home directory),
      Covers touched settings s.home file) :
    Confines touched s (testAll (host launcher) settings directory).run := by
  unfold testAll
  apply Confines.andThen
  · exact .lift (.still rfl rfl)
  · intro there s₁ looked _
    obtain rfl : s₁ = s := (Prod.mk.inj looked).2.symm
    extract_lets proceed
    split
    · exact .pure _
    · apply Confines.andThen
      · exact .lift (.still rfl rfl)
      · intro below s₂ listed _
        obtain ⟨found, same⟩ := Prod.mk.inj listed
        obtain rfl : filesBelow s₁.tree s₁.home directory = below := Except.ok.inj found
        obtain rfl : s₁ = s₂ := same
        apply Confines.andThen
        · apply Confines.lift
          apply Confines.mapM
          intro file member s' stays
          apply confines_test confined
          rw [stays]
          exact hit file member
        · intro results s₃ _ _
          apply Confines.andThen
          · exact .lift (confines_print _)
          · intro _ s₄ _ _
            split
            · exact .pure _
            · exact .pure _

end Launches

end Session

namespace Invocation

def builds (invocation : Invocation) (s : Machine) : List Path :=
  match invocation.command with
  | .print _ => []
  | .build file => [file]
  | .run file => [file]
  | .test directory => Session.scripts (Machine.filesBelow s.tree s.home directory)

def outDir (invocation : Invocation) : Path := invocation.settings.outDir.getD ⟨"."⟩

/-- The places of what a build leaves, for any script that is built. -/
def Touches (invocation : Invocation) (s : Machine) (place : Location) : Prop :=
  ∃ file ∈ invocation.builds s, ∃ a,
    Artifacts.ofFile invocation.outDir file = .ok a ∧
      (place = a.cpp.place s.home ∨ place = a.program.place s.home)

def after (invocation : Invocation) (launcher : Launcher) (s : Machine) : Machine :=
  ((invocation.perform (Machine.host launcher)).run.run s).2

theorem after_spares {launcher : Launcher} (confined : launcher.Confined) (invocation : Invocation)
    (s : Machine) : s.Spares (invocation.Touches s) (invocation.after launcher s) := by
  have hit : ∀ file ∈ invocation.builds s,
      Session.Covers (invocation.Touches s) invocation.settings s.home file := by
    intro file member a named
    exact ⟨⟨file, member, a, named, .inl rfl⟩, ⟨file, member, a, named, .inr rfl⟩⟩
  obtain ⟨command, settings⟩ := invocation
  cases command with
  | print file =>
    exact Machine.Confines.andThen Session.confines_compile
      fun _ _ _ _ => .lift (Session.confines_print _)
  | build file =>
    have built := Session.confines_build confined (hit file List.mem_cons_self)
    unfold Machine.Confines at built
    rw [← Machine.discard_run] at built
    exact built
  | run file => exact Session.confines_run confined (hit file List.mem_cons_self)
  | test directory => exact Session.confines_testAll confined hit

end Invocation

end ScriptCpp
