import ScriptCpp.CommandLine.Invocation
import ScriptCpp.Session.Artifacts
import ScriptCpp.Session.Host
import ScriptCpp.Text.Bytes

set_option autoImplicit false

namespace ScriptCpp

namespace Session

variable {m : Type → Type} [Monad m]

def attempt {α ε : Type} (cause : ε → Failure) (step : m (Except ε α)) : ExceptT Failure m α :=
  ExceptT.mk (Except.mapError cause <$> step)

def compile (host : Host m) (settings : Settings) (file : Path) : ExceptT Failure m Compiled :=
  attempt (.uncompiled file) (host.compile settings.features file)

def write (host : Host m) (path : Path) (text : String) : ExceptT Failure m Unit := do
  let directory := path.directory
  if !directory.text.isEmpty then
    attempt (.noDirectory directory) (host.makeDirectories directory)
  attempt (.unwritten path) (host.write path text)

def toolkitFlags (host : Host m) (settings : Settings) : m (List String) := do
  if settings.features.gui then
    match ← host.launch Toolkit.query with
    | .ok outcome =>
        return if outcome.status.isSuccess then Toolkit.flags (Bytes.text outcome.output) else []
    | .error _ => return []
  else return []

def runCompiler (host : Host m) (settings : Settings) (a : Artifacts) :
    ExceptT Failure m Unit := do
  let extra ← (toolkitFlags host settings : m (List String))
  let outcome ← attempt (.compilerUnlaunched settings.compiler)
    (host.launch ⟨settings.compiler, a.compilerArguments settings.optimize extra⟩)
  host.print outcome.output
  if !outcome.status.isSuccess then throw (.compilerFailed a.cpp outcome.status)

def build (host : Host m) (settings : Settings) (file : Path) : ExceptT Failure m Path := do
  let compiled ← compile host settings file
  let a ← ExceptT.mk (pure (Artifacts.ofFile (settings.outDir.getD ⟨"."⟩) file))
  write host a.cpp compiled.cpp
  let result ← ExceptT.lift (runCompiler host settings a).run
  if !settings.keepCpp then host.remove a.cpp
  ExceptT.mk (pure result)
  return a.program

def buildAndRun (host : Host m) (settings : Settings) (file : Path) :
    ExceptT Failure m Outcome := do
  let program ← build host settings file
  let result ← host.launch ⟨program.text, []⟩
  host.remove program
  attempt (.programUnlaunched program) (pure result)

def run (host : Host m) (settings : Settings) (file : Path) : ExceptT Failure m Unit := do
  let outcome ← buildAndRun host settings file
  host.print outcome.output
  if !outcome.status.isSuccess then throw (.programFailed file outcome.status)

def passMark : String := "ALL TESTS PASSED"

def hasPart (part : List Char) : List Char → Bool
  | [] => part.isEmpty
  | c :: rest => part.isPrefixOf (c :: rest) || hasPart part rest

def passed (outcome : Outcome) : Bool :=
  outcome.status.isSuccess && hasPart passMark.toList (Bytes.text outcome.output).toList

def test (host : Host m) (settings : Settings) (file : Path) : m Bool := do
  match ← (buildAndRun host settings file).run with
  | .ok outcome =>
      host.say ((if passed outcome then "PASS " else "FAIL ") ++ file.text ++ "\n")
      return passed outcome
  | .error failure =>
      host.say ("FAIL " ++ file.text ++ " (" ++ failure.message ++ ")\n")
      return false

def isBefore (a b : Path) : Bool := Path.order a.components b.components ≠ .gt

def scripts (files : List Path) : List Path :=
  (files.filter fun p => p.extension? = some "rr").mergeSort isBefore

def testAll (host : Host m) (settings : Settings) (directory : Path) :
    ExceptT Failure m Unit := do
  if !(← host.isDirectory directory) then throw (.noTests directory)
  let files := scripts (← host.filesBelow directory)
  let results ← (files.mapM (test host settings) : m (List Bool))
  let failures := results.count false
  host.say (toString (files.length - failures) ++ " passed, " ++ toString failures ++ " failed\n")
  if failures ≠ 0 then throw (.testsFailed failures)

end Session

def Invocation.perform {m : Type → Type} [Monad m] (host : Host m) (invocation : Invocation) :
    ExceptT Failure m Unit := do
  let settings := invocation.settings
  match invocation.command with
  | .print file => host.say (← Session.compile host settings file).cpp
  | .build file => discard (Session.build host settings file)
  | .run file => Session.run host settings file
  | .test directory => Session.testAll host settings directory

end ScriptCpp
