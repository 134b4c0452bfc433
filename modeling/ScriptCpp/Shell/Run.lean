import ScriptCpp.Machine
import ScriptCpp.Shell.Builtin
import ScriptCpp.Shell.Loader

set_option autoImplicit false

namespace ScriptCpp

namespace Shell

structure Runner where
  source : State → String → State
  launch : Launcher

def statusCode : Status → Nat
  | .exited code => code
  | .killed signal => 128 + signal

inductive Sink where
  | shell
  | nowhere
  | file (path : Path)

-- Output to any stream but the first one is not kept.
def redirect (s : State) (sink : Sink) : Redirection → Option (State × Sink)
  | .write stream target => do
      let path := pathOf (s.plain target)
      let sent (next : Sink) : Sink := if stream = 1 then next else sink
      if path.text = "/dev/null" then return (s, sent .nowhere)
      let t ← (s.tree.write s.home path .empty).toOption
      return ({ s with tree := t }, sent (.file path))
  | .append stream target => do
      let path := pathOf (s.plain target)
      let sent (next : Sink) : Sink := if stream = 1 then next else sink
      if path.text = "/dev/null" then return (s, sent .nowhere)
      match s.tree.locate s.home path with
      | .ok _ => return (s, sent (.file path))
      | .error _ =>
          let t ← (s.tree.write s.home path .empty).toOption
          return ({ s with tree := t }, sent (.file path))
  | .copy stream target =>
      if stream = 1 && s.plain target ≠ "1" then some (s, .nowhere) else some (s, sink)

def redirectAll (s : State) (redirections : List Redirection) : Option (State × Sink) :=
  redirections.foldlM (fun (s, sink) r => redirect s sink r) (s, .shell)

def deliver (s : State) (before : ByteArray) : Sink → State
  | .shell => { s with output := before ++ s.output }
  | .nowhere => { s with output := before }
  | .file path =>
      let content := (s.tree.read s.home path).toOption.getD .empty
      match s.tree.write s.home path (content ++ s.output) with
      | .ok t => { s with tree := t, output := before }
      | .error _ => { s with output := before }

def assignment? (word : Word) : Option (String × Word) :=
  let isName : Part → Bool
    | .text c false => isNamePart c
    | _ => false
  match (word.takeWhile isName), word.dropWhile isName with
  | first :: rest, .text '=' false :: value =>
      (Word.bare? (first :: rest)).map fun name => (name, value)
  | _, _ => none

def refusalCode : FileError → Nat
  | .noEntry | .notDirectory | .nameTooLong | .loop => 127
  | _ => 126

def Runner.delegate (r : Runner) (t : Tree) (home : Location) (what : Launch) : Outcome × Tree :=
  let answer := match r.launch t home what with
    | (.error .execFormat, t) => r.launch t home ⟨"/bin/sh", what.program :: what.arguments⟩
    | answer => answer
  match answer with
  | (.ok outcome, t) => (outcome, t)
  | (.error e, t) => (⟨.exited (refusalCode e), .empty⟩, t)

def external (r : Runner) (s : State) (name : String) (args : List String) : State × Status :=
  let (outcome, t) := r.delegate s.tree s.home ⟨name, args⟩
  ({ s with tree := t, output := s.output ++ outcome.output }, outcome.status)

def scriptText (content : ByteArray) : String :=
  String.ofList ((Bytes.spread content).toList.filter (· != '\x00'))

def perform (r : Runner) (s : State) (name : String) (args : List String) : State :=
  match name with
  | ":" => s.settled 0
  | "set" => setOptions s args
  | "exit" =>
      match args.head? with
      | none => s.stop (.exited s.code)
      | some text =>
          match number? text with
          | some n => s.stop (.exited (n % 256))
          | none => s.stop (.exited 2)
  | "exec" =>
      match args with
      | [] => s.settled 0
      | name :: args =>
          let (s, status) := external r s name args
          s.stop status
  | "." =>
      match args.head?.map fun p => s.tree.read s.home (pathOf p) with
      | none | some (.error .isDirectory) => s.settled 0
      | some (.ok content) => r.source (s.settled 0) (scriptText content)
      | some (.error _) => s.stop (.exited 2)
  | "shift" => shift s (args.head?.elim (some 1) number?)
  | "kill" => kill s args
  | "cd" =>
      match args.head?.bind fun p => (s.tree.locate s.home (pathOf p)).toOption with
      | some place =>
          if s.tree.isDirectory place then { s with home := place, code := 0 } else s.settled 2
      | none => s.settled 2
  | _ =>
      match Utility.run? true s.tree s.home name args with
      | some ran =>
          { s with tree := ran.tree, output := s.output ++ ran.output, code := ran.code }
      | none =>
          let (s, status) := external r s name args
          s.settled (statusCode status)

def simpleCommand (r : Runner) (s : State) (words : List Word) (redirections : List Redirection) :
    State :=
  let settings := words.takeWhile fun w => (assignment? w).isSome
  match redirectAll s redirections with
  | none => s.settled 2
  | some (opened, sink) =>
      match (words.drop settings.length).flatMap opened.fields with
      | [] =>
          (settings.filterMap assignment?).foldl
            (fun s (name, value) => s.assign name (s.plain value)) (opened.settled 0)
      | name :: args => deliver (perform r { opened with output := .empty } name args) s.output sink

mutual

def run (r : Runner) (s : State) : Script → State
  | .nothing => s
  | .simple words redirections => (simpleCommand r s words redirections).checked
  | .sequence first second =>
      let s := run r s first
      if s.ended.isSome then s else run r s second
  | .both first second =>
      let s := (run r s.guard first).unguard s
      if s.ended.isSome || s.code ≠ 0 then s else run r s second
  | .either first second =>
      let s := (run r s.guard first).unguard s
      if s.ended.isSome || s.code = 0 then s else run r s second
  | .negate script =>
      let s := (run r s.guard script).unguard s
      s.settled (if s.code = 0 then 1 else 0)
  | .branch condition yes no =>
      let s := (run r s.guard condition).unguard s
      if s.ended.isSome then s
      else if s.code = 0 then run r (s.settled 0) yes
      else run r (s.settled 0) no
  | .choose subject arms => runArms r (s.settled 0) (s.plain subject).toList arms
  | .each name words body =>
      (words.flatMap s.fields).foldl
        (fun s field => if s.ended.isSome then s else run r (s.assign name field) body)
        (s.settled 0)

def runArms (r : Runner) (s : State) (subject : List Char) : Arms → State
  | .none => s
  | .arm patterns body rest =>
      if patterns.any fun p => (s.pattern p).covers subject then run r s body
      else runArms r s subject rest

end

def runText (r : Runner) (s : State) (text : String) : State :=
  match Script.ofText? text with
  | some script => run r s script
  | none => s.stop (.exited 2)

def State.outcome (s : State) : Outcome := ⟨s.ended.getD (.exited s.code), s.output⟩

def runShell (r : Runner) (t : Tree) (home : Location) (args : List String) : Outcome × Tree :=
  let options := args.takeWhile isOption
  match args.drop options.length with
  | [] => (⟨.exited 0, .empty⟩, t)
  | file :: rest =>
      match t.read home (pathOf file), options.foldlM State.withOption? (State.start t home file rest) with
      | .ok content, some s =>
          let s := runText r s (scriptText content)
          (s.outcome, s.tree)
      | _, _ => (⟨.exited 2, .empty⟩, t)

def runEnv (r : Runner) (t : Tree) (home : Location) (args : List String) : Outcome × Tree :=
  match args.dropWhile fun a => a.toList.contains '=' with
  | [] => (⟨.exited 0, .empty⟩, t)
  | program :: rest =>
      if "-".isPrefixOf program then (⟨.exited 125, .empty⟩, t)
      else r.delegate t home ⟨program, rest⟩

def runSystem (r : Runner) (t : Tree) (home : Location) (name : String) (args : List String) :
    Outcome × Tree :=
  if interpreters.contains name then runShell r t home args
  else if name = "env" then runEnv r t home args
  else
    match Utility.run? false t home name args with
    | some ran => (⟨.exited ran.code, ran.output⟩, ran.tree)
    | none => (⟨.exited 127, .empty⟩, t)

def launchWith (searchPath : List Path) (r : Runner) : Launcher := fun t home what =>
  match find searchPath t home what with
  | .error e => (.error e, t)
  | .ok (name, args) =>
      let (outcome, t) := runSystem r t home name args
      (.ok outcome, t)

def runner (searchPath : List Path) : Nat → Runner
  | 0 => ⟨fun s _ => s.stop (.exited 2), fun t _ _ => (.error .noEntry, t)⟩
  | depth + 1 =>
      ⟨runText (runner searchPath depth), launchWith searchPath (runner searchPath depth)⟩

def depthLimit : Nat := 64

def bytewise (what : Launch) : Launch :=
  ⟨Bytes.spread what.program.toUTF8, what.arguments.map fun a => Bytes.spread a.toUTF8⟩

def launcher (searchPath : List Path) : Launcher := fun t home what =>
  if what.hasNul then (.error .nulInArgument, t)
  else (runner searchPath depthLimit).launch t home (bytewise what)

end Shell

end ScriptCpp
