import ScriptCpp.CommandLine.Invocation

set_option autoImplicit false

namespace ScriptCpp

namespace CommandLine

inductive Flag where
  | gui
  | http
  | keepCpp
  | verbose
  | noOptimize
deriving DecidableEq, Repr

inductive Slot where
  | outDir
  | compiler
  | operand
deriving DecidableEq, Repr

inductive Switch where
  | flag (flag : Flag)
  | slot (slot : Slot)
  | help
  | version
deriving DecidableEq, Repr

inductive Verb where
  | print
  | build
  | run
  | test
deriving DecidableEq, Repr

def Verb.ofName? : String → Option Verb
  | "show" => some .print
  | "build" => some .build
  | "run" => some .run
  | "test" => some .test
  | _ => none

def isCommandName (text : String) : Bool :=
  (Verb.ofName? text).isSome || text = "help"

inductive Word where
  | escape
  | long (name : String) (value? : Option String)
  | short (letter : Char)
  | plain
deriving DecidableEq, Repr

def Word.ofText (text : String) : Word :=
  match text.toList with
  | ['-', '-'] => .escape
  | '-' :: '-' :: rest =>
      .long (String.ofList (rest.takeWhile (· != '=')))
        (match rest.dropWhile (· != '=') with
        | [] => none
        | _ :: value => some (String.ofList value))
  | '-' :: letter :: _ => .short letter
  | _ => .plain

-- The version is known outside of the commands only.
def Switch.ofLong? (outer : Bool) : String → Option Switch
  | "gui" => some (.flag .gui)
  | "http" => some (.flag .http)
  | "keep-cpp" => some (.flag .keepCpp)
  | "verbose" => some (.flag .verbose)
  | "no-optimize" => some (.flag .noOptimize)
  | "out-dir" => some (.slot .outDir)
  | "cxx" => some (.slot .compiler)
  | "help" => some .help
  | "version" => if outer then some .version else none
  | _ => none

def Switch.ofShort? (outer : Bool) : Char → Option Switch
  | 'h' => some .help
  | 'V' => if outer then some .version else none
  | _ => none

/-- What was given on one level. A value is stored late, when the next option or operand comes, and
only then are its faults seen. -/
structure Level where
  flags : List Flag
  values : List (Slot × String)
  pending : Option (Slot × Option String)
deriving DecidableEq, Repr

namespace Level

def empty : Level := ⟨[], [], none⟩

def value? (l : Level) (slot : Slot) : Option String := l.values.lookup slot

def isBlank (l : Level) : Bool := l.flags.isEmpty && l.values.isEmpty

def isAwaiting (l : Level) : Bool :=
  match l.pending with
  | some (_, none) => true
  | _ => false

def hasOperand (l : Level) : Bool :=
  (l.value? .operand).isSome || l.pending.any fun p => p.1 = .operand

-- Only the compiler's name may be empty.
def store (l : Level) (slot : Slot) (text : String) : Except UsageStop Level :=
  if (l.value? slot).isSome then .error .repeated
  else if slot ≠ .compiler && text.isEmpty then .error .badValue
  else .ok { l with values := (slot, text) :: l.values }

def settle (l : Level) : Except UsageStop Level :=
  match l.pending with
  | none => .ok l
  | some (_, none) => .error .badValue
  | some (slot, some text) => store { l with pending := none } slot text

def give (l : Level) (text : String) : Level :=
  { l with pending := l.pending.map fun p => (p.1, some text) }

def raise (l : Level) (flag : Flag) : Except UsageStop Level :=
  if flag ∈ l.flags then .error .repeated else .ok { l with flags := flag :: l.flags }

def switch (l : Level) : Switch → Option String → Except UsageStop Level
  | .slot slot, none => do return { ← l.settle with pending := some (slot, none) }
  | .slot slot, some text => do (← l.settle).store slot text
  | _, some _ => .error .needlessValue
  | .flag flag, none => do (← l.settle).raise flag
  | .help, none => do
      let _ ← l.settle
      .error .help
  | .version, none => do
      let _ ← l.settle
      .error .version

def operand (l : Level) (text : String) : Except UsageStop Level := do
  if l.hasOperand then .error .unknownArgument
  else return { ← l.settle with pending := some (.operand, some text) }

def option (l : Level) (switch? : Option Switch) (value? : Option String) :
    Except UsageStop Level :=
  match switch? with
  | some switch => l.switch switch value?
  | none => .error .unknownArgument

def inner (l : Level) (escaped : Bool) : List String → Except UsageStop Level
  | [] => l.settle
  | text :: rest =>
      if escaped then do (← l.operand text).inner true rest
      else
        match Word.ofText text with
        | .escape => l.inner true rest
        | .long name value? => do (← l.option (Switch.ofLong? false name) value?).inner false rest
        | .short letter => do (← l.option (Switch.ofShort? false letter) none).inner false rest
        | .plain =>
            if l.isAwaiting then (l.give text).inner false rest
            else do (← l.operand text).inner false rest

end Level

def command (verb : Verb) (operand? : Option String) : Except UsageStop Command :=
  match verb, operand? with
  | .test, operand? => .ok (.test ⟨operand?.getD "tests"⟩)
  | _, none => .error .missingOperand
  | .print, some file => .ok (.print ⟨file⟩)
  | .build, some file => .ok (.build ⟨file⟩)
  | .run, some file => .ok (.run ⟨file⟩)

def settings (outer inner : Level) : Settings :=
  let has (flag : Flag) : Bool := flag ∈ inner.flags || flag ∈ outer.flags
  let value? (slot : Slot) : Option String := (inner.value? slot).or (outer.value? slot)
  { features := ⟨has .gui, has .http⟩
    keepCpp := has .keepCpp
    verbose := has .verbose
    optimize := !has .noOptimize
    outDir := (value? .outDir).map Path.mk
    compiler := (value? .compiler).getD "g++" }

-- The words after `help` name a command in steps, and the commands have none of their own.
def help (words : List String) : UsageStop :=
  match words with
  | [] => .help
  | [word] => if isCommandName word then .help else .unknownCommand
  | _ => .unknownCommand

def outer (l : Level) (escaped : Bool) : List String → Except UsageStop Invocation
  | [] => do
      let l ← l.settle
      .error (if l.isBlank then .helpForEmpty else .missingCommand)
  | text :: rest =>
      if escaped then .error (if isCommandName text then .unknownArgument else .unknownCommand)
      else
        match Word.ofText text with
        | .escape => outer l true rest
        | .long name value? => do outer (← l.option (Switch.ofLong? true name) value?) false rest
        | .short letter => do outer (← l.option (Switch.ofShort? true letter) none) false rest
        | .plain =>
            if l.isAwaiting then outer (l.give text) false rest
            else
              match Verb.ofName? text with
              | some verb => do
                  let inner ← Level.empty.inner false rest
                  let command ← command verb (inner.value? .operand)
                  return ⟨command, settings (← l.settle) inner⟩
              | none => .error (if text = "help" then help rest else .unknownCommand)

end CommandLine

def Invocation.ofArguments (args : List String) : Except UsageStop Invocation :=
  CommandLine.outer .empty false args

end ScriptCpp
