import ScriptCpp.Shell.State

set_option autoImplicit false

namespace ScriptCpp

namespace Shell

def State.settled (s : State) (code : Nat) : State := { s with code := code }

def State.stop (s : State) (status : Status) : State := { s with ended := some status }

def signalLimit : Nat := 64

def signal? (text : String) : Option Nat :=
  match text.toNat? with
  | some n => if n ≤ signalLimit then some n else none
  | none => (Status.signalNames.idxOf? ("SIG" ++ text.toUpper)).map (· + 1)

-- Signals that a program does not die of.
def harmless : List Nat := [0, 17, 18, 23, 28]

-- Codes and counts stay below this.
def numberLimit : Nat := 2147483648

def number? (text : String) : Option Nat :=
  if text.isEmpty || !text.toList.all Char.isDigit then none else text.toNat?.filter (· < numberLimit)

def send (s : State) (signal : Option Nat) (processes : List String) : State :=
  match signal with
  | none => s.settled 2
  | some signal =>
      if processes.isEmpty then s.settled 2
      else if !processes.contains ownProcess then s.settled 1
      else if harmless.contains signal then s.settled 0
      else s.stop (.killed signal)

def kill (s : State) : List String → State
  | "-s" :: name :: processes => send s (signal? name) processes
  | first :: rest =>
      match first.toList with
      | '-' :: name => send s (signal? (String.ofList name)) rest
      | _ => send s (some 15) (first :: rest)
  | [] => s.settled 2

def shift (s : State) (count : Option Nat) : State :=
  match count with
  | none => s.stop (.exited 2)
  | some n =>
      if s.arguments.length < n then s.stop (.exited 2)
      else { s with arguments := s.arguments.drop n, code := 0 }

def State.withOption? (s : State) (option : String) : Option State :=
  let isKnown (c : Char) : Bool := "abefhmuvx".toList.contains c
  match option.toList with
  | sign :: letters =>
      if !letters.all isKnown then none
      else if letters.contains 'e' then some { s with strict := sign = '-' }
      else some s
  | [] => none

def isOption (text : String) : Bool :=
  match text.toList with
  | sign :: _ :: _ => sign = '-' || sign = '+'
  | _ => false

def setOptions (s : State) (args : List String) : State :=
  match (args.takeWhile isOption).foldlM State.withOption? s with
  | some s => s.settled 0
  | none => s.stop (.exited 2)

def State.checked (s : State) : State :=
  if s.strict && !s.guarded && s.ended.isNone && s.code ≠ 0 then s.stop (.exited s.code) else s

def State.guard (s : State) : State := { s with guarded := true }

def State.unguard (s before : State) : State := { s with guarded := before.guarded }

end Shell

end ScriptCpp
