import ScriptCpp.Text.Bytes

set_option autoImplicit false

namespace ScriptCpp

structure Launch where
  program : String
  arguments : List String
deriving DecidableEq, Repr

def Launch.hasNul (what : Launch) : Bool :=
  (what.program :: what.arguments).any fun text => text.toList.contains '\x00'

inductive Status where
  | exited (code : Nat)
  | killed (signal : Nat)
deriving DecidableEq, Repr

namespace Status

def isSuccess (s : Status) : Bool := s = .exited 0

def signalNames : List String :=
  ["SIGHUP", "SIGINT", "SIGQUIT", "SIGILL", "SIGTRAP", "SIGABRT", "SIGBUS", "SIGFPE", "SIGKILL",
    "SIGUSR1", "SIGSEGV", "SIGUSR2", "SIGPIPE", "SIGALRM", "SIGTERM", "SIGSTKFLT", "SIGCHLD",
    "SIGCONT", "SIGSTOP", "SIGTSTP", "SIGTTIN", "SIGTTOU", "SIGURG", "SIGXCPU", "SIGXFSZ",
    "SIGVTALRM", "SIGPROF", "SIGWINCH", "SIGIO", "SIGPWR", "SIGSYS"]

def signalName? (signal : Nat) : Option String :=
  match signal with
  | 0 => none
  | n + 1 => signalNames[n]?

def text : Status → String
  | .exited code => "exit status: " ++ toString code
  | .killed signal =>
      "signal: " ++ toString signal ++
        match signalName? signal with
        | some name => " (" ++ name ++ ")"
        | none => ""

end Status

structure Outcome where
  status : Status
  output : ByteArray
deriving DecidableEq

end ScriptCpp
