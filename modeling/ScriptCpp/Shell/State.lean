import ScriptCpp.Files.Tree
import ScriptCpp.Session.Launch
import ScriptCpp.Shell.Script
import ScriptCpp.Text.Bytes

set_option autoImplicit false

namespace ScriptCpp

namespace Shell

structure State where
  tree : Tree
  home : Location
  name : String
  arguments : List String
  bindings : List (String × String)
  code : Nat
  output : ByteArray
  ended : Option Status
  strict : Bool
  guarded : Bool

-- The one process that a script can name is its own.
def ownProcess : String := "1"

namespace State

def start (tree : Tree) (home : Location) (name : String) (arguments : List String) : State :=
  ⟨tree, home, name, arguments, [], 0, .empty, none, false, false⟩

def homeText (s : State) : String := Bytes.spread (Location.path s.home).text.toUTF8

def value (s : State) (name : String) : String :=
  match name with
  | "@" | "*" => " ".intercalate s.arguments
  | "#" => toString s.arguments.length
  | "?" => toString s.code
  | "$" => ownProcess
  | "0" => s.name
  | _ =>
      match name.toNat? with
      | some n => (s.arguments[n - 1]?).getD ""
      | none => (s.bindings.lookup name).getD (if name = "PWD" then s.homeText else "")

def assign (s : State) (name value : String) : State :=
  { s with bindings := (name, value) :: s.bindings.filter fun v => v.1 ≠ name }

def plain (s : State) (word : Word) : String :=
  String.join (word.map fun
    | .text c _ => c.toString
    | .value name _ => s.value name
    | .mark => "")

end State

structure Fields where
  done : List String
  current : Option (List Char)

namespace Fields

def push (f : Fields) (c : Char) : Fields := { f with current := some (c :: f.current.getD []) }

def touch (f : Fields) : Fields := { f with current := some (f.current.getD []) }

def flush (f : Fields) : Fields :=
  match f.current with
  | none => f
  | some chars => ⟨String.ofList chars.reverse :: f.done, none⟩

def whole (f : Fields) (text : String) : Fields := text.toList.foldl push f.touch

def split (f : Fields) (text : String) : Fields :=
  text.toList.foldl (fun f c => if c = ' ' || c = '\t' || c = '\n' then f.flush else f.push c) f

def several (f : Fields) (add : Fields → String → Fields) : List String → Fields
  | [] => f
  | [text] => add f text
  | text :: rest => several (add f text).flush add rest

def part (s : State) (f : Fields) : Part → Fields
  | .text c _ => f.push c
  | .mark => f.touch
  | .value "@" true => f.several whole s.arguments
  | .value "@" false | .value "*" false => f.several split s.arguments
  | .value name true => f.whole (s.value name)
  | .value name false => f.split (s.value name)

end Fields

def State.fields (s : State) (word : Word) : List String :=
  (word.foldl (Fields.part s) ⟨[], none⟩).flush.done.reverse

abbrev Pattern := List (Char × Bool)

def State.pattern (s : State) (word : Word) : Pattern :=
  word.flatMap fun
    | .text c quoted => [(c, quoted)]
    | .value name quoted => (s.value name).toList.map fun c => (c, quoted)
    | .mark => []

def anyTail (f : List Char → Bool) : List Char → Bool
  | [] => f []
  | c :: rest => f (c :: rest) || anyTail f rest

def Pattern.covers : Pattern → List Char → Bool
  | [], text => text.isEmpty
  | ('*', false) :: rest, text => anyTail (covers rest) text
  | _ :: _, [] => false
  | (c, quoted) :: rest, d :: text =>
      (c = d || (c = '?' && !quoted)) && covers rest text

end Shell

end ScriptCpp
