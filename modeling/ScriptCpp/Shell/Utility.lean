import ScriptCpp.Files.Tree
import ScriptCpp.Text.Bytes

set_option autoImplicit false

namespace ScriptCpp

namespace Shell

def pathOf (word : String) : Path := ⟨Bytes.text (Bytes.gather word)⟩

structure Ran where
  output : ByteArray
  code : Nat
  tree : Tree

namespace Utility

def letterEscape? : Char → Option Char
  | '\\' => some '\\'
  | 'a' => some '\x07'
  | 'b' => some '\x08'
  | 'e' => some '\x1b'
  | 'f' => some '\x0c'
  | 'n' => some '\n'
  | 'r' => some '\r'
  | 't' => some '\t'
  | 'v' => some '\x0b'
  | _ => none

def isOctal (c : Char) : Bool := '0' ≤ c && c ≤ '7'

def octalByte (digits : List Char) : Char :=
  Char.ofNat (digits.foldl (fun n d => 8 * n + (d.toNat - '0'.toNat)) 0 % 256)

def escape (after : List Char) : Char × Nat :=
  match after.head?.bind letterEscape? with
  | some c => (c, 1)
  | none =>
      let digits := (after.take 3).takeWhile isOctal
      if digits.isEmpty then ('\\', 0) else (octalByte digits, digits.length)

def unescape : Nat → List Char → List Char
  | _, [] => []
  | skip + 1, _ :: rest => unescape skip rest
  | 0, '\\' :: rest =>
      let (c, taken) := escape rest
      c :: unescape taken rest
  | 0, c :: rest => c :: unescape 0 rest

def echo (escapes : Bool) (args : List String) : String :=
  let (args, tail) := if args.head? = some "-n" then (args.tail, "") else (args, "\n")
  let line := " ".intercalate args
  (if escapes then String.ofList (unescape 0 line.toList) else line) ++ tail

def formatOnce : Nat → List Char → List String → List Char × List String
  | _, [], args => ([], args)
  | skip + 1, _ :: rest, args => formatOnce skip rest args
  | 0, '%' :: 's' :: rest, args =>
      let (text, left) := formatOnce 0 rest args.tail
      ((args.head?.getD "").toList ++ text, left)
  | 0, '%' :: '%' :: rest, args =>
      let (text, left) := formatOnce 0 rest args
      ('%' :: text, left)
  | 0, '\\' :: rest, args =>
      let (c, taken) := escape rest
      let (text, left) := formatOnce taken rest args
      (c :: text, left)
  | 0, c :: rest, args =>
      let (text, left) := formatOnce 0 rest args
      (c :: text, left)

def formatAll (format : List Char) : Nat → List String → List Char
  | 0, _ => []
  | fuel + 1, args =>
      let (text, left) := formatOnce 0 format args
      if left.isEmpty || left.length = args.length then text else text ++ formatAll format fuel left

def printf : List String → String
  | [] => ""
  | format :: args => String.ofList (formatAll format.toList (args.length + 1) args)

def onEach (t : Tree) (change : Tree → Path → Except FileError Tree) (paths : List String) : Ran :=
  paths.foldl (fun ran text =>
    match change ran.tree (pathOf text) with
    | .ok t => { ran with tree := t }
    | .error _ => { ran with code := 1 }) ⟨.empty, 0, t⟩

def runnable? (mode : String) : Option Bool :=
  let chars := mode.toList
  if chars.all Char.isDigit then some (chars.any fun c => c.toNat % 2 = 1)
  else if !chars.contains 'x' then none
  else some (!chars.contains '-')

def chmod (t : Tree) (home : Location) : List String → Ran
  | mode :: paths =>
      onEach t (fun t p =>
        match runnable? mode with
        | some runnable => t.withRunnable home p runnable
        | none => (t.locate home p).map fun _ => t) paths
  | [] => ⟨.empty, 1, t⟩

def cat (t : Tree) (home : Location) (paths : List String) : Ran :=
  paths.foldl (fun ran text =>
    match t.read home (pathOf text) with
    | .ok content => { ran with output := ran.output ++ content }
    | .error _ => { ran with code := 1 }) ⟨.empty, 0, t⟩

-- Into a directory means under the same name there.
def destination (t : Tree) (home : Location) (source target : Path) : Path :=
  if t.holdsDirectory home target then target.join ⟨source.fileName?.getD ""⟩ else target

def copy (t : Tree) (home : Location) (source target : Path) : Except FileError Tree := do
  let target := destination t home source target
  let fresh := (t.locate home target).toOption.isNone
  let copied ← t.write home target (← t.read home source)
  match t.get? (← t.locate home source) with
  | some (.file _ true) => if fresh then copied.withRunnable home target true else return copied
  | _ => return copied

def eraseBelow (t : Tree) (place : Location) : Tree :=
  ⟨t.nodes.filter fun n => !place.isPrefixOf n.1⟩

def options (args : List String) : List String := args.filter fun a => "-".isPrefixOf a

def operands (args : List String) : List String := args.filter fun a => !"-".isPrefixOf a

def hasOption (args : List String) (letter : Char) : Bool :=
  (options args).any fun a => a.toList.contains letter

def knows (letters : String) (args : List String) : Bool :=
  (options args).all fun a => (a.toList.drop 1).all letters.toList.contains

def cp (t : Tree) (home : Location) (args : List String) : Ran :=
  match operands args with
  | [source, target] =>
      match copy t home (pathOf source) (pathOf target) with
      | .ok t => ⟨.empty, 0, t⟩
      | .error _ => ⟨.empty, 1, t⟩
  | _ => ⟨.empty, 1, t⟩

def rm (t : Tree) (home : Location) (args : List String) : Ran :=
  onEach t (fun t p =>
    match t.locate home p with
    | .error e => if hasOption args 'f' then .ok t else .error e
    | .ok place =>
        if t.isFile place then .ok (t.erase place)
        else if hasOption args 'r' then .ok (eraseBelow t place)
        else .error .isDirectory) (operands args)

def mkdir (t : Tree) (home : Location) (args : List String) : Ran :=
  onEach t (fun t p =>
    if hasOption args 'p' then
      match t.makeDirectories home p with
      | (.ok (), t) => .ok t
      | (.error e, _) => .error e
    else t.makeDirectory home p) (operands args)

def touch (t : Tree) (home : Location) (args : List String) : Ran :=
  onEach t (fun t p =>
    match t.locate home p with
    | .ok _ => .ok t
    | .error _ => t.write home p .empty) (operands args)

def entries (t : Tree) (place : Location) : List String :=
  ((t.below place).filterMap fun n =>
    match n.1 with
    | [name] => if ".".isPrefixOf name then none else some name
    | _ => none).mergeSort fun a b => a ≤ b

def ls (t : Tree) (home : Location) (args : List String) : Ran :=
  let paths := match operands args with
    | [] => ["."]
    | given => given
  paths.foldl (fun ran text =>
    match t.locate home (pathOf text) with
    | .error _ => { ran with code := 2 }
    | .ok place =>
        let lines := if t.isDirectory place then entries t place else [(pathOf text).text]
        let shown := String.join (lines.map fun line => line ++ "\n")
        { ran with output := ran.output ++ shown.toUTF8 }) ⟨.empty, 0, t⟩

def holds (t : Tree) (home : Location) : List String → Bool
  | "!" :: rest => !holds t home rest
  | ["-e", p] => (t.locate home (pathOf p)).toOption.isSome
  | ["-f", p] => (t.read home (pathOf p)).toOption.isSome
  | ["-d", p] => t.holdsDirectory home (pathOf p)
  | ["-z", text] => text.isEmpty
  | ["-n", text] => !text.isEmpty
  | [a, "=", b] => a = b
  | [a, "!=", b] => a ≠ b
  | [a, "-eq", b] => a.toNat? = b.toNat?
  | [a, "-ne", b] => a.toNat? ≠ b.toNat?
  | [text] => !text.isEmpty
  | _ => false

def names : List String :=
  ["true", "false", "echo", "printf", "chmod", "cat", "cp", "rm", "mkdir", "touch", "test", "[",
    "pwd", "sleep", "ls"]

def run? (inShell : Bool) (t : Tree) (home : Location) (name : String) (args : List String) :
    Option Ran :=
  let condition (args : List String) : Ran := ⟨.empty, if holds t home args then 0 else 1, t⟩
  let refused : Ran := ⟨.empty, 1, t⟩
  match name with
  | "true" | "sleep" => some ⟨.empty, 0, t⟩
  | "false" => some ⟨.empty, 1, t⟩
  | "echo" => some ⟨Bytes.gather (echo inShell args), 0, t⟩
  | "printf" => some ⟨Bytes.gather (printf args), 0, t⟩
  | "chmod" => some (chmod t home args)
  | "cat" => some (if knows "u" args then cat t home args else refused)
  | "cp" => some (if knows "afpv" args then cp t home args else refused)
  | "ls" => some (if knows "1" args then ls t home args else refused)
  | "rm" => some (if knows "firRv" args then rm t home args else refused)
  | "mkdir" => some (if knows "pv" args then mkdir t home args else refused)
  | "touch" => some (if knows "acm" args then touch t home args else refused)
  | "test" => some (condition args)
  | "[" => some (condition args.dropLast)
  | "pwd" => some ⟨((Location.path home).text ++ "\n").toUTF8, 0, t⟩
  | _ => none

end Utility

end Shell

end ScriptCpp
