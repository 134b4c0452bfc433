set_option autoImplicit false

namespace ScriptCpp

namespace Shell

/-- A part of a word. Quoted text has no special meaning, and a quoted value is not split. A mark
stands for an empty quotation. -/
inductive Part where
  | text (char : Char) (quoted : Bool)
  | value (name : String) (quoted : Bool)
  | mark
deriving DecidableEq, Repr

abbrev Word := List Part

inductive Redirection where
  | write (stream : Nat) (target : Word)
  | append (stream : Nat) (target : Word)
  | copy (stream : Nat) (target : Word)
deriving DecidableEq, Repr

mutual

inductive Script where
  | nothing
  | simple (words : List Word) (redirections : List Redirection)
  | sequence (first second : Script)
  | both (first second : Script)
  | either (first second : Script)
  | negate (script : Script)
  | branch (condition yes no : Script)
  | choose (subject : Word) (arms : Arms)
  | each (name : String) (words : List Word) (body : Script)

inductive Arms where
  | none
  | arm (patterns : List Word) (body : Script) (rest : Arms)

end

def Word.bare? : Word → Option String
  | [] => some ""
  | .text c false :: rest => (bare? rest).map fun s => c.toString ++ s
  | _ => none

end Shell

end ScriptCpp
