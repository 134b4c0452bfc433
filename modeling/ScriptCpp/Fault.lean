import ScriptCpp.Emission.Piece
import ScriptCpp.Parser.Complaint
import ScriptCpp.Path
import ScriptCpp.Token.Lexer

set_option autoImplicit false

namespace ScriptCpp

inductive FileError where
  | noEntry
  | execFormat
  | permission
  | exists
  | notDirectory
  | isDirectory
  | nameTooLong
  | loop
  | unsupported
  | nulInName
  | nulInArgument
  | notUtf8
  | notFile (path : Path)
  | absent (path : Path)
deriving DecidableEq, Repr

def FileError.message : FileError → String
  | .noEntry => "No such file or directory (os error 2)"
  | .execFormat => "Exec format error (os error 8)"
  | .permission => "Permission denied (os error 13)"
  | .exists => "File exists (os error 17)"
  | .notDirectory => "Not a directory (os error 20)"
  | .isDirectory => "Is a directory (os error 21)"
  | .nameTooLong => "File name too long (os error 36)"
  | .loop => "Too many levels of symbolic links (os error 40)"
  | .unsupported => "Operation not supported (os error 95)"
  | .nulInName => "file name contained an unexpected NUL byte"
  | .nulInArgument => "nul byte found in provided data"
  | .notUtf8 => "stream did not contain valid UTF-8"
  | .notFile path => path.text ++ " is not a file"
  | .absent path => path.text ++ " not found"

def FileError.ofCode : Nat → FileError
  | 2 => .noEntry
  | 8 => .execFormat
  | 13 => .permission
  | 17 => .exists
  | 20 => .notDirectory
  | 21 => .isDirectory
  | 36 => .nameTooLong
  | 40 => .loop
  | _ => .unsupported

inductive ImportCause where
  | notFound (spec : String)
  | unreadable (error : FileError)
  | unlisted
deriving DecidableEq, Repr

def ImportCause.message : ImportCause → String
  | .notFound spec => "Cannot find module '" ++ spec ++ "'"
  | .unreadable error => "failed to read module: " ++ error.message
  | .unlisted => "failed to read module: not found"

inductive Fault where
  | source (error : FileError)
  | lexical (error : LexicalError)
  | grammar (error : ParseError)
  | imported (cause : ImportCause) (path : Path)
  | emission (error : EmitError)
deriving DecidableEq, Repr

namespace Fault

def position? : Fault → Option Position
  | .lexical error => some error.position
  | .grammar error => some error.position
  | _ => none

def placed (what : String) (p : Position) (text : String) : String :=
  what ++ " error at " ++ toString p.line ++ ":" ++ toString p.column ++ ": " ++ text

def message : Fault → String
  | .source error => "failed to read source: " ++ error.message
  | .lexical error => placed "lexical" error.position error.cause.message
  | .grammar error =>
      placed "syntax" error.position
        (error.complaint.message ++ " (found `" ++ error.found ++ "`)")
  | .imported cause path => "import error: " ++ cause.message ++ " (" ++ path.text ++ ")"
  | .emission error => "emit error: " ++ error.message

end Fault

end ScriptCpp
