import ScriptCpp.Token

set_option autoImplicit false

namespace ScriptCpp

inductive LexicalCause where
  | unexpected (c : Char)
  | unterminatedString
deriving DecidableEq, Repr

structure LexicalError where
  cause : LexicalCause
  position : Position
deriving DecidableEq, Repr

def LexicalCause.message : LexicalCause → String
  | .unexpected c => s!"Unexpected character '{c}'"
  | .unterminatedString => "Unterminated string literal"

namespace Token

def isBlank (c : Char) : Bool :=
  c = ' ' || c = '\t' || c = '\n' || c = '\r'

def isNameStart (c : Char) : Bool := c.isAlpha || c = '_'

def isNamePart (c : Char) : Bool := c.isAlphanum || c = '_'

def stringBody : List Char → Option (List Char × List Char)
  | [] => none
  | '"' :: rest => some ([], rest)
  | '\\' :: c :: rest =>
      if c = '\n' then none
      else (stringBody rest).map fun (body, after) => ('\\' :: c :: body, after)
  | c :: rest =>
      if c = '\n' then none
      else (stringBody rest).map fun (body, after) => (c :: body, after)

/-- Digits with at most one point, which may stand last. -/
def numeral (cs : List Char) : List Char :=
  match cs.dropWhile Char.isDigit with
  | '.' :: rest => cs.takeWhile Char.isDigit ++ '.' :: rest.takeWhile Char.isDigit
  | _ => cs.takeWhile Char.isDigit

inductive Piece where
  | gap (chars : List Char)
  | lexeme (kind : Kind) (text chars : List Char)

def Piece.chars : Piece → List Char
  | .gap chars => chars
  | .lexeme _ _ chars => chars

def piece (c : Char) (cs : List Char) : Except LexicalCause Piece :=
  if isBlank c then .ok (.gap (c :: cs.takeWhile isBlank))
  else if c = '/' && cs.head? = some '/' then .ok (.gap (c :: cs.takeWhile (· != '\n')))
  else if c = '"' then
    match stringBody cs with
    | some (body, _) => .ok (.lexeme .string body (c :: body ++ ['"']))
    | none => .error .unterminatedString
  else if c.isDigit then
    .ok (.lexeme .number (numeral (c :: cs)) (numeral (c :: cs)))
  else if isNameStart c then
    let word := c :: cs.takeWhile isNamePart
    .ok (.lexeme (.ofWord (String.ofList word)) word word)
  else
    match Symbol.ofPrefix? (c :: cs) with
    | some sign => .ok (.lexeme (.symbol sign) sign.spelling sign.spelling)
    | none => .error (.unexpected c)

theorem numeral_ne_nil {c : Char} {cs : List Char} (h : c.isDigit) : numeral (c :: cs) ≠ [] := by
  unfold numeral
  split <;> simp [h]

theorem piece_chars_ne_nil {c : Char} {cs : List Char} {p : Piece} (h : piece c cs = .ok p) :
    p.chars ≠ [] := by
  unfold piece at h
  repeat' split at h
  all_goals cases h
  all_goals simp [Piece.chars, numeral_ne_nil, Symbol.spelling_ne_nil, *]

def scan (p : Position) (cs : List Char) : Except LexicalError (List Token) :=
  match cs with
  | [] => .ok [eof p]
  | c :: rest =>
      match _h : piece c rest with
      | .error cause => .error ⟨cause, p⟩
      | .ok (.gap chars) => scan (p.after chars) ((c :: rest).drop chars.length)
      | .ok (.lexeme kind text chars) => do
          let tokens ← scan (p.after chars) ((c :: rest).drop chars.length)
          return ⟨kind, String.ofList text, p⟩ :: tokens
termination_by cs.length
decreasing_by
  all_goals
    have := List.length_pos_iff.mpr (piece_chars_ne_nil _h)
    simp only [Piece.chars] at this
    simp only [List.length_drop, List.length_cons]
    omega

def ofText (text : String) : Except LexicalError (List Token) :=
  scan .start text.toList

end Token

end ScriptCpp
