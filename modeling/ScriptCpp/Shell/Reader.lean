import ScriptCpp.Shell.Script

set_option autoImplicit false

namespace ScriptCpp

namespace Shell

inductive Lexeme where
  | word (word : Word)
  | mark (text : String)
  | redirect (stream : Nat) (kind : String)
deriving DecidableEq, Repr

def isBlank (c : Char) : Bool := c = ' ' || c = '\t'

def endsWord (c : Char) : Bool :=
  isBlank c || c = '\n' || c = ';' || c = '&' || c = '|' || c = '<' || c = '>' || c = '(' || c = ')'

def isNameStart (c : Char) : Bool := c.isAlpha || c = '_'

def isNamePart (c : Char) : Bool := c.isAlphanum || c = '_'

def specialValues : List Char := ['@', '*', '#', '?', '$', '!', '-']

def valueName? : List Char → Option (String × List Char)
  | '\x7b' :: rest =>
      match rest.dropWhile (· != '\x7d') with
      | [] => none
      | _ :: after => some (String.ofList (rest.takeWhile (· != '\x7d')), after)
  | c :: rest =>
      if isNameStart c then
        some (String.ofList (c :: rest.takeWhile isNamePart), rest.dropWhile isNamePart)
      else if c.isDigit || specialValues.contains c then some (c.toString, rest)
      else none
  | [] => none

-- What a backslash takes the meaning from within double quotes.
def escapable : List Char := ['$', '`', '"', '\\']

def quotedText (chars : List Char) : Word := chars.map fun c => .text c true

def wordFrom (inside : Bool) : Nat → List Char → Option (Word × List Char)
  | 0, _ => none
  | _ + 1, [] => if inside then none else some ([], [])
  | fuel + 1, c :: rest =>
      let more (inside : Bool) (parts : Word) (rest : List Char) : Option (Word × List Char) := do
        let (word, rest) ← wordFrom inside fuel rest
        return (parts ++ word, rest)
      if c = '"' then
        if !inside && rest.head? = some '"' then more false [.mark] rest.tail
        else more (!inside) [] rest
      else if c = '`' then none
      else if c = '$' then
        match valueName? rest with
        | some (name, rest) => more inside [.value name inside] rest
        | none => if rest.head? = some '(' then none else more inside [.text c inside] rest
      else if c = '\\' then
        match rest with
        | '\n' :: rest => more inside [] rest
        | d :: rest =>
            if !inside || escapable.contains d then more inside [.text d true] rest
            else more inside [.text c true] (d :: rest)
        | [] => more inside [.text c true] []
      else if inside then more inside [.text c true] rest
      else if c = '\'' then
        match rest.dropWhile (· != '\'') with
        | [] => none
        | _ :: after =>
            more inside (.mark :: quotedText (rest.takeWhile (· != '\''))) after
      else if endsWord c then some ([], c :: rest)
      else more inside [.text c false] rest

def redirection? (stream? : Option Nat) : List Char → Option (Lexeme × List Char)
  | '>' :: '>' :: rest => some (.redirect (stream?.getD 1) ">>", rest)
  | '>' :: '&' :: rest => some (.redirect (stream?.getD 1) ">&", rest)
  | '>' :: rest => some (.redirect (stream?.getD 1) ">", rest)
  | _ => none

def mark? : List Char → Option (Lexeme × List Char)
  | ';' :: ';' :: rest => some (.mark ";;", rest)
  | ';' :: rest => some (.mark ";", rest)
  | '&' :: '&' :: rest => some (.mark "&&", rest)
  | '|' :: '|' :: rest => some (.mark "||", rest)
  | '\n' :: rest => some (.mark "\n", rest)
  | ')' :: rest => some (.mark ")", rest)
  | '(' :: rest => some (.mark "(", rest)
  | '|' :: rest => some (.mark "|", rest)
  | '&' :: rest => some (.mark "&", rest)
  | _ => none

def streamMark? (chars : List Char) : Option (Lexeme × List Char) :=
  let digits := chars.takeWhile Char.isDigit
  if digits.isEmpty then redirection? none chars
  else redirection? (String.ofList digits).toNat? (chars.drop digits.length)

def lexemes : Nat → List Char → Option (List Lexeme)
  | 0, _ => none
  | _ + 1, [] => some []
  | fuel + 1, c :: rest =>
      if isBlank c then lexemes fuel rest
      else if c = '#' then lexemes fuel (rest.dropWhile (· != '\n'))
      else if c = '\\' && rest.head? = some '\n' then lexemes fuel rest.tail
      else
        match streamMark? (c :: rest) with
        | some (lexeme, rest) => do return lexeme :: (← lexemes fuel rest)
        | none =>
            match mark? (c :: rest) with
            | some (lexeme, rest) => do return lexeme :: (← lexemes fuel rest)
            | none =>
                if endsWord c then none
                else do
                  let (word, rest) ← wordFrom false (rest.length + 2) (c :: rest)
                  return .word word :: (← lexemes fuel rest)

def bare? : List Lexeme → Option String
  | .word w :: _ => Word.bare? w
  | _ => none

def skipLines : List Lexeme → List Lexeme
  | .mark "\n" :: rest => skipLines rest
  | ls => ls

def expect (word : String) (ls : List Lexeme) : Option (List Lexeme) :=
  if bare? ls = some word then some ls.tail else none

def closers : List String := ["then", "elif", "else", "fi", "esac", "do", "done", "\x7d"]

def reserved : List String := closers ++ ["while", "until"]

def isClosed (ls : List Lexeme) : Bool :=
  match ls with
  | [] => true
  | .mark ";;" :: _ => true
  | .mark ")" :: _ => true
  | _ => (bare? ls).any closers.contains

def redirectionOf? : String → Nat → Word → Option Redirection
  | ">", stream, target => some (.write stream target)
  | ">>", stream, target => some (.append stream target)
  | ">&", stream, target => some (.copy stream target)
  | _, _, _ => none

def simple (words : List Word) (redirections : List Redirection) :
    List Lexeme → Option (Script × List Lexeme)
  | .word w :: rest => simple (w :: words) redirections rest
  | .redirect stream kind :: .word w :: rest => do
      simple words ((← redirectionOf? kind stream w) :: redirections) rest
  | .redirect _ _ :: _ => none
  | rest =>
      if words.isEmpty && redirections.isEmpty then none
      else some (.simple words.reverse redirections.reverse, rest)

def wordsOf : List Lexeme → List Word × List Lexeme
  | .word w :: rest =>
      let (words, rest) := wordsOf rest
      (w :: words, rest)
  | rest => ([], rest)

def patterns : List Lexeme → Option (List Word × List Lexeme)
  | .word w :: .mark "|" :: rest => do
      let (more, rest) ← patterns rest
      return (w :: more, rest)
  | .word w :: .mark ")" :: rest => some ([w], rest)
  | _ => none

mutual

def list : Nat → List Lexeme → Option (Script × List Lexeme)
  | 0, _ => none
  | fuel + 1, ls => do
      let ls := skipLines ls
      if isClosed ls then return (.nothing, ls)
      let (first, ls) ← chain fuel ls
      match ls with
      | .mark ";" :: rest | .mark "\n" :: rest =>
          let (second, rest) ← list fuel rest
          return (.sequence first second, rest)
      | rest => if isClosed rest then return (first, rest) else none

def chain : Nat → List Lexeme → Option (Script × List Lexeme)
  | 0, _ => none
  | fuel + 1, ls => do
      let (first, ls) ← command fuel ls
      links fuel first ls

def links : Nat → Script → List Lexeme → Option (Script × List Lexeme)
  | 0, _, _ => none
  | fuel + 1, first, ls =>
      match ls with
      | .mark "&&" :: rest => do
          let (second, rest) ← command fuel (skipLines rest)
          links fuel (.both first second) rest
      | .mark "||" :: rest => do
          let (second, rest) ← command fuel (skipLines rest)
          links fuel (.either first second) rest
      | rest => some (first, rest)

def command : Nat → List Lexeme → Option (Script × List Lexeme)
  | 0, _ => none
  | fuel + 1, ls =>
      match bare? ls with
      | some "!" => do
          let (script, ls) ← command fuel ls.tail
          return (.negate script, ls)
      | some "if" => branches fuel ls.tail
      | some "case" =>
          match ls.tail with
          | .word subject :: ls => do
              let ls ← expect "in" (skipLines ls)
              let (arms, ls) ← arms fuel (skipLines ls)
              return (.choose subject arms, ls)
          | _ => none
      | some "for" => do
          let name ← bare? ls.tail
          let ls ← expect "in" (skipLines ls.tail.tail)
          let (words, ls) := wordsOf ls
          let ls ← expect "do" (skipLines (if ls.head? = some (.mark ";") then ls.tail else ls))
          let (body, ls) ← list fuel ls
          return (.each name words body, ← expect "done" ls)
      | some "\x7b" => do
          let (body, ls) ← list fuel ls.tail
          return (body, ← expect "\x7d" ls)
      | some word => if reserved.contains word then none else simple [] [] ls
      | none => simple [] [] ls

def branches : Nat → List Lexeme → Option (Script × List Lexeme)
  | 0, _ => none
  | fuel + 1, ls => do
      let (condition, ls) ← list fuel ls
      let (yes, ls) ← list fuel (← expect "then" ls)
      match bare? ls with
      | some "fi" => return (.branch condition yes .nothing, ls.tail)
      | some "else" =>
          let (no, ls) ← list fuel ls.tail
          return (.branch condition yes no, ← expect "fi" ls)
      | some "elif" =>
          let (no, ls) ← branches fuel ls.tail
          return (.branch condition yes no, ls)
      | _ => none

def arms : Nat → List Lexeme → Option (Arms × List Lexeme)
  | 0, _ => none
  | fuel + 1, ls => do
      if bare? ls = some "esac" then return (.none, ls.tail)
      let (patterns, ls) ← patterns (if ls.head? = some (.mark "(") then ls.tail else ls)
      let (body, ls) ← list fuel ls
      let ls := if ls.head? = some (.mark ";;") then ls.tail else ls
      let (rest, ls) ← arms fuel (skipLines ls)
      return (.arm patterns body rest, ls)

end

end Shell

def Shell.Script.ofText? (text : String) : Option Shell.Script := do
  let chars := text.toList
  let lexemes ← Shell.lexemes (chars.length + 1) chars
  match ← Shell.list (4 * lexemes.length + 4) lexemes with
  | (script, []) => some script
  | _ => none

end ScriptCpp
