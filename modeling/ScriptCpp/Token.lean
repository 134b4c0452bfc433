set_option autoImplicit false

namespace ScriptCpp

/-- A place in a text, counted from one; a column is one scalar value wide. -/
structure Position where
  line : Nat
  column : Nat
deriving DecidableEq, Repr

namespace Position

def start : Position := ⟨1, 1⟩

def step (p : Position) (c : Char) : Position :=
  if c = '\n' then ⟨p.line + 1, 1⟩ else ⟨p.line, p.column + 1⟩

def after (p : Position) (cs : List Char) : Position :=
  cs.foldl step p

@[simp] theorem after_nil (p : Position) : p.after [] = p := rfl

theorem after_append (p : Position) (cs ds : List Char) :
    p.after (cs ++ ds) = (p.after cs).after ds := by
  simp [after]

end Position

inductive Keyword where
  | let_ | if_ | else_ | while_ | for_ | func_ | return_ | class_ | new_ | this_
  | switch_ | case_ | default_ | break_ | continue_ | import_ | try_ | catch_ | finally_
  | async_ | await_
deriving DecidableEq, Repr

namespace Keyword

-- `func` and `fn` are two spellings of one keyword.
def spellings : List (String × Keyword) :=
  [("let", .let_), ("if", .if_), ("else", .else_), ("while", .while_), ("for", .for_),
    ("func", .func_), ("fn", .func_), ("return", .return_), ("class", .class_), ("new", .new_),
    ("this", .this_), ("switch", .switch_), ("case", .case_), ("default", .default_),
    ("break", .break_), ("continue", .continue_), ("import", .import_), ("try", .try_),
    ("catch", .catch_), ("finally", .finally_), ("async", .async_), ("await", .await_)]

def ofText? (text : String) : Option Keyword :=
  spellings.lookup text

end Keyword

inductive Symbol where
  | arrow | equal | notEqual | lessEqual | greaterEqual | and | or
  | assign | less | greater | plus | minus | times | divide | modulo | question
  | openParen | closeParen | openBrace | closeBrace | openBracket | closeBracket
  | semicolon | comma | dot | colon
deriving DecidableEq, Repr

namespace Symbol

def spelling : Symbol → List Char
  | .arrow => ['=', '>']
  | .equal => ['=', '=']
  | .notEqual => ['!', '=']
  | .lessEqual => ['<', '=']
  | .greaterEqual => ['>', '=']
  | .and => ['&', '&']
  | .or => ['|', '|']
  | .assign => ['=']
  | .less => ['<']
  | .greater => ['>']
  | .plus => ['+']
  | .minus => ['-']
  | .times => ['*']
  | .divide => ['/']
  | .modulo => ['%']
  | .question => ['?']
  | .openParen => ['(']
  | .closeParen => [')']
  | .openBrace => ['\x7b']
  | .closeBrace => ['\x7d']
  | .openBracket => ['[']
  | .closeBracket => [']']
  | .semicolon => [';']
  | .comma => [',']
  | .dot => ['.']
  | .colon => [':']

-- Two characters before one, so that the first hit is the longest.
def all : List Symbol :=
  [.arrow, .equal, .notEqual, .lessEqual, .greaterEqual, .and, .or,
    .assign, .less, .greater, .plus, .minus, .times, .divide, .modulo, .question,
    .openParen, .closeParen, .openBrace, .closeBrace, .openBracket, .closeBracket,
    .semicolon, .comma, .dot, .colon]

theorem mem_all (s : Symbol) : s ∈ all := by
  cases s <;> decide

theorem spelling_ne_nil (s : Symbol) : s.spelling ≠ [] := by
  cases s <;> decide

def ofPrefix? (cs : List Char) : Option Symbol :=
  all.find? fun s => s.spelling.isPrefixOf cs

end Symbol

inductive Token.Kind where
  | eof
  | identifier
  | number
  | string
  | keyword (word : Keyword)
  | symbol (sign : Symbol)
deriving DecidableEq, Repr

/-- A string token's text is what stands between the quotes, escapes kept. -/
structure Token where
  kind : Token.Kind
  text : String
  position : Position
deriving DecidableEq, Repr

namespace Token

def eof (p : Position) : Token := ⟨.eof, "EOF", p⟩

def Kind.ofWord (text : String) : Kind :=
  match Keyword.ofText? text with
  | some word => .keyword word
  | none => .identifier

end Token

end ScriptCpp
