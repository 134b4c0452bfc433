import Mathlib
import ScriptCpp.Proofs.Lexing.Lexeme

set_option autoImplicit false

namespace ScriptCpp.Cpp

inductive Lexeme where
  | word (chars : List Char)
  | number (chars : List Char)
  | sign (chars : List Char)
deriving DecidableEq, Repr

def Lexeme.chars : Lexeme → List Char
  | .word chars | .number chars | .sign chars => chars

-- A longer sign stands before its own beginnings. What opens a comment is listed too, so that it is
-- not taken for a division.
def signs : List (List Char) :=
  [['%', ':', '%', ':'],
    ['<', '<', '='], ['>', '>', '='], ['<', '=', '>'], ['-', '>', '*'], ['.', '.', '.'],
    ['/', '/'], ['/', '*'], ['+', '+'], ['-', '-'], ['-', '>'], ['<', '<'], ['>', '>'],
    ['<', '='], ['>', '='], ['=', '='], ['!', '='], ['&', '&'], ['|', '|'],
    ['+', '='], ['-', '='], ['*', '='], ['/', '='], ['%', '='], ['&', '='], ['|', '='], ['^', '='],
    [':', ':'], ['.', '*'], ['#', '#'], ['<', ':'], [':', '>'], ['<', '%'], ['%', '>'], ['%', ':'],
    ['+'], ['-'], ['*'], ['/'], ['%'], ['<'], ['>'], ['='], ['!'], ['&'], ['|'], ['^'], ['~'],
    ['?'], [':'], [';'], [','], ['.'], ['#'],
    ['('], [')'], ['['], [']'], ['\x7b'], ['\x7d']]

theorem signs_ne_nil : ∀ s ∈ signs, s ≠ [] := by decide

def isNumberPart (c : Char) : Bool :=
  Token.isNamePart c || c = '.' || c = '\x27'

def isExponentLetter (c : Char) : Bool :=
  ['e', 'E', 'p', 'P'].contains c

/-- How a number goes on: a sign is part of it only right after an exponent letter. -/
def numberTail : List Char → List Char
  | c :: s :: rest =>
      if isExponentLetter c && (s = '+' || s = '-') then c :: s :: numberTail rest
      else if isNumberPart c then c :: numberTail (s :: rest)
      else []
  | [c] => if isNumberPart c then [c] else []
  | [] => []

def lexeme? (c : Char) (cs : List Char) : Option Lexeme :=
  if Token.isNameStart c then some (.word (c :: cs.takeWhile Token.isNamePart))
  else if c.isDigit || (c = '.' && cs.head?.any Char.isDigit) then
    some (.number (c :: numberTail cs))
  else (signs.find? fun s => s.isPrefixOf (c :: cs)).map .sign

theorem lexeme?_chars_ne_nil {c : Char} {cs : List Char} {l : Lexeme}
    (h : lexeme? c cs = some l) : l.chars ≠ [] := by
  unfold lexeme? at h
  split at h
  · cases h; simp [Lexeme.chars]
  · split at h
    · cases h; simp [Lexeme.chars]
    · obtain ⟨s, found, rfl⟩ := Option.map_eq_some_iff.mp h
      exact signs_ne_nil s (List.mem_of_find?_eq_some found)

def lexemes? (cs : List Char) : Option (List Lexeme) :=
  match cs with
  | [] => some []
  | c :: rest =>
      if Token.isBlank c then lexemes? rest
      else
        match _h : lexeme? c rest with
        | none => none
        | some l => (lexemes? ((c :: rest).drop l.chars.length)).map (l :: ·)
termination_by cs.length
decreasing_by
  · exact Nat.lt_succ_self _
  · have := List.length_pos_iff.mpr (lexeme?_chars_ne_nil _h)
    simp only [List.length_drop, List.length_cons]
    omega

theorem lexemes?_blank {c : Char} (blank : Token.isBlank c = true) (cs : List Char) :
    lexemes? (c :: cs) = lexemes? cs := by
  rw [lexemes?, if_pos blank]

theorem lexemes?_of_lexeme? (c : Char) (cs rest : List Char) {l : Lexeme}
    (solid : Token.isBlank c = false) (chars : l.chars = c :: cs)
    (read : lexeme? c (cs ++ rest) = some l) :
    lexemes? (c :: (cs ++ rest)) = (lexemes? rest).map (l :: ·) := by
  rw [lexemes?]
  simp only [solid, Bool.false_eq_true, if_false]
  split
  · next missing => rw [read] at missing; cases missing
  · next found given =>
      rw [read] at given
      cases given
      rw [chars, ← List.cons_append, List.drop_left]

theorem lexemes?_bracket {b : Char} (bracket : b ∈ ['(', ')', '[', ']']) (rest : List Char) :
    lexemes? (b :: rest) = (lexemes? rest).map (.sign [b] :: ·) := by
  have found : lexeme? b rest = some (.sign [b]) ∧ Token.isBlank b = false := by
    simp only [List.mem_cons, List.not_mem_nil, or_false] at bracket
    rcases bracket with rfl | rfl | rfl | rfl <;> exact ⟨rfl, rfl⟩
  exact lexemes?_of_lexeme? b [] rest found.2 rfl found.1

def Ended (rest : List Char) : Prop :=
  ∀ c ∈ rest.head?, c ∈ [' ', ')', '[', ']']

theorem ended_nil : Ended [] := by
  intro c first
  cases first

theorem ended_cons {c : Char} (h : c ∈ [' ', ')', '[', ']']) (rest : List Char) :
    Ended (c :: rest) := by
  intro d first
  cases first
  exact h

theorem takeWhile_isNamePart_ended (cs : List Char) (all : ∀ c ∈ cs, Token.isNamePart c = true)
    {rest : List Char} (ended : Ended rest) :
    (cs ++ rest).takeWhile Token.isNamePart = cs := by
  rw [List.takeWhile_append_of_pos all]
  cases rest with
  | nil => simp
  | cons c tail =>
      have stops : [' ', ')', '[', ']'].any Token.isNamePart = false := by decide
      simp [List.any_eq_false.mp stops c (ended c rfl)]

theorem isNumberPart_of_digit_or_point {c : Char} (h : c.isDigit = true ∨ c = '.') :
    isNumberPart c = true ∧ isExponentLetter c = false := by
  rcases h with digit | rfl
  · refine ⟨by simp [isNumberPart, Token.isNamePart, Char.isAlphanum, digit], ?_⟩
    by_contra letter
    simp only [isExponentLetter, Bool.not_eq_false, List.contains_iff_mem, List.mem_cons,
      List.not_mem_nil, or_false] at letter
    rcases letter with rfl | rfl | rfl | rfl <;> cases digit
  · exact ⟨rfl, rfl⟩

theorem numberTail_ended (cs : List Char) (all : ∀ c ∈ cs, c.isDigit = true ∨ c = '.')
    {rest : List Char} (ended : Ended rest) : numberTail (cs ++ rest) = cs := by
  induction cs with
  | nil =>
      cases rest with
      | nil => rfl
      | cons c tail =>
          have stop := ended c rfl
          simp only [List.mem_cons, List.not_mem_nil, or_false] at stop
          rcases stop with rfl | rfl | rfl | rfl <;> cases tail <;> rfl
  | cons c cs ih =>
      have tail := ih fun d member => all d (List.mem_cons_of_mem _ member)
      obtain ⟨part, plain⟩ := isNumberPart_of_digit_or_point (all c List.mem_cons_self)
      rw [List.cons_append]
      cases follow : cs ++ rest with
      | nil =>
          rw [follow] at tail
          simp [numberTail, part, ← tail]
      | cons s more => simp [numberTail, part, plain, ← follow, tail]

/-- `cs` is read as `ls` wherever it stands before an ending. -/
def Lexes (cs : List Char) (ls : List Lexeme) : Prop :=
  ∀ rest, Ended rest → lexemes? (cs ++ rest) = (lexemes? rest).map (ls ++ ·)

theorem Lexes.lexemes? {cs : List Char} {ls : List Lexeme} (h : Lexes cs ls) :
    lexemes? cs = some ls := by
  have all := h [] ended_nil
  simpa [Cpp.lexemes?] using all

theorem isBlank_eq_false_of {p : Char → Bool}
    (none : [' ', '\t', '\n', '\r'].any p = false) {c : Char} (h : p c = true) :
    Token.isBlank c = false := by
  by_contra blank
  simp only [Token.isBlank, Bool.not_eq_false, Bool.or_eq_true, decide_eq_true_eq] at blank
  have off := List.any_eq_false.mp none c (by
    rcases blank with ((rfl | rfl) | rfl) | rfl <;> simp)
  exact off h

theorem lexes_word (c : Char) (cs : List Char) (first : Token.isNameStart c = true)
    (others : ∀ d ∈ cs, Token.isNamePart d = true) : Lexes (c :: cs) [.word (c :: cs)] := by
  intro rest ended
  have solid : Token.isBlank c = false := isBlank_eq_false_of (by decide) first
  exact lexemes?_of_lexeme? c cs rest solid rfl (by
    simp [lexeme?, first, takeWhile_isNamePart_ended cs others ended])

theorem lexes_number (c : Char) (cs : List Char) (first : c.isDigit = true)
    (others : ∀ d ∈ cs, d.isDigit = true ∨ d = '.') : Lexes (c :: cs) [.number (c :: cs)] := by
  intro rest ended
  have solid : Token.isBlank c = false := isBlank_eq_false_of (by decide) first
  have plain := Token.isNameStart_eq_false_of_digit first
  exact lexemes?_of_lexeme? c cs rest solid rfl (by
    simp [lexeme?, first, plain, numberTail_ended cs others ended])

def dyadicSigns : List (List Char) :=
  [['|', '|'], ['&', '&'], ['=', '='], ['!', '='], ['<'], ['>'], ['<', '='], ['>', '='],
    ['+'], ['-'], ['*'], ['/'], ['%'], ['=']]

-- A blank ends every sign, so the longest sign here is the whole one.
theorem lexemes?_dyadic {s : List Char} (h : s ∈ dyadicSigns) (rest : List Char) :
    lexemes? (s ++ ' ' :: rest) = (lexemes? rest).map (.sign s :: ·) := by
  have blank : lexemes? (' ' :: rest) = lexemes? rest := lexemes?_blank rfl rest
  rw [← blank]
  simp only [dyadicSigns, List.mem_cons, List.not_mem_nil, or_false] at h
  rcases h with rfl | rfl | rfl | rfl | rfl | rfl | rfl | rfl | rfl | rfl | rfl | rfl | rfl | rfl
    <;> exact lexemes?_of_lexeme? _ _ (' ' :: rest) rfl rfl rfl

def Opens (cs : List Char) : Prop :=
  ∃ c ∈ cs.head?, Token.isNameStart c = true ∨ c.isDigit = true ∨ c = '('

theorem lexemes?_minus {cs : List Char} (opens : Opens cs) :
    lexemes? ('-' :: cs) = (lexemes? cs).map (.sign ['-'] :: ·) := by
  obtain ⟨c, first, kind⟩ := opens
  cases cs with
  | nil => cases first
  | cons d rest =>
      cases first
      have other : c ≠ '-' ∧ c ≠ '=' ∧ c ≠ '>' := by
        refine ⟨?_, ?_, ?_⟩ <;> rintro rfl <;> revert kind <;> decide
      refine lexemes?_of_lexeme? '-' [] (c :: rest) rfl rfl ?_
      obtain ⟨minus, equal, greater⟩ := other
      have start : Token.isNameStart '-' = false := by decide
      simp [lexeme?, start, signs, minus.symm, equal.symm, greater.symm]

theorem Lexes.parenthesized {cs : List Char} {ls : List Lexeme} (h : Lexes cs ls) :
    Lexes ('(' :: cs ++ [')']) (.sign ['('] :: ls ++ [.sign [')']]) := by
  intro rest _
  have inner := h (')' :: rest) (ended_cons (by decide) rest)
  simp only [List.cons_append, List.append_assoc, List.nil_append]
  rw [lexemes?_bracket (by decide), inner, lexemes?_bracket (by decide)]
  simp [Function.comp_def]

theorem Lexes.indexed {cs ds : List Char} {ls ms : List Lexeme} (object : Lexes cs ls)
    (key : Lexes ds ms) :
    Lexes (cs ++ '[' :: ds ++ [']']) (ls ++ .sign ['['] :: ms ++ [.sign [']']]) := by
  intro rest _
  have left := object ('[' :: (ds ++ ']' :: rest)) (ended_cons (by decide) _)
  have right := key (']' :: rest) (ended_cons (by decide) rest)
  simp only [List.cons_append, List.append_assoc, List.nil_append]
  rw [left, lexemes?_bracket (by decide), right, lexemes?_bracket (by decide)]
  simp [Function.comp_def]

theorem Lexes.spaced {cs ds s : List Char} {ls ms : List Lexeme} (left : Lexes cs ls)
    (sign : ∀ rest, Cpp.lexemes? (s ++ ' ' :: rest) = (Cpp.lexemes? rest).map (.sign s :: ·))
    (right : Lexes ds ms) : Lexes (cs ++ ' ' :: s ++ ' ' :: ds) (ls ++ .sign s :: ms) := by
  intro rest ended
  have before := left (' ' :: (s ++ ' ' :: (ds ++ rest))) (ended_cons (by decide) _)
  simp only [List.cons_append, List.append_assoc]
  rw [before, lexemes?_blank rfl, sign, right rest ended]
  simp [Function.comp_def]

theorem Lexes.negated {cs : List Char} {ls : List Lexeme} (h : Lexes cs ls) (opens : Opens cs) :
    Lexes ('-' :: cs) (.sign ['-'] :: ls) := by
  intro rest ended
  have still : Opens (cs ++ rest) := by
    obtain ⟨c, first, kind⟩ := opens
    exact ⟨c, by cases cs <;> simp_all, kind⟩
  rw [List.cons_append, lexemes?_minus still, h rest ended]
  simp [Function.comp_def]

structure Operand (text : String) (ls : List Lexeme) : Prop where
  opens : Opens text.toList
  lexes : Lexes text.toList ls

namespace Operand

variable {text left right : String} {ls ms : List Lexeme}

theorem parenthesized (h : Operand text ls) :
    Operand ("(" ++ text ++ ")") (.sign ['('] :: (ls ++ [.sign [')']])) := by
  refine ⟨⟨'(', by simp, .inr (.inr rfl)⟩, ?_⟩
  simpa using h.lexes.parenthesized

theorem negated (h : Operand text ls) :
    Operand ("(-" ++ text ++ ")") (.sign ['('] :: (.sign ['-'] :: ls ++ [.sign [')']])) := by
  refine ⟨⟨'(', by simp, .inr (.inr rfl)⟩, ?_⟩
  simpa using (h.lexes.negated h.opens).parenthesized

theorem spaced (l : Operand left ls) (sign : String)
    (alone : ∀ rest,
      lexemes? (sign.toList ++ ' ' :: rest) = (lexemes? rest).map (.sign sign.toList :: ·))
    (r : Operand right ms) : Operand (left ++ " " ++ sign ++ " " ++ right) (ls ++ .sign sign.toList :: ms) := by
  obtain ⟨c, first, kind⟩ := l.opens
  refine ⟨⟨c, ?_, kind⟩, ?_⟩
  · simp [Option.mem_def.mp first]
  · simpa using l.lexes.spaced alone r.lexes

end Operand

end ScriptCpp.Cpp
