import Mathlib
import ScriptCpp.Ast
import ScriptCpp.Proofs.Cpp.Lexeme

set_option autoImplicit false

namespace ScriptCpp.Cpp

/-- Parentheses leave no trace in a tree. -/
inductive Tree where
  | leaf (spelling : List Char)
  | minus (operand : Tree)
  | binary (op : BinaryOp) (left right : Tree)
  | index (object key : Tree)
  | assign (target value : Tree)
deriving DecidableEq, Repr

-- Levels of the grammar, loosest first. The binary operators have the levels one to six.
abbrev assignmentLevel : Nat := 0
abbrev unaryLevel : Nat := 7
abbrev accessLevel : Nat := 8
abbrev primaryLevel : Nat := 9

def operators : List (List Char × Nat × BinaryOp) :=
  [(['|', '|'], 1, .or),
    (['&', '&'], 2, .and),
    (['=', '='], 3, .eq), (['!', '='], 3, .ne),
    (['<'], 4, .lt), (['>'], 4, .gt), (['<', '='], 4, .le), (['>', '='], 4, .ge),
    (['+'], 5, .add), (['-'], 5, .sub),
    (['*'], 6, .mul), (['/'], 6, .div), (['%'], 6, .mod)]

def operator? (sign : List Char) : Option (Nat × BinaryOp) :=
  operators.lookup sign

inductive Derives : Nat → List Lexeme → Tree → Prop
  | word (chars : List Char) : Derives primaryLevel [.word chars] (.leaf chars)
  | number (chars : List Char) : Derives primaryLevel [.number chars] (.leaf chars)
  | parentheses {ts : List Lexeme} {t : Tree} (inner : Derives assignmentLevel ts t) :
      Derives primaryLevel (.sign ['('] :: (ts ++ [.sign [')']])) t
  | index {ts us : List Lexeme} {t u : Tree} (object : Derives accessLevel ts t)
      (key : Derives assignmentLevel us u) :
      Derives accessLevel (ts ++ .sign ['['] :: (us ++ [.sign [']']])) (.index t u)
  | minus {ts : List Lexeme} {t : Tree} (operand : Derives unaryLevel ts t) :
      Derives unaryLevel (.sign ['-'] :: ts) (.minus t)
  -- The left operand is on the operator's own level, so operators of one level group from the left.
  | binary {sign : List Char} {level : Nat} {op : BinaryOp} {ts us : List Lexeme} {t u : Tree}
      (known : operator? sign = some (level, op)) (left : Derives level ts t)
      (right : Derives (level + 1) us u) :
      Derives level (ts ++ .sign sign :: us) (.binary op t u)
  | assign {ts us : List Lexeme} {t u : Tree} (target : Derives (assignmentLevel + 1) ts t)
      (value : Derives assignmentLevel us u) :
      Derives assignmentLevel (ts ++ .sign ['='] :: us) (.assign t u)
  | tighter {level : Nat} {ts : List Lexeme} {t : Tree} (inside : level < primaryLevel)
      (h : Derives (level + 1) ts t) : Derives level ts t

theorem Derives.loosen {level loose : Nat} {ts : List Lexeme} {t : Tree}
    (h : Derives level ts t) (le : loose ≤ level) (inside : level ≤ primaryLevel) :
    Derives loose ts t := by
  induction level with
  | zero => rwa [Nat.le_zero.mp le]
  | succ level ih =>
      by_cases same : loose = level + 1
      · rwa [same]
      · exact ih (.tighter inside h) (by omega) (by omega)

def past (sign : List Char) : List Lexeme → Option (List Lexeme)
  | .sign s :: rest => if s = sign then some rest else none
  | _ => none

mutual

-- Every tree takes a lexeme, so the tests of lengths never fail.
def read (level : Nat) (ts : List Lexeme) : Option (Tree × List Lexeme) :=
  match ts with
  | [] => none
  | first :: rest =>
      if primaryLevel ≤ level then
        match first with
        | .word chars | .number chars => some (.leaf chars, rest)
        | .sign sign =>
            if sign = ['('] then
              (read assignmentLevel rest).bind fun (t, left) =>
                (past [')'] left).map fun after => (t, after)
            else none
      else if level = unaryLevel ∧ first = .sign ['-'] then
        (read level rest).map fun (t, left) => (.minus t, left)
      else
        (read (level + 1) (first :: rest)).bind fun (t, left) =>
          if left.length ≤ rest.length then more level t left else none
termination_by (ts.length, primaryLevel - level)
decreasing_by
  · exact Prod.Lex.left _ _ (Nat.lt_succ_self _)
  · exact Prod.Lex.left _ _ (Nat.lt_succ_self _)
  · exact Prod.Lex.right _ (by omega)
  · exact Prod.Lex.left _ _ (Nat.lt_succ_of_le (by assumption))

def more (level : Nat) (t : Tree) (ts : List Lexeme) : Option (Tree × List Lexeme) :=
  match ts with
  | .sign sign :: rest =>
      if sign = ['='] ∧ level = assignmentLevel then
        (read assignmentLevel rest).map fun (u, left) => (.assign t u, left)
      else if sign = ['['] ∧ level = accessLevel then
        (read assignmentLevel rest).bind fun (u, left) =>
          (past [']'] left).bind fun after =>
            if after.length ≤ rest.length then more level (.index t u) after else none
      else
        match operator? sign with
        | some (own, op) =>
            if own = level then
              (read (level + 1) rest).bind fun (u, left) =>
                if left.length ≤ rest.length then more level (.binary op t u) left else none
            else some (t, ts)
        | none => some (t, ts)
  | ts => some (t, ts)
termination_by (ts.length, 0)
decreasing_by
  · exact Prod.Lex.left _ _ (Nat.lt_succ_self _)
  · exact Prod.Lex.left _ _ (Nat.lt_succ_self _)
  · exact Prod.Lex.left _ _ (Nat.lt_succ_of_le (by assumption))
  · exact Prod.Lex.left _ _ (Nat.lt_succ_self _)
  · exact Prod.Lex.left _ _ (Nat.lt_succ_of_le (by assumption))

end

def continues? (sign : List Char) : Option Nat :=
  if sign = ['='] then some assignmentLevel
  else if sign = ['['] then some accessLevel
  else (operator? sign).map Prod.fst

def Ends (level : Nat) : List Lexeme → Prop
  | .sign sign :: _ => ∀ own, continues? sign = some own → own < level
  | _ => True

theorem Ends.mono {level loose : Nat} {ts : List Lexeme} (h : Ends loose ts)
    (le : loose ≤ level) : Ends level ts := by
  match ts with
  | [] | .word _ :: _ | .number _ :: _ => trivial
  | .sign sign :: _ => exact fun own known => Nat.lt_of_lt_of_le (h own known) le

theorem operator?_level {sign : List Char} {level : Nat} {op : BinaryOp}
    (h : operator? sign = some (level, op)) : 1 ≤ level ∧ level ≤ 6 := by
  have each : ∀ entry ∈ operators, 1 ≤ entry.2.1 ∧ entry.2.1 ≤ 6 := by decide
  obtain ⟨before, after, split, -⟩ := List.lookup_eq_some_iff.mp h
  exact each (sign, level, op) (by simp [split])

theorem continues?_operator {sign : List Char} {level : Nat} {op : BinaryOp}
    (h : operator? sign = some (level, op)) : continues? sign = some level := by
  have other : sign ≠ ['='] ∧ sign ≠ ['['] := by
    refine ⟨?_, ?_⟩ <;> rintro rfl <;> cases h
  simp [continues?, other, h]

theorem more_of_continues?_ne {level : Nat} {ts : List Lexeme}
    (h : ∀ sign rest, ts = .sign sign :: rest → continues? sign ≠ some level) (t : Tree) :
    more level t ts = some (t, ts) := by
  rw [more.eq_def]
  match ts with
  | [] | .word _ :: _ | .number _ :: _ => rfl
  | .sign sign :: rest =>
      have other := h sign rest rfl
      have assign : ¬ (sign = ['='] ∧ level = assignmentLevel) := by
        rintro ⟨rfl, rfl⟩
        exact other rfl
      have index : ¬ (sign = ['['] ∧ level = accessLevel) := by
        rintro ⟨rfl, rfl⟩
        exact other rfl
      simp only [assign, index, if_false]
      cases known : operator? sign with
      | none => rfl
      | some entry =>
          have apart : entry.1 ≠ level := by
            rintro rfl
            exact other (continues?_operator known)
          simp [apart]

theorem more_of_ends {level : Nat} {ts : List Lexeme} (h : Ends level ts) (t : Tree) :
    more level t ts = some (t, ts) := by
  refine more_of_continues?_ne ?_ t
  rintro sign rest rfl known
  exact Nat.lt_irrefl _ (h level known)

theorem continues?_level {sign : List Char} {level : Nat} (h : continues? sign = some level) :
    level ≤ 6 ∨ level = accessLevel := by
  unfold continues? at h
  split at h
  · cases h; decide
  · split at h
    · cases h; decide
    · obtain ⟨⟨own, op⟩, known, rfl⟩ := Option.map_eq_some_iff.mp h
      exact .inl (operator?_level known).2

theorem more_unary (t : Tree) (ts : List Lexeme) : more unaryLevel t ts = some (t, ts) := by
  refine more_of_continues?_ne (fun sign rest _ known => ?_) t
  exact absurd (continues?_level known) (by decide)

theorem more_primary (t : Tree) (ts : List Lexeme) : more primaryLevel t ts = some (t, ts) := by
  refine more_of_continues?_ne (fun sign rest _ known => ?_) t
  exact absurd (continues?_level known) (by decide)

theorem more_assign {t u : Tree} {rest left : List Lexeme}
    (value : read assignmentLevel rest = some (u, left)) :
    more assignmentLevel t (.sign ['='] :: rest) = some (.assign t u, left) := by
  rw [more]
  simp [value]

theorem more_index {t u : Tree} {rest left : List Lexeme}
    (key : read assignmentLevel rest = some (u, .sign [']'] :: left))
    (short : left.length ≤ rest.length) :
    more accessLevel t (.sign ['['] :: rest) = more accessLevel (.index t u) left := by
  rw [more]
  simp [key, past, short]

theorem more_operator {sign : List Char} {level : Nat} {op : BinaryOp} {t u : Tree}
    {rest left : List Lexeme} (known : operator? sign = some (level, op))
    (right : read (level + 1) rest = some (u, left)) (short : left.length ≤ rest.length) :
    more level t (.sign sign :: rest) = more level (.binary op t u) left := by
  have bounds := operator?_level known
  have assign : ¬ (sign = ['='] ∧ level = assignmentLevel) := by
    unfold assignmentLevel
    omega
  have index : ¬ (sign = ['['] ∧ level = accessLevel) := by
    unfold accessLevel
    omega
  rw [more]
  simp [assign, index, known, right, short]

theorem read_parentheses {t : Tree} {ts left : List Lexeme}
    (inner : read assignmentLevel ts = some (t, .sign [')'] :: left)) :
    read primaryLevel (.sign ['('] :: ts) = some (t, left) := by
  rw [read]
  simp [inner, past]

theorem read_minus {t : Tree} {ts left : List Lexeme}
    (operand : read unaryLevel ts = some (t, left)) :
    read unaryLevel (.sign ['-'] :: ts) = some (.minus t, left) := by
  rw [read]
  simp [unaryLevel, primaryLevel, operand]

theorem read_of_tighter {level : Nat} {first : Lexeme} {t : Tree} {ts left : List Lexeme}
    (inside : level < primaryLevel) (plain : ¬ (level = unaryLevel ∧ first = .sign ['-']))
    (inner : read (level + 1) (first :: ts) = some (t, left)) (short : left.length ≤ ts.length) :
    read level (first :: ts) = more level t left := by
  rw [read.eq_def]
  simp [Nat.not_le.mpr inside, plain, inner, short]

-- A tight expression starts with no minus.
theorem derives_cons {level : Nat} {ts : List Lexeme} {t : Tree} (h : Derives level ts t) :
    ∃ first rest, ts = first :: rest ∧ (accessLevel ≤ level → first ≠ .sign ['-']) := by
  induction h with
  | word chars | number chars => exact ⟨_, [], rfl, fun _ => by simp⟩
  | parentheses _ _ => exact ⟨_, _, rfl, fun _ => by simp⟩
  | index _ _ object _ =>
      obtain ⟨first, rest, rfl, plain⟩ := object
      exact ⟨first, _, rfl, plain⟩
  | minus _ _ => exact ⟨_, _, rfl, fun tight => absurd tight (by decide)⟩
  | binary known _ _ left _ =>
      obtain ⟨first, rest, rfl, plain⟩ := left
      exact ⟨first, _, rfl, plain⟩
  | assign _ _ target _ =>
      obtain ⟨first, rest, rfl, _⟩ := target
      exact ⟨first, _, rfl, fun tight => absurd tight (by decide)⟩
  | tighter _ _ ih =>
      obtain ⟨first, rest, rfl, plain⟩ := ih
      exact ⟨first, rest, rfl, fun tight => plain (Nat.le_succ_of_le tight)⟩

-- Assignment groups from the right: a sign of its own level cannot follow it.
def reach (level : Nat) : Nat :=
  if level = assignmentLevel then assignmentLevel else level + 1

def Found (level : Nat) (ts : List Lexeme) (t : Tree) : Prop :=
  ∀ rest, Ends (reach level) rest → read level (ts ++ rest) = more level t rest

theorem Found.read {level : Nat} {ts : List Lexeme} {t : Tree} (h : Found level ts t)
    {rest : List Lexeme} (ends : Ends level rest) : read level (ts ++ rest) = some (t, rest) := by
  have wide : level ≤ reach level := by
    unfold reach
    split <;> omega
  rw [h rest (ends.mono wide), more_of_ends ends]

theorem Found.tighter {level : Nat} {first : Lexeme} {ts : List Lexeme} {t : Tree}
    (inside : level < primaryLevel) (plain : ¬ (level = unaryLevel ∧ first = .sign ['-']))
    (h : Found (level + 1) (first :: ts) t) : Found level (first :: ts) t := by
  intro rest ends
  have inner : Ends (level + 1) rest := by
    refine ends.mono ?_
    unfold reach
    split <;> omega
  exact read_of_tighter inside plain (h.read inner) (by simp)

theorem Found.parentheses {ts : List Lexeme} {t : Tree} (h : Found assignmentLevel ts t) :
    Found primaryLevel (.sign ['('] :: (ts ++ [.sign [')']])) t := by
  intro rest _
  have close : Ends assignmentLevel (.sign [')'] :: rest) := by
    intro own known
    cases known
  simp only [List.cons_append, List.append_assoc, List.nil_append]
  rw [read_parentheses (h.read close), more_primary]

theorem Found.index {ts us : List Lexeme} {t u : Tree} (object : Found accessLevel ts t)
    (key : Found assignmentLevel us u) :
    Found accessLevel (ts ++ .sign ['['] :: (us ++ [.sign [']']])) (.index t u) := by
  intro rest _
  have bracket : Ends (reach accessLevel) (.sign ['['] :: (us ++ .sign [']'] :: rest)) := by
    intro own known
    cases known
    decide
  have close : Ends assignmentLevel (.sign [']'] :: rest) := by
    intro own known
    cases known
  simp only [List.cons_append, List.append_assoc, List.nil_append]
  rw [object _ bracket, more_index (key.read close) (by simp; omega)]

theorem Found.minus {ts : List Lexeme} {t : Tree} (h : Found unaryLevel ts t) :
    Found unaryLevel (.sign ['-'] :: ts) (.minus t) := by
  intro rest ends
  have operand : Cpp.read unaryLevel (ts ++ rest) = some (t, rest) := by
    rw [h rest ends, more_unary]
  rw [List.cons_append, read_minus operand, more_unary]

theorem Found.binary {sign : List Char} {level : Nat} {op : BinaryOp} {ts us : List Lexeme}
    {t u : Tree} (known : operator? sign = some (level, op)) (left : Found level ts t)
    (right : Found (level + 1) us u) :
    Found level (ts ++ .sign sign :: us) (.binary op t u) := by
  intro rest ends
  have bounds := operator?_level known
  have wide : reach level = level + 1 := by
    unfold reach assignmentLevel
    split <;> omega
  rw [wide] at ends
  have own : Ends (reach level) (.sign sign :: (us ++ rest)) := by
    intro own continued
    rw [continues?_operator known] at continued
    cases continued
    omega
  simp only [List.append_assoc, List.cons_append]
  rw [left _ own, more_operator known (right.read ends) (by simp)]

theorem Found.assign {first : Lexeme} {ts us : List Lexeme} {t u : Tree}
    (target : Found (assignmentLevel + 1) (first :: ts) t) (value : Found assignmentLevel us u) :
    Found assignmentLevel (first :: ts ++ .sign ['='] :: us) (.assign t u) := by
  intro rest ends
  have stop : Ends assignmentLevel rest := ends
  have sign : Ends (assignmentLevel + 1) (.sign ['='] :: (us ++ rest)) := by
    intro own known
    cases known
    decide
  have tighter := read_of_tighter (by decide) (by simp) (target.read sign) (by simp)
  rw [more_assign (value.read stop)] at tighter
  rw [more_of_ends stop, ← tighter]
  simp

theorem found_of_derives {level : Nat} {ts : List Lexeme} {t : Tree} (h : Derives level ts t) :
    Found level ts t := by
  induction h with
  | word | number =>
      intro rest _
      rw [List.cons_append, read, more_primary]
      simp
  | parentheses _ inner => exact inner.parentheses
  | index _ _ object key => exact object.index key
  | minus _ operand => exact operand.minus
  | binary known _ _ left right => exact left.binary known right
  | assign target _ targetFound valueFound =>
      obtain ⟨first, rest, rfl, _⟩ := derives_cons target
      exact targetFound.assign valueFound
  | tighter inside inner ih =>
      obtain ⟨first, rest, rfl, plain⟩ := derives_cons inner
      refine ih.tighter inside ?_
      rintro ⟨rfl, minus⟩
      exact plain (Nat.le_refl _) minus

theorem derives_unique {ts : List Lexeme} {t u : Tree} (ht : Derives assignmentLevel ts t)
    (hu : Derives assignmentLevel ts u) : t = u := by
  have ends : Ends assignmentLevel [] := trivial
  have first := (found_of_derives ht).read ends
  have second := (found_of_derives hu).read ends
  simpa using first.symm.trans second

end ScriptCpp.Cpp
