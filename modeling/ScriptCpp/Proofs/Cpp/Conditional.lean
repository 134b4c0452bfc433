import Mathlib
import ScriptCpp.Proofs.Cpp.Grammar

set_option autoImplicit false

namespace ScriptCpp.Cpp

inductive Expression where
  | leaf (spelling : List Char)
  | minus (operand : Expression)
  | binary (op : BinaryOp) (left right : Expression)
  | index (object key : Expression)
  | assign (target value : Expression)
  | conditional (test consequent alternate : Expression)
deriving DecidableEq, Repr

inductive Parses : Nat → List Lexeme → Expression → Prop
  | word (chars : List Char) : Parses primaryLevel [.word chars] (.leaf chars)
  | number (chars : List Char) : Parses primaryLevel [.number chars] (.leaf chars)
  | parentheses {ls : List Lexeme} {x : Expression} (inner : Parses assignmentLevel ls x) :
      Parses primaryLevel (.sign ['('] :: (ls ++ [.sign [')']])) x
  | index {ls ms : List Lexeme} {x y : Expression} (object : Parses accessLevel ls x)
      (key : Parses assignmentLevel ms y) :
      Parses accessLevel (ls ++ .sign ['['] :: (ms ++ [.sign [']']])) (.index x y)
  | minus {ls : List Lexeme} {x : Expression} (operand : Parses unaryLevel ls x) :
      Parses unaryLevel (.sign ['-'] :: ls) (.minus x)
  | binary {sign : List Char} {level : Nat} {op : BinaryOp} {ls ms : List Lexeme} {x y : Expression}
      (known : operator? sign = some (level, op)) (left : Parses level ls x)
      (right : Parses (level + 1) ms y) :
      Parses level (ls ++ .sign sign :: ms) (.binary op x y)
  | assign {ls ms : List Lexeme} {x y : Expression} (target : Parses (assignmentLevel + 1) ls x)
      (value : Parses assignmentLevel ms y) :
      Parses assignmentLevel (ls ++ .sign ['='] :: ms) (.assign x y)
  | conditional {ls ms ns : List Lexeme} {x y z : Expression}
      (test : Parses (assignmentLevel + 1) ls x) (consequent : Parses assignmentLevel ms y)
      (alternate : Parses assignmentLevel ns z) :
      Parses assignmentLevel (ls ++ .sign ['?'] :: (ms ++ .sign [':'] :: ns)) (.conditional x y z)
  | tighter {level : Nat} {ls : List Lexeme} {x : Expression} (inside : level < primaryLevel)
      (h : Parses (level + 1) ls x) : Parses level ls x

theorem Parses.loosen {level loose : Nat} {ls : List Lexeme} {x : Expression}
    (h : Parses level ls x) (le : loose ≤ level) (inside : level ≤ primaryLevel) :
    Parses loose ls x := by
  induction level with
  | zero => rwa [Nat.le_zero.mp le]
  | succ level ih =>
      by_cases same : loose = level + 1
      · rwa [same]
      · exact ih (.tighter inside h) (by omega) (by omega)

def Expression.ofTree : Tree → Expression
  | .leaf spelling => .leaf spelling
  | .minus t => .minus (ofTree t)
  | .binary op t u => .binary op (ofTree t) (ofTree u)
  | .index t u => .index (ofTree t) (ofTree u)
  | .assign t u => .assign (ofTree t) (ofTree u)

theorem Derives.parses {level : Nat} {ls : List Lexeme} {t : Tree} (h : Derives level ls t) :
    Parses level ls (.ofTree t) := by
  induction h with
  | word chars => exact .word chars
  | number chars => exact .number chars
  | parentheses _ inner => exact .parentheses inner
  | index _ _ object key => exact .index object key
  | minus _ operand => exact .minus operand
  | binary known _ _ left right => exact .binary known left right
  | assign _ _ target value => exact .assign target value
  | tighter inside _ ih => exact .tighter inside ih

/-!
Conditionals can be written without `?` and `:`. As `t = w[c] = a`, where nothing else is called `w`,
`t ? c : a` has the same parts on the same levels, and the operator grammar reads that in one way.
-/

-- All other words and numbers get a letter, so the empty word is free.
def Lexeme.unconditional : Lexeme → List Lexeme
  | .word chars => [.word ('_' :: chars)]
  | .number chars => [.number ('_' :: chars)]
  | .sign chars =>
      if chars = ['?'] then [.sign ['='], .word [], .sign ['[']]
      else if chars = [':'] then [.sign [']'], .sign ['=']]
      else [.sign chars]

@[simp] def Expression.unconditional : Expression → Tree
  | .leaf spelling => .leaf ('_' :: spelling)
  | .minus x => .minus x.unconditional
  | .binary op x y => .binary op x.unconditional y.unconditional
  | .index x y => .index x.unconditional y.unconditional
  | .assign x y => .assign x.unconditional y.unconditional
  | .conditional x y z =>
      .assign x.unconditional (.assign (.index (.leaf []) y.unconditional) z.unconditional)

theorem unconditional_operator {sign : List Char} {level : Nat} {op : BinaryOp}
    (known : operator? sign = some (level, op)) : (Lexeme.sign sign).unconditional = [.sign sign] := by
  have other : sign ≠ ['?'] ∧ sign ≠ [':'] := by
    refine ⟨?_, ?_⟩ <;> rintro rfl <;> cases known
  simp [Lexeme.unconditional, other]

theorem Parses.derives {level : Nat} {ls : List Lexeme} {x : Expression} (h : Parses level ls x) :
    Derives level (ls.flatMap Lexeme.unconditional) x.unconditional := by
  induction h with
  | word chars => exact .word _
  | number chars => exact .number _
  | parentheses _ inner => simpa [Lexeme.unconditional] using Derives.parentheses inner
  | index _ _ object key => simpa [Lexeme.unconditional] using Derives.index object key
  | minus _ operand => simpa [Lexeme.unconditional] using Derives.minus operand
  | binary known _ _ left right =>
      simpa [unconditional_operator known] using .binary known left right
  | assign _ _ target value => simpa [Lexeme.unconditional] using Derives.assign target value
  | conditional _ _ _ test consequent alternate =>
      have marked : Derives accessLevel [.word []] (.leaf []) := .tighter (by decide) (.word [])
      have element := (Derives.index marked consequent).loosen
        (show assignmentLevel + 1 ≤ accessLevel by decide) (by decide)
      simpa [Lexeme.unconditional] using Derives.assign test (.assign element alternate)
  | tighter inside _ ih => exact .tighter inside ih

namespace Expression

theorem unconditional_ne_element (x : Expression) (key : Tree) :
    x.unconditional ≠ .index (.leaf []) key := by
  cases x with
  | index object _ => cases object <;> simp
  | _ => simp

theorem unconditional_ne_choice (x : Expression) (key value : Tree) :
    x.unconditional ≠ .assign (.index (.leaf []) key) value := by
  cases x with
  | assign target _ | conditional target _ _ =>
      simp [target.unconditional_ne_element key]
  | _ => simp

theorem unconditional_injective : Function.Injective unconditional := by
  intro x y same
  induction x generalizing y with
  | leaf => cases y <;> simp_all
  | minus operand ih =>
      cases y with
      | minus => exact congrArg _ (ih (Tree.minus.inj same))
      | _ => simp at same
  | binary op left right leftIh rightIh =>
      cases y with
      | binary =>
          obtain ⟨rfl, first, second⟩ := Tree.binary.inj same
          rw [leftIh first, rightIh second]
      | _ => simp at same
  | index object key objectIh keyIh =>
      cases y with
      | index =>
          obtain ⟨first, second⟩ := Tree.index.inj same
          rw [objectIh first, keyIh second]
      | _ => simp at same
  | assign target value targetIh valueIh =>
      cases y with
      | assign =>
          obtain ⟨first, second⟩ := Tree.assign.inj same
          rw [targetIh first, valueIh second]
      -- Both become assignments, but only a conditional has a choice on the right.
      | conditional => exact absurd (Tree.assign.inj same).2 (unconditional_ne_choice _ _ _)
      | _ => simp at same
  | conditional test consequent alternate testIh consequentIh alternateIh =>
      cases y with
      | assign => exact absurd (Tree.assign.inj same).2.symm (unconditional_ne_choice _ _ _)
      | conditional =>
          obtain ⟨first, rest⟩ := Tree.assign.inj same
          obtain ⟨element, third⟩ := Tree.assign.inj rest
          rw [testIh first, consequentIh (Tree.index.inj element).2, alternateIh third]
      | _ => simp at same

end Expression

theorem parses_unique {ls : List Lexeme} {x y : Expression} (hx : Parses assignmentLevel ls x)
    (hy : Parses assignmentLevel ls y) : x = y :=
  Expression.unconditional_injective (derives_unique hx.derives hy.derives)

end ScriptCpp.Cpp
