import Mathlib
import ScriptCpp.Proofs.Binary64.Printing
import ScriptCpp.Proofs.Cpp.Grammar
import ScriptCpp.Proofs.Emission.Outcome

set_option autoImplicit false

namespace ScriptCpp

def IsName (name : String) : Prop :=
  ∃ c cs, name.toList = c :: cs ∧ Token.isNameStart c = true ∧
    cs.all Token.isNamePart = true

/-- Expressions of names, numbers without a sign, `this`, operators, computed accesses and
assignments to names. -/
inductive OperatorExpr : Expr → Prop
  | ident {name : String} (spelled : IsName name) : OperatorExpr (.ident name)
  | number (significand : Nat) (exponent : Int) :
      OperatorExpr (.number (.finite false significand exponent))
  | this : OperatorExpr .this
  | negate {e : Expr} (operand : OperatorExpr e) : OperatorExpr (.negate e)
  | binary (op : BinaryOp) {l r : Expr} (left : OperatorExpr l) (right : OperatorExpr r) :
      OperatorExpr (.binary op l r)
  | index {o k : Expr} (object : OperatorExpr o) (key : OperatorExpr k) :
      OperatorExpr (.index o k)
  | assign {name : String} {v : Expr} (spelled : IsName name) (value : OperatorExpr v) :
      OperatorExpr (.assign (.ident name) v)

namespace Cpp

def Tree.ofExpr : Expr → Tree
  | .ident name => .leaf (Emission.reference name).toList
  | .number value => .leaf value.text.toList
  | .this => .leaf ['t', 'h', 'i', 's']
  | .negate e => .minus (ofExpr e)
  | .binary op l r => .binary op (ofExpr l) (ofExpr r)
  | .index o k => .index (ofExpr o) (ofExpr k)
  | .assign t v => .assign (ofExpr t) (ofExpr v)
  | _ => .leaf []

theorem operator?_symbol (op : BinaryOp) : operator? op.symbol.toList = some (op.precedence, op) := by
  cases op <;> decide

theorem symbol_mem_dyadicSigns (op : BinaryOp) : op.symbol.toList ∈ dyadicSigns := by
  cases op <;> decide

structure Reads (text : String) (level : Nat) (t : Tree) : Prop where
  opens : Opens text.toList
  lexed : ∃ ls, Lexes text.toList ls ∧ Derives level ls t

namespace Reads

variable {level : Nat} {text left right : String} {t u : Tree}

theorem loosen {loose : Nat} (h : Reads text level t) (le : loose ≤ level)
    (inside : level ≤ primaryLevel) : Reads text loose t := by
  obtain ⟨opens, ls, lexes, derives⟩ := h
  exact ⟨opens, ls, lexes, derives.loosen le inside⟩

theorem parenthesized (h : Reads text level t) (inside : level ≤ primaryLevel) :
    Reads ("(" ++ text ++ ")") primaryLevel t := by
  obtain ⟨opens, ls, lexes, derives⟩ := h
  have inner : Derives assignmentLevel ls t := derives.loosen (Nat.zero_le _) inside
  have whole := Operand.parenthesized ⟨opens, lexes⟩
  exact ⟨whole.opens, _, whole.lexes, .parentheses inner⟩

theorem minus (h : Reads text unaryLevel t) : Reads ("(-" ++ text ++ ")") primaryLevel (.minus t) := by
  obtain ⟨opens, ls, lexes, derives⟩ := h
  have inner : Derives assignmentLevel (.sign ['-'] :: ls) (.minus t) :=
    (Derives.minus derives).loosen (Nat.zero_le _) (by decide)
  have whole := Operand.negated ⟨opens, lexes⟩
  exact ⟨whole.opens, _, whole.lexes, .parentheses inner⟩

theorem index (object : Reads left accessLevel t) (key : Reads right assignmentLevel u) :
    Reads (left ++ "[" ++ right ++ "]") accessLevel (.index t u) := by
  obtain ⟨⟨c, first, kind⟩, ls, lexes, derives⟩ := object
  obtain ⟨_, ms, keyLexes, keyDerives⟩ := key
  refine ⟨⟨c, ?_, kind⟩, _, ?_, .index derives keyDerives⟩
  · simp [Option.mem_def.mp first]
  · simpa using lexes.indexed keyLexes

theorem dyadic {leftLevel rightLevel : Nat} (left_ : Reads left leftLevel t) (sign : String)
    (spaced : sign.toList ∈ dyadicSigns) (right_ : Reads right rightLevel u) {v : Tree}
    (rule : ∀ ls ms, Derives leftLevel ls t → Derives rightLevel ms u →
      Derives level (ls ++ .sign sign.toList :: ms) v) :
    Reads (left ++ " " ++ sign ++ " " ++ right) level v := by
  obtain ⟨opens, ls, lexes, derives⟩ := left_
  obtain ⟨rightOpens, ms, rightLexes, rightDerives⟩ := right_
  have whole := Operand.spaced ⟨opens, lexes⟩ sign (lexemes?_dyadic spaced) ⟨rightOpens, rightLexes⟩
  exact ⟨whole.opens, _, whole.lexes, rule _ _ derives rightDerives⟩

theorem binary {op : BinaryOp} (l : Reads left op.precedence t)
    (r : Reads right (op.precedence + 1) u) :
    Reads (left ++ " " ++ op.symbol ++ " " ++ right) op.precedence (.binary op t u) :=
  l.dyadic op.symbol (symbol_mem_dyadicSigns op) r fun _ _ first second =>
    .binary (operator?_symbol op) first second

theorem assign (target : Reads left (assignmentLevel + 1) t) (value : Reads right assignmentLevel u) :
    Reads (left ++ " = " ++ right) assignmentLevel (.assign t u) := by
  have joined := target.dyadic "=" (by decide) value fun _ _ first second =>
    Derives.assign first second
  simpa [String.append_assoc] using joined

theorem name {name : String} (h : IsName name) : Reads name primaryLevel (.leaf name.toList) := by
  obtain ⟨c, cs, spelled, first, others⟩ := h
  refine ⟨⟨c, by simp [spelled], .inl first⟩, [.word name.toList], ?_, .word _⟩
  rw [spelled]
  exact lexes_word c cs first (List.all_eq_true.mp others)

end Reads

def emittedLevel : Expr → Nat
  | .binary op _ _ => op.precedence
  | .assign _ _ => assignmentLevel
  | .index _ _ => accessLevel
  | _ => primaryLevel

theorem precedence_bounds (op : BinaryOp) : 1 ≤ op.precedence ∧ op.precedence ≤ 6 := by
  cases op <;> decide

theorem emittedLevel_le (e : Expr) : emittedLevel e ≤ primaryLevel := by
  unfold emittedLevel
  split
  · next op _ _ => have := precedence_bounds op; unfold primaryLevel; omega
  all_goals decide

theorem accessLevel_le_of_not_loose {e : Expr} (h : Emission.isLoose e = false) :
    accessLevel ≤ emittedLevel e := by
  unfold emittedLevel
  split
  · cases h
  · cases h
  all_goals decide

theorem reads_group {e : Expr} {text : String} {t : Tree} (h : Reads text (emittedLevel e) t) :
    Reads (Emission.group e text) accessLevel t := by
  cases loose : Emission.isLoose e with
  | true =>
      have grouped : Emission.group e text = "(" ++ text ++ ")" := by
        simp [Emission.group, Emission.piece, Piece.grouped, loose]
      rw [grouped]
      exact (h.parenthesized (emittedLevel_le e)).loosen (by decide) (by decide)
  | false =>
      have grouped : Emission.group e text = text := by
        simp [Emission.group, Emission.piece, Piece.grouped, loose]
      rw [grouped]
      exact h.loosen (accessLevel_le_of_not_loose loose) (emittedLevel_le e)

def operandLevel (parent : Nat) (right : Bool) : Nat :=
  if right then parent + 1 else parent

theorem operandLevel_le_unaryLevel (op : BinaryOp) (right : Bool) :
    operandLevel op.precedence right ≤ unaryLevel := by
  have bounds := precedence_bounds op
  unfold operandLevel unaryLevel
  split <;> omega

-- An operand without parentheses is at least as tight as its side asks for.
theorem operandLevel_le {e : Expr} {op : BinaryOp} {right : Bool}
    (bare : Emission.operandGrouped op.precedence right e = false) :
    operandLevel op.precedence right ≤ emittedLevel e := by
  cases e with
  | binary inner l r =>
      simp only [Emission.operandGrouped, Bool.or_eq_false_iff, decide_eq_false_iff_not,
        Bool.and_eq_false_imp] at bare
      obtain ⟨tight, apart⟩ := bare
      unfold operandLevel
      split
      · next isRight => have := apart isRight; simp only [emittedLevel]; omega
      · simp only [emittedLevel]; omega
  | assign => cases bare
  | _ =>
      exact Nat.le_trans (operandLevel_le_unaryLevel op right)
        (Nat.le_trans (by decide) (accessLevel_le_of_not_loose rfl))

theorem reads_operand {e : Expr} {text : String} {t : Tree} (op : BinaryOp) (right : Bool)
    (h : Reads text (emittedLevel e) t) :
    Reads (Emission.operand op.precedence right e text) (operandLevel op.precedence right) t := by
  unfold Emission.operand
  split
  · exact (h.parenthesized (emittedLevel_le e)).loosen
      (Nat.le_trans (operandLevel_le_unaryLevel op right) (by decide)) (Nat.le_refl _)
  · next bare =>
      exact h.loosen (operandLevel_le (by simpa using bare)) (emittedLevel_le e)

theorem isName_reference {name : String} (h : IsName name) : IsName (Emission.reference name) := by
  unfold Emission.reference Emission.binding
  split
  · exact ⟨'n', "ullptr".toList, by decide, by decide, by decide⟩
  · split
    · exact ⟨'r', "iri_main".toList, by decide, by decide, by decide⟩
    · exact h

theorem reads_number (significand : Nat) (exponent : Int) :
    Reads (Binary64.finite false significand exponent).text primaryLevel
      (.leaf (Binary64.finite false significand exponent).text.toList) := by
  obtain ⟨c, cs, spelled, first, others⟩ :=
    (Binary64.shortest significand exponent).text_chars
  have same : (Binary64.finite false significand exponent).text.toList = c :: cs := by
    simpa [Binary64.text] using spelled
  refine ⟨⟨c, by simp [same], .inr (.inl first)⟩, [.number (c :: cs)], ?_, ?_⟩
  · rw [same]
    exact lexes_number c cs first others
  · rw [same]
    exact .number _

theorem memberName?_of_operatorExpr {e : Expr} (h : OperatorExpr e) : e.memberName? = none := by
  cases h <;> rfl

theorem expr_reads (features : Features) (depth : Nat) {e : Expr} (h : OperatorExpr e) :
    ∃ text, Emission.expr features depth e = .ok text ∧
      Reads text (emittedLevel e) (Tree.ofExpr e) := by
  induction h with
  | ident spelled => exact ⟨_, rfl, .name (isName_reference spelled)⟩
  | number significand exponent => exact ⟨_, rfl, reads_number significand exponent⟩
  | this => exact ⟨_, rfl, .name ⟨'t', ['h', 'i', 's'], rfl, by decide, by decide⟩⟩
  | negate _ operand =>
      obtain ⟨text, emitted, reads⟩ := operand
      refine ⟨_, by rw [Emission.expr_negate, emitted]; rfl, ?_⟩
      exact ((reads_group reads).loosen (by decide) (by decide)).minus
  | binary op _ _ left right =>
      obtain ⟨l, leftEmitted, leftReads⟩ := left
      obtain ⟨r, rightEmitted, rightReads⟩ := right
      refine ⟨_, by rw [Emission.expr_binary, leftEmitted, rightEmitted]; rfl, ?_⟩
      exact (reads_operand op false leftReads).binary (reads_operand op true rightReads)
  | index object _ objectRead keyRead =>
      obtain ⟨o, objectEmitted, objectReads⟩ := objectRead
      obtain ⟨k, keyEmitted, keyReads⟩ := keyRead
      refine ⟨_, by rw [Emission.expr_index, objectEmitted, keyEmitted]; rfl, ?_⟩
      simp only [Emission.indexText, memberName?_of_operatorExpr object, reduceCtorEq, decide_false,
        Bool.and_false, Bool.false_eq_true, if_false]
      exact (reads_group objectReads).index (keyReads.loosen (Nat.zero_le _) (emittedLevel_le _))
  | assign spelled _ value =>
      obtain ⟨text, emitted, reads⟩ := value
      refine ⟨_, by rw [Emission.expr_assign, emitted]; rfl, ?_⟩
      have target := (Reads.name (isName_reference spelled)).loosen
        (show assignmentLevel + 1 ≤ primaryLevel by decide) (Nat.le_refl _)
      exact target.assign (reads.loosen (Nat.zero_le _) (emittedLevel_le _))

end Cpp

/-- Reading the emitted text of an operator expression back gives that expression and no other. -/
theorem Emission.expr_grouping (features : Features) (depth : Nat) (e : Expr)
    (shape : OperatorExpr e) :
    ∃ text lexemes, Emission.expr features depth e = .ok text ∧
      Cpp.lexemes? text.toList = some lexemes ∧
      ∀ t, Cpp.Derives Cpp.assignmentLevel lexemes t ↔ t = Cpp.Tree.ofExpr e := by
  obtain ⟨text, emitted, _, lexemes, lexes, derives⟩ := Cpp.expr_reads features depth shape
  have own : Cpp.Derives Cpp.assignmentLevel lexemes (Cpp.Tree.ofExpr e) :=
    derives.loosen (Nat.zero_le _) (Cpp.emittedLevel_le e)
  refine ⟨text, lexemes, emitted, lexes.lexemes?, fun t => ⟨fun other => ?_, ?_⟩⟩
  · exact Cpp.derives_unique other own
  · rintro rfl
    exact own

-- C++ reads `a == b < c` as `a == (b < c)`, where a script groups from the left.
example : Emission.expr ⟨false, false⟩ 0
    (.binary .lt (.binary .eq (.ident "a") (.ident "b")) (.ident "c")) = .ok "(a == b) < c" := by
  rfl

theorem Emission.expr_grouping_comparison :
    OperatorExpr (.binary .lt (.binary .eq (.ident "a") (.negate (.index (.ident "b") .this)))
      (.assign (.ident "c") (.number (.finite false 1 0)))) ∧
    ∃ text lexemes,
      Emission.expr ⟨false, true⟩ 0
        (.binary .lt (.binary .eq (.ident "a") (.negate (.index (.ident "b") .this)))
          (.assign (.ident "c") (.number (.finite false 1 0)))) = .ok text ∧
      Cpp.lexemes? text.toList = some lexemes ∧
      ∀ t, Cpp.Derives Cpp.assignmentLevel lexemes t ↔
        t = .binary .lt (.binary .eq (.leaf ['a']) (.minus (.index (.leaf ['b'])
          (.leaf ['t', 'h', 'i', 's'])))) (.assign (.leaf ['c']) (.leaf ['1'])) := by
  have letter (c : Char) (first : Token.isNameStart c = true) : IsName (String.ofList [c]) :=
    ⟨c, [], String.toList_ofList, first, rfl⟩
  have shape : OperatorExpr
      (.binary .lt (.binary .eq (.ident "a") (.negate (.index (.ident "b") .this)))
        (.assign (.ident "c") (.number (.finite false 1 0)))) :=
    .binary .lt (.binary .eq (.ident (letter 'a' rfl))
      (.negate (.index (.ident (letter 'b' rfl)) .this)))
      (.assign (letter 'c' rfl) (.number 1 0))
  exact ⟨shape, Emission.expr_grouping ⟨false, true⟩ 0 _ shape⟩

end ScriptCpp
