import Mathlib
import ScriptCpp.Proofs.Cpp.Conditional
import ScriptCpp.Proofs.Parsing.Legible

set_option autoImplicit false

namespace ScriptCpp

/-- Expressions of names, numbers, operators, assignments to names and conditionals. -/
inductive Expr.Built : Expr → Prop
  | ident (name : String) : Built (.ident name)
  | number (value : Binary64) : Built (.number value)
  | negate {e : Expr} (operand : Built e) : Built (.negate e)
  | binary (op : BinaryOp) {l r : Expr} (left : Built l) (right : Built r) : Built (.binary op l r)
  | assign (name : String) {v : Expr} (value : Built v) : Built (.assign (.ident name) v)
  | conditional {t c a : Expr} (test : Built t) (consequent : Built c) (alternate : Built a) :
      Built (.conditional t c a)

def Expr.TestsAssignment (e : Expr) : Prop :=
  ∃ x v c a, (Phrase.expr e).Holds (.expr (.conditional (.assign x v) c a))

theorem Phrase.holds_iff {n m : Phrase} :
    n.Holds m ↔ n = m ∨ ∃ child ∈ n.children, child.Holds m :=
  Relation.ReflTransGen.cases_head_iff

namespace Expr

variable {e l r t v c a : Expr}

theorem testsAssignment_iff : e.TestsAssignment ↔ (∃ x v c a, e = .conditional (.assign x v) c a) ∨
    ∃ child ∈ e.children, ∃ x v c a, child.Holds (.expr (.conditional (.assign x v) c a)) := by
  unfold TestsAssignment
  simp only [Phrase.holds_iff (n := .expr e), Phrase.expr.injEq, Phrase.children, exists_or]
  refine or_congr_right ⟨?_, ?_⟩
  · rintro ⟨x, v, c, a, child, among, occurs⟩
    exact ⟨child, among, x, v, c, a, occurs⟩
  · rintro ⟨child, among, x, v, c, a, occurs⟩
    exact ⟨x, v, c, a, child, among, occurs⟩

@[simp] theorem testsAssignment_ident (name : String) : ¬ (ident name).TestsAssignment := by
  simp [testsAssignment_iff, children]

@[simp] theorem testsAssignment_number (value : Binary64) : ¬ (number value).TestsAssignment := by
  simp [testsAssignment_iff, children]

@[simp] theorem testsAssignment_negate : (negate e).TestsAssignment ↔ e.TestsAssignment := by
  rw [testsAssignment_iff]
  simp [children, TestsAssignment]

@[simp] theorem testsAssignment_binary {op : BinaryOp} :
    (binary op l r).TestsAssignment ↔ l.TestsAssignment ∨ r.TestsAssignment := by
  rw [testsAssignment_iff]
  simp [children, TestsAssignment]

@[simp] theorem testsAssignment_assign :
    (assign t v).TestsAssignment ↔ t.TestsAssignment ∨ v.TestsAssignment := by
  rw [testsAssignment_iff]
  simp [children, TestsAssignment]

@[simp] theorem testsAssignment_conditional : (conditional t c a).TestsAssignment ↔
    (∃ x v, t = .assign x v) ∨ t.TestsAssignment ∨ c.TestsAssignment ∨ a.TestsAssignment := by
  rw [testsAssignment_iff]
  simp [children, TestsAssignment]

end Expr

namespace Cpp

namespace Expression

/-- The grouping of the script, with the leaves as they are emitted. -/
@[simp] def ofExpr : Expr → Expression
  | .ident name => .leaf (Emission.reference name).toList
  | .number value => .leaf value.text.toList
  | .negate e => .minus (ofExpr e)
  | .binary op l r => .binary op (ofExpr l) (ofExpr r)
  | .assign t v => .assign (ofExpr t) (ofExpr v)
  | .conditional t c a => .conditional (ofExpr t) (ofExpr c) (ofExpr a)
  | _ => .leaf []

/-- The grouping of the emitted text when something stands behind it, as `?` does behind a test: the
last value of an assignment is `taken` by that, and any other expression is as a whole. -/
@[simp] def emittedBefore (taken : Expression → Expression) : Expr → Expression
  | .ident name => taken (.leaf (Emission.reference name).toList)
  | .number value => taken (.leaf value.text.toList)
  | .negate e => taken (.minus (emittedBefore id e))
  | .binary op l r => taken (.binary op (emittedBefore id l) (emittedBefore id r))
  | .assign t v => .assign (emittedBefore id t) (emittedBefore taken v)
  | .conditional t c a =>
      taken (emittedBefore (fun test => .conditional test (emittedBefore id c) (emittedBefore id a)) t)
  | _ => taken (.leaf [])

def emitted (e : Expr) : Expression := emittedBefore id e

variable {e : Expr} {taken : Expression → Expression}

theorem emittedBefore_of_ne_assign (other : ∀ x v, e ≠ .assign x v) :
    emittedBefore taken e = taken (emitted e) := by
  cases e with
  | assign x v => exact absurd rfl (other x v)
  | _ => simp [emitted]

theorem emitted_eq_ofExpr_iff (built : e.Built) : emitted e = ofExpr e ↔ ¬ e.TestsAssignment := by
  unfold emitted
  induction built with
  | ident name | number value => simp
  | negate _ ih => simp [ih]
  | binary op _ _ left right => simp [left, right]
  | assign name _ value => simp [value]
  | @conditional t c a _ _ _ test consequent alternate =>
    by_cases assigned : ∃ x v, t = .assign x v
    · obtain ⟨x, v, rfl⟩ := assigned
      simp
    · have plain : ∀ x v, t ≠ .assign x v := fun x v same => assigned ⟨x, v, same⟩
      rw [emittedBefore, emittedBefore_of_ne_assign plain]
      simp [emitted, plain, test, consequent, alternate]

end Expression

def Spells (text : String) (level : Nat) (x : Expression) : Prop :=
  ∃ ls, Operand text ls ∧ Parses level ls x

theorem Reads.spells {text : String} {level : Nat} {t : Tree} (h : Reads text level t) :
    Spells text level (.ofTree t) := by
  obtain ⟨opens, ls, lexes, derives⟩ := h
  exact ⟨ls, ⟨opens, lexes⟩, derives.parses⟩

-- A blank ends both signs, as it does an operator.
theorem lexemes?_choice {s : List Char} (h : s ∈ [['?'], [':']]) (rest : List Char) :
    lexemes? (s ++ ' ' :: rest) = (lexemes? rest).map (.sign s :: ·) := by
  have blank : lexemes? (' ' :: rest) = lexemes? rest := lexemes?_blank rfl rest
  rw [← blank]
  simp only [List.mem_cons, List.not_mem_nil, or_false] at h
  rcases h with rfl | rfl <;> exact lexemes?_of_lexeme? _ _ (' ' :: rest) rfl rfl rfl

namespace Spells

variable {level : Nat} {text left right : String} {x y z : Expression} {e : Expr}

theorem loosen {loose : Nat} (h : Spells text level x) (le : loose ≤ level)
    (inside : level ≤ primaryLevel) : Spells text loose x := by
  obtain ⟨ls, operand, parses⟩ := h
  exact ⟨ls, operand, parses.loosen le inside⟩

theorem parenthesized (h : Spells text level x) (inside : level ≤ primaryLevel) :
    Spells ("(" ++ text ++ ")") primaryLevel x := by
  obtain ⟨ls, operand, parses⟩ := h
  exact ⟨_, operand.parenthesized, .parentheses (parses.loosen (Nat.zero_le _) inside)⟩

theorem minus (h : Spells text unaryLevel x) : Spells ("(-" ++ text ++ ")") primaryLevel (.minus x) := by
  obtain ⟨ls, operand, parses⟩ := h
  have inner := (Parses.minus parses).loosen (show assignmentLevel ≤ unaryLevel by decide) (by decide)
  exact ⟨_, operand.negated, .parentheses inner⟩

theorem binary {op : BinaryOp} (l : Spells left op.precedence x) (r : Spells right (op.precedence + 1) y) :
    Spells (left ++ " " ++ op.symbol ++ " " ++ right) op.precedence (.binary op x y) := by
  obtain ⟨ls, leftOperand, leftParses⟩ := l
  obtain ⟨ms, rightOperand, rightParses⟩ := r
  have joined := leftOperand.spaced op.symbol (lexemes?_dyadic (symbol_mem_dyadicSigns op)) rightOperand
  exact ⟨_, joined, .binary (operator?_symbol op) leftParses rightParses⟩

theorem assign (target : Spells left (assignmentLevel + 1) x) (value : Spells right assignmentLevel y) :
    Spells (left ++ " = " ++ right) assignmentLevel (.assign x y) := by
  obtain ⟨ls, leftOperand, leftParses⟩ := target
  obtain ⟨ms, rightOperand, rightParses⟩ := value
  have joined := leftOperand.spaced "=" (lexemes?_dyadic (by decide)) rightOperand
  refine ⟨_, ?_, .assign leftParses rightParses⟩
  simpa [String.append_assoc] using joined

theorem conditional (test : Spells text (assignmentLevel + 1) x) (consequent : Spells left assignmentLevel y)
    (alternate : Spells right assignmentLevel z) :
    Spells (text ++ " ? " ++ left ++ " : " ++ right) assignmentLevel (.conditional x y z) := by
  obtain ⟨ls, testOperand, testParses⟩ := test
  obtain ⟨ms, leftOperand, leftParses⟩ := consequent
  obtain ⟨ns, rightOperand, rightParses⟩ := alternate
  have choices := leftOperand.spaced ":" (lexemes?_choice (by decide)) rightOperand
  have joined := testOperand.spaced "?" (lexemes?_choice (by decide)) choices
  refine ⟨_, ?_, .conditional testParses leftParses rightParses⟩
  simpa [String.append_assoc] using joined

theorem grouped (h : Spells text (emittedLevel e) x) : Spells (Emission.group e text) accessLevel x := by
  unfold Emission.group Piece.grouped Emission.piece
  split
  · exact (h.parenthesized (emittedLevel_le e)).loosen (by decide) (by decide)
  · next tight =>
    exact h.loosen (accessLevel_le_of_not_loose (by simpa using tight)) (emittedLevel_le e)

theorem operand (op : BinaryOp) (right : Bool) (h : Spells text (emittedLevel e) x) :
    Spells (Emission.operand op.precedence right e text) (operandLevel op.precedence right) x := by
  unfold Emission.operand
  split
  · exact (h.parenthesized (emittedLevel_le e)).loosen
      (Nat.le_trans (operandLevel_le_unaryLevel op right) (by decide)) (Nat.le_refl _)
  · next bare => exact h.loosen (operandLevel_le (by simpa using bare)) (emittedLevel_le e)

end Spells

structure Groups (text : String) (e : Expr) : Prop where
  alone : Spells text (emittedLevel e) (.emitted e)
  asked : ∀ {left right : String} {y z : Expression}, Spells left assignmentLevel y →
    Spells right assignmentLevel z → Spells (text ++ " ? " ++ left ++ " : " ++ right) assignmentLevel
      (.emittedBefore (fun x => .conditional x y z) e)

namespace Groups

variable {text test left right : String} {e t c a v : Expr}

theorem of_ne_assign (h : Spells text (emittedLevel e) (.emitted e)) (other : ∀ x v, e ≠ .assign x v) :
    Groups text e := by
  have tight : assignmentLevel + 1 ≤ emittedLevel e := by
    unfold emittedLevel
    split
    · next op _ _ => exact (precedence_bounds op).1
    · exact absurd rfl (other _ _)
    all_goals decide
  refine ⟨h, fun consequent alternate => ?_⟩
  rw [Expression.emittedBefore_of_ne_assign other]
  exact (h.loosen tight (emittedLevel_le e)).conditional consequent alternate

theorem loose (h : Groups text e) : Spells text assignmentLevel (.emitted e) :=
  h.alone.loosen (Nat.zero_le _) (emittedLevel_le e)

theorem ident {name : String} (named : IsName name) :
    Groups (Emission.reference name) (.ident name) :=
  of_ne_assign (Reads.name (isName_reference named)).spells (by simp)

theorem number {value : Binary64} (plain : value.Unsigned) : Groups value.text (.number value) := by
  refine of_ne_assign ?_ (by simp)
  rcases plain with ⟨significand, exponent, rfl⟩ | rfl
  · exact (reads_number significand exponent).spells
  · exact (Reads.name (by decide : IsName "inf")).spells

theorem negate (h : Groups text e) : Groups ("(-" ++ Emission.group e text ++ ")") (.negate e) :=
  of_ne_assign (h.alone.grouped.loosen (by decide) (by decide)).minus (by simp)

theorem binary {l r : Expr} (op : BinaryOp) (hl : Groups left l) (hr : Groups right r) :
    Groups (Emission.operand op.precedence false l left ++ " " ++ op.symbol ++ " " ++
      Emission.operand op.precedence true r right) (.binary op l r) :=
  of_ne_assign ((hl.alone.operand op false).binary (hr.alone.operand op true)) (by simp)

-- What stands behind an assignment stands behind its value.
theorem assign {name : String} (named : IsName name) (value : Groups text v) :
    Groups (Emission.reference name ++ " = " ++ text) (.assign (.ident name) v) := by
  have target := (ident named).alone.loosen (show assignmentLevel + 1 ≤ primaryLevel by decide) (Nat.le_refl _)
  refine ⟨target.assign value.loose, fun consequent alternate => ?_⟩
  have whole := target.assign (value.asked consequent alternate)
  simp only [String.append_assoc] at whole ⊢
  exact whole

theorem conditional (ht : Groups test t) (hc : Groups left c) (ha : Groups right a) :
    Groups ("(" ++ test ++ " ? " ++ left ++ " : " ++ right ++ ")") (.conditional t c a) := by
  refine of_ne_assign ?_ (by simp)
  have whole := (ht.asked hc.loose ha.loose).parenthesized (Nat.zero_le _)
  simp only [String.append_assoc] at whole ⊢
  exact whole

end Groups

theorem expr_groups (features : Features) (depth : Nat) {e : Expr} (built : e.Built)
    (legible : ∀ m ∈ e.material, m.Legible) :
    ∃ text, Emission.expr features depth e = .ok text ∧ Groups text e := by
  induction built with
  | ident name => exact ⟨_, rfl, .ident (legible (.name name) (by simp))⟩
  | number value => exact ⟨_, rfl, .number (legible (.numeral (some value)) (by simp) value rfl)⟩
  | negate _ operand =>
    obtain ⟨text, emitted, groups⟩ := operand fun m own => legible m (by simp [own])
    exact ⟨_, by rw [Emission.expr_negate, emitted]; rfl, groups.negate⟩
  | binary op _ _ left right =>
    obtain ⟨l, leftEmitted, leftGroups⟩ := left fun m own => legible m (by simp [own])
    obtain ⟨r, rightEmitted, rightGroups⟩ := right fun m own => legible m (by simp [own])
    exact ⟨_, by rw [Emission.expr_binary, leftEmitted, rightEmitted]; rfl, leftGroups.binary op rightGroups⟩
  | assign name _ value =>
    obtain ⟨text, emitted, groups⟩ := value fun m own => legible m (by simp [own])
    have named : IsName name := legible (.name name) (by simp)
    exact ⟨_, by rw [Emission.expr_assign, emitted]; rfl, groups.assign named⟩
  | conditional _ _ _ test consequent alternate =>
    obtain ⟨t, testEmitted, testGroups⟩ := test fun m own => legible m (by simp [own])
    obtain ⟨c, leftEmitted, leftGroups⟩ := consequent fun m own => legible m (by simp [own])
    obtain ⟨a, rightEmitted, rightGroups⟩ := alternate fun m own => legible m (by simp [own])
    exact ⟨_, by rw [Emission.expr_conditional, testEmitted, leftEmitted, rightEmitted]; rfl,
      testGroups.conditional leftGroups rightGroups⟩

end Cpp

/-- The emitted text of an expression has one grouping. It is that of the expression, unless an
assignment is the test of a conditional in it: then the conditional becomes the value that is assigned. -/
theorem Emission.conditional_grouping (features : Features) (depth : Nat) (e : Expr) (parsed : e.Parsed)
    (built : e.Built) :
    ∃ text lexemes, Emission.expr features depth e = .ok text ∧
      Cpp.lexemes? text.toList = some lexemes ∧
      (∀ x, Cpp.Parses Cpp.assignmentLevel lexemes x ↔ x = Cpp.Expression.emitted e) ∧
      (Cpp.Expression.emitted e = Cpp.Expression.ofExpr e ↔ ¬ e.TestsAssignment) := by
  obtain ⟨text, emitted, groups⟩ := Cpp.expr_groups features depth built parsed.legible
  obtain ⟨lexemes, operand, parses⟩ := groups.loose
  refine ⟨text, lexemes, emitted, operand.lexes.lexemes?, fun x => ⟨fun other => ?_, ?_⟩,
    Cpp.Expression.emitted_eq_ofExpr_iff built⟩
  · exact Cpp.parses_unique other parses
  · rintro rfl
    exact parses

-- `-(p ? q = 1 : r) < s ? (x = y = z) ? a : b : c`
def chosenTwice : Expr :=
  .conditional
    (.binary .lt
      (.negate (.conditional (.ident "p")
        (.assign (.ident "q") (.number (.finite false (2 ^ 52) (-52)))) (.ident "r")))
      (.ident "s"))
    (.conditional (.assign (.ident "x") (.assign (.ident "y") (.ident "z"))) (.ident "a") (.ident "b"))
    (.ident "c")

theorem chosenTwice_parsed : chosenTwice.Parsed :=
  ⟨"-(p ? q = 1 : r) < s ? (x = y = z) ? a : b : c;", [.expr chosenTwice], by with_unfolding_all rfl, _,
    List.mem_singleton_self _, .single (List.mem_singleton_self _)⟩

theorem Emission.conditional_grouping_twice :
    ∃ text lexemes, Emission.expr ⟨false, false⟩ 0 chosenTwice = .ok text ∧
      Cpp.lexemes? text.toList = some lexemes ∧
      (∀ x, Cpp.Parses Cpp.assignmentLevel lexemes x ↔ x = .conditional
        (.binary .lt
          (.minus (.conditional (.leaf ['p']) (.assign (.leaf ['q']) (.leaf ['1'])) (.leaf ['r'])))
          (.leaf ['s']))
        (.assign (.leaf ['x']) (.assign (.leaf ['y'])
          (.conditional (.leaf ['z']) (.leaf ['a']) (.leaf ['b']))))
        (.leaf ['c'])) ∧
      chosenTwice.TestsAssignment := by
  have built : chosenTwice.Built :=
    .conditional (.binary .lt (.negate (.conditional (.ident _) (.assign _ (.number _)) (.ident _))) (.ident _))
      (.conditional (.assign _ (.assign _ (.ident _))) (.ident _) (.ident _)) (.ident _)
  obtain ⟨text, lexemes, emitted, lexed, grouping, -⟩ :=
    Emission.conditional_grouping ⟨false, false⟩ 0 chosenTwice chosenTwice_parsed built
  exact ⟨text, lexemes, emitted, lexed, grouping, by simp [chosenTwice]⟩

def assignedTest : Expr :=
  .conditional (.assign (.ident "x") (.ident "y")) (.ident "a") (.ident "b")

theorem Emission.assignedTest_regrouped :
    Program.ofText "(x = y) ? a : b;" = .ok [.expr assignedTest] ∧
    ∃ lexemes, Emission.expr ⟨false, false⟩ 0 assignedTest = .ok "(x = y ? a : b)" ∧
      Cpp.lexemes? "(x = y ? a : b)".toList = some lexemes ∧
      Cpp.Parses Cpp.assignmentLevel lexemes
        (.assign (.leaf ['x']) (.conditional (.leaf ['y']) (.leaf ['a']) (.leaf ['b']))) ∧
      ¬ Cpp.Parses Cpp.assignmentLevel lexemes
        (.conditional (.assign (.leaf ['x']) (.leaf ['y'])) (.leaf ['a']) (.leaf ['b'])) := by
  have letter (c : Char) (first : Token.isNameStart c = true) : IsName (String.ofList [c]) :=
    ⟨c, [], String.toList_ofList, first, rfl⟩
  have groups : Cpp.Groups "(x = y ? a : b)" assignedTest :=
    .conditional (.assign (letter 'x' rfl) (.ident (letter 'y' rfl))) (.ident (letter 'a' rfl))
      (.ident (letter 'b' rfl))
  obtain ⟨lexemes, operand, parses⟩ := groups.loose
  refine ⟨by with_unfolding_all rfl, lexemes, rfl, operand.lexes.lexemes?, parses, fun other => ?_⟩
  cases Cpp.parses_unique parses other

end ScriptCpp
