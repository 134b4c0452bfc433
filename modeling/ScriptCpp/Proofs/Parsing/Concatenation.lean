import Mathlib
import ScriptCpp.Proofs.Lexing.Seam
import ScriptCpp.Proofs.Parsing.Continuation
import ScriptCpp.Proofs.Parsing.Source

set_option autoImplicit false

namespace ScriptCpp

namespace Parser

variable {α : Type} {F : Token.Kind → Prop}

theorem settles_commaSeparated {item : Parser α} (settles : item.Settles) :
    (commaSeparated item).Settles := by
  refine settles.bind fun first => Extends.bind (Extends.iterate ?_ ?_ fun _ _ => False.elim) fun items =>
    .pure
  · intro g moves items t
    simp only [moves.kind]
  · intro items t q found
    split at found
    · cases found
      exact settles.map
    · cases found

theorem extends_parameterList : parameterList.Extends F := by
  refine Extends.expectSymbol.bind fun _ => Extends.accept_then .pure ?_ ?_
  · exact Extends.closed (settles_commaSeparated .expect) fun _ => .pure
  · exact strict_bind_left (strict_bind_left (strict_expect _ _))

theorem extends_importStmt : importStmt.Extends F :=
  Extends.expect.bind fun _ => Extends.expectSymbol.bind fun _ => .pure

theorem settles_catchParam : catchParam.Settles := by
  refine Extends.bind (.accept fun _ => False.elim) fun given => ?_
  cases given with
  | true => exact Extends.expect.bind fun _ => Extends.expectSymbol.bind fun _ => .pure
  | false => exact .pure

theorem extends_closing {s : Stmt} {complaint : Complaint} : (closing s complaint).Extends F :=
  Extends.expectSymbol.bind fun _ => .pure

structure Continuing (inner : Nested) : Prop where
  statement : inner.statement.Extends Token.Kind.endsStmt
  assignment : inner.assignment.Settles
  conditional : inner.conditional.Settles
  unary : inner.unary.Settles

namespace Continuing

variable {inner : Nested} (level : Continuing inner)

include level

theorem blockOf (place : BlockPlace) : (blockOf inner place).Extends F :=
  Extends.expectSymbol.bind fun _ => Extends.closed
    (.many (fun g moves t => by rw [moves.kind]) level.statement.settles) fun _ => .pure

theorem expressionList (close : Symbol) : (expressionList inner close).Settles := by
  refine Extends.sees.bind fun empty => ?_
  cases empty with
  | true => exact .pure
  | false => exact settles_commaSeparated level.assignment

theorem callArguments : (callArguments inner).Extends F :=
  Extends.closed (level.expressionList _) fun _ => .pure

theorem parenthesized : (parenthesized inner).Settles := by
  refine (level.expressionList _).bind fun items => Extends.expectSymbol.bind fun _ =>
    Extends.sees.bind fun arrow => ?_
  cases arrow with
  | true =>
    simp only [if_true]
    split
    · exact .fail
    · refine Extends.skip.bind fun _ => Extends.sees.bind fun braces => ?_
      cases braces with
      | true => exact (level.blockOf _).bind fun _ => .pure
      | false => exact level.assignment.bind fun _ => .pure
  | false =>
    simp only [Bool.false_eq_true, if_false]
    split
    · exact .pure
    · exact .fail
    · exact .fail

theorem construction : (construction inner).Settles := by
  refine Extends.expect.bind fun className => Extends.bind (.accept fun _ => False.elim) fun given => ?_
  cases given with
  | true => exact level.callArguments.bind fun _ => .pure
  | false => exact .pure

theorem arrayElements : (arrayElements inner).Settles :=
  Extends.closed (level.expressionList _) fun _ => .pure

theorem primary : (primary inner).Settles := by
  refine Extends.onToken ?_ ?_ (.fails fun stop ts r read => by cases read) fun read => by cases read
  · intro g moves t
    simp only [moves.kind, moves.text]
  · intro t q found
    split at found
    · cases found
      exact .pure
    · obtain ⟨value, -, rfl⟩ := Option.map_eq_some_iff.mp found
      exact .pure
    · cases found
      exact .pure
    · cases found
      exact .pure
    · cases found
      exact level.construction
    · cases found
      exact level.assignment.map
    · cases found
      exact level.arrayElements
    · cases found
      exact level.parenthesized
    · cases found

theorem access {object : Expr} {t : Token} {q : Parser Expr} (known : access inner object t = some q) :
    q.Settles := by
  unfold Parser.access at known
  split at known
  · cases known
    exact Extends.propertyName.map
  · cases known
    exact Extends.closed level.assignment fun _ => .pure
  · cases known
    exact level.callArguments.map
  · cases known

theorem accessChain : (accessChain inner).Settles := by
  refine level.primary.bind fun first => .iterate ?_ (fun _ _ _ => level.access) fun _ _ => False.elim
  intro g moves object t
  simp only [Parser.access, moves.kind]

theorem unaryOf : (unaryOf inner).Settles := by
  refine Extends.bind (.accept fun _ => False.elim) fun minus => ?_
  cases minus with
  | true => exact level.unary.bind fun _ => .pure
  | false => exact level.accessChain

omit level in
theorem leftChain {op? : Symbol → Option BinaryOp} {operand : Parser Expr}
    (settles : operand.Settles) : (leftChain op? operand).Settles := by
  refine settles.bind fun first => .iterate ?_ ?_ fun _ _ => False.elim
  · intro g moves left t
    simp only [joined, moves.kind]
  · intro left t q found
    unfold joined at found
    split at found
    · obtain ⟨op, -, rfl⟩ := Option.map_eq_some_iff.mp found
      exact settles.map
    · cases found

theorem disjunction : (disjunction inner).Settles :=
  leftChain (leftChain (leftChain (leftChain (leftChain level.unaryOf))))

theorem conditionalOf : (conditionalOf inner).Settles := by
  refine level.disjunction.bind fun test => Extends.bind (.accept fun _ => False.elim) fun asked => ?_
  cases asked with
  | true => exact Extends.closed level.assignment fun _ => level.conditional.bind fun _ => .pure
  | false => exact .pure

theorem assignmentOf : (assignmentOf inner).Settles := by
  refine level.conditionalOf.bind fun target => Extends.sees.bind fun assigns => ?_
  cases assigns with
  | true =>
    simp only [if_true]
    split
    · exact Extends.skip.bind fun _ => level.assignment.bind fun _ => .pure
    · exact .fail
  | false => exact .pure

theorem condition (construct : Construct) : (condition inner construct).Extends F :=
  Extends.expectSymbol.bind fun _ => Extends.closed level.assignment fun _ => .pure

theorem declaration : (declaration inner).Extends F := by
  refine Extends.expect.bind fun name => Extends.accept_then .pure ?_ ?_
  · exact Extends.expectSymbol.bind fun _ => Extends.closed level.assignment fun _ => .pure
  · exact strict_bind_left (strict_expectSymbol _ _)

theorem functionDecl (isAsync : Bool) : (functionDecl inner isAsync).Extends F :=
  Extends.expect.bind fun _ => extends_parameterList.bind fun _ => (level.blockOf _).bind fun _ => .pure

theorem asyncFunction : (asyncFunction inner).Extends F :=
  Extends.expect.bind fun _ => level.functionDecl true

theorem returnStmt : (returnStmt inner).Extends F := by
  refine Extends.accept_then .pure ?_ ?_
  · exact Extends.closed level.assignment fun _ => .pure
  · exact strict_bind_right fun _ => strict_bind_left (strict_expectSymbol _ _)

theorem nextArm {a : Arms} {t : Token} {q : Parser Arms} (known : nextArm inner a t = some q) :
    q.Extends F := by
  unfold Parser.nextArm at known
  split at known
  · cases known
    refine Extends.accept_then ?_ ?_ ?_
    · exact (level.condition _).bind fun _ => (level.blockOf _).bind fun _ => .pure
    · exact (level.blockOf _).bind fun _ => .pure
    · exact strict_bind_left (strict_bind_left (strict_expectSymbol _ _))
  · cases known

theorem branch : (branch inner).Extends Token.Kind.endsStmt := by
  refine (level.condition _).bind fun test => (level.blockOf _).bind fun body =>
    Extends.bind (.iterate ?_ (fun _ _ _ => level.nextArm) ?_) fun arms => .pure
  · intro g moves a t
    simp only [Parser.nextArm, moves.kind]
  · intro a t ends
    simp [Parser.nextArm, ends.1]

theorem whileLoop : (whileLoop inner).Extends F :=
  (level.condition _).bind fun _ => (level.blockOf _).bind fun _ => .pure

theorem optionalBefore (sign : Symbol) : (optionalBefore inner sign).Settles := by
  refine Extends.sees.bind fun absent => ?_
  cases absent with
  | true => exact .pure
  | false => exact level.assignment.bind fun _ => .pure

theorem loopStart : (loopStart inner).Settles := by
  refine Extends.bind (.accept fun _ => False.elim) fun empty => ?_
  cases empty with
  | true => exact .pure
  | false => exact level.statement.settles.bind fun _ => .pure

theorem forLoop : (forLoop inner).Extends F := by
  refine Extends.expectSymbol.bind fun _ => Extends.before level.loopStart (fun start => ?_) fun start =>
    Extends.closed (level.optionalBefore _) fun test => Extends.closed (level.optionalBefore _)
      fun update => (level.blockOf _).bind fun body => .pure
  exact strict_bind_right fun _ => strict_bind_left (strict_expectSymbol _ _)

theorem fieldValue : (fieldValue inner).Settles := by
  refine Extends.bind (.accept fun _ => False.elim) fun given => ?_
  cases given with
  | true => exact level.assignment.bind fun _ => .pure
  | false => exact .pure

theorem memberNamed (name : String) : (memberNamed inner name).Settles := by
  refine Extends.sees.bind fun method => ?_
  cases method with
  | true => exact extends_parameterList.bind fun _ => (level.blockOf _).bind fun _ => .pure
  | false => exact Extends.closed level.fieldValue fun _ => .pure

theorem classMember : (classMember inner).Settles :=
  Extends.bind (.accept fun _ => False.elim) fun _ => Extends.bind (.accept fun _ => False.elim) fun _ =>
    Extends.expect.bind fun name => level.memberNamed name

theorem classDecl : (classDecl inner).Extends F :=
  Extends.expect.bind fun _ => Extends.expectSymbol.bind fun _ => Extends.closed
    (.many (fun g moves t => by rw [moves.kind]) level.classMember) fun _ => .pure

theorem clauseBody : (clauseBody inner).Settles := by
  refine Extends.sees.bind fun braces => ?_
  cases braces with
  | true => exact level.blockOf _
  | false => exact .many (fun g moves t => by rw [moves.kind]) level.statement.settles

theorem clause : (clause inner).Settles := by
  refine Extends.onToken ?_ ?_ .fail (strict_fail _)
  · intro g moves t
    simp only [moves.kind]
  · intro t q found
    split at found
    · cases found
      exact Extends.closed level.assignment fun _ => level.clauseBody.bind fun _ => .pure
    · cases found
      exact Extends.expectSymbol.bind fun _ => level.clauseBody.bind fun _ => .pure
    · cases found

theorem switchStmt : (switchStmt inner).Extends F :=
  (level.condition _).bind fun _ => Extends.expectSymbol.bind fun _ => Extends.closed
    (.many (fun g moves t => by rw [moves.kind]) level.clause) fun _ => .pure

theorem catchPart : (catchPart inner).Extends Token.Kind.endsStmt := by
  refine Extends.bind (.accept fun _ ends => ends.2.1) fun given => ?_
  cases given with
  | true =>
    refine Extends.before settles_catchParam (fun _ => ?_) fun _ => (level.blockOf _).bind fun _ => .pure
    exact strict_bind_left (strict_bind_left (strict_expectSymbol _ _))
  | false => exact .pure

theorem finallyPart : (finallyPart inner).Extends Token.Kind.endsStmt := by
  refine Extends.bind (.accept fun _ ends => ends.2.2) fun given => ?_
  cases given with
  | true => exact (level.blockOf _).bind fun _ => .pure
  | false => exact .pure

theorem attempt : (attempt inner).Extends Token.Kind.endsStmt :=
  (level.blockOf _).bind fun _ => level.catchPart.bind fun _ => level.finallyPart.bind fun _ => .pure

theorem expressionStmt : (expressionStmt inner).Extends F :=
  Extends.closed level.assignment fun _ => .pure

theorem statementOf : (statementOf inner).Extends Token.Kind.endsStmt := by
  refine Extends.onToken ?_ ?_ level.expressionStmt ?_
  · intro g moves t
    simp only [moves.kind]
  · intro t q found
    split at found
    · cases found; exact level.declaration
    · cases found; exact level.functionDecl false
    · cases found; exact level.asyncFunction
    · cases found; exact level.returnStmt
    · cases found; exact level.branch
    · cases found; exact level.whileLoop
    · cases found; exact level.forLoop
    · cases found; exact level.classDecl
    · cases found; exact level.switchStmt
    · cases found; exact extends_closing
    · cases found; exact extends_closing
    · cases found; exact extends_importStmt
    · cases found; exact level.attempt
    · cases found
  · exact strict_bind_right fun _ => strict_bind_left (strict_expectSymbol _ _)

end Continuing

theorem continuing_nested (n : Nat) : Continuing (nested n) := by
  induction n with
  | zero => exact ⟨.fail, .fail, .fail, .fail⟩
  | succ n level =>
    exact ⟨level.statementOf, level.assignmentOf, level.conditionalOf, level.unaryOf⟩

/-- A success on some tokens starts with one of a kind in `first`. -/
def Begins {α : Type} (p : Parser α) (first : Token.Kind → Prop) : Prop :=
  ∀ ⦃stop t : Token⦄ ⦃ts : List Token⦄ ⦃r : α × List Token⦄, p.run stop (t :: ts) = .ok r →
    first t.kind

theorem Begins.bind {β : Type} {p : Parser α} {f : α → Parser β} (begins : p.Begins F) :
    (p >>= f).Begins F := by
  intro stop t ts r read
  rw [run_bind] at read
  split at read
  · cases read
  · next a rest taken => exact begins taken

theorem begins_fail {complaint : Complaint} : (fail complaint : Parser α).Begins F :=
  fun stop t ts r read => by cases read

theorem begins_primary (inner : Nested) : (primary inner).Begins Token.Kind.endsStmt := by
  intro stop t ts r read
  refine ⟨fun isWord => ?_, fun isWord => ?_, fun isWord => ?_⟩
  all_goals
    simp only [primary, onToken, isWord] at read
    cases read

theorem begins_unaryOf (inner : Nested) : (unaryOf inner).Begins Token.Kind.endsStmt := by
  intro stop t ts r read
  simp only [unaryOf, acceptSymbol, run_bind, run_accept] at read
  by_cases minus : t.kind = .symbol .minus
  · simp [Token.Kind.endsStmt, minus]
  · rw [if_neg minus] at read
    exact (begins_primary inner).bind read

theorem begins_conditionalOf (inner : Nested) : (conditionalOf inner).Begins Token.Kind.endsStmt :=
  (begins_unaryOf inner).bind.bind.bind.bind.bind.bind

theorem begins_assignment (n : Nat) : (nested n).assignment.Begins Token.Kind.endsStmt := by
  cases n with
  | zero => exact begins_fail
  | succ n => exact (begins_conditionalOf (nested n)).bind

-- So the words that go on with a statement never start one.
theorem begins_statement (n : Nat) : (nested n).statement.Begins Token.Kind.endsStmt := by
  cases n with
  | zero => exact begins_fail
  | succ n =>
    intro stop t ts r read
    refine ⟨fun isWord => ?_, fun isWord => ?_, fun isWord => ?_⟩
    all_goals
      have other : (expressionStmt (nested n)).run stop (t :: ts) = .ok r := by
        simpa only [nested, statementOf, onToken, isWord] using read
      have begins : t.kind.endsStmt := (begins_assignment n).bind other
      simp [Token.Kind.endsStmt, isWord] at begins

theorem manyFrom_append {item : Parser α} {strict : item.Strict} (reads : item.Extends F)
    {g : Token → Token} (moves : Moves g) {stop stop' : Token} {ts more : List Token}
    {as others : List α} (first : manyFrom (fun _ => false) item @strict stop ts = .ok (as, []))
    (follows : F (more.headD stop').kind)
    (second : manyFrom (fun _ => false) item @strict stop' more = .ok (others, [])) :
    manyFrom (fun _ => false) item @strict stop' (ts.map g ++ more) = .ok (as ++ others, []) := by
  fun_induction manyFrom (fun _ => false) item @strict stop ts generalizing as with
  | case1 =>
    cases first
    exact second
  | case2 _ _ stopped => cases stopped
  | case3 => cases first
  | case4 => cases first
  | case5 t ts going a left taken as last later ih =>
    cases first
    have again := reads taken moves stop' more fun _ => follows
    have behind := ih later
    rw [List.map_cons, List.cons_append] at again ⊢
    rw [manyFrom, if_neg going]
    split
    · next failed => cases failed.symm.trans again
    · next b left' found =>
      cases found.symm.trans again
      rw [behind]
      rfl

theorem manyFrom_moves {item : Parser α} {strict : item.Strict} (reads : item.Extends F)
    {g : Token → Token} (moves : Moves g) {stop stop' : Token} (ends : F stop'.kind)
    {ts : List Token} {as : List α}
    (read : manyFrom (fun _ => false) item @strict stop ts = .ok (as, [])) :
    manyFrom (fun _ => false) item @strict stop' (ts.map g) = .ok (as, []) := by
  have none : manyFrom (fun _ => false) item @strict stop' [] = .ok ([], []) := by rw [manyFrom]
  have whole := manyFrom_append reads moves read (show F (([] : List Token).headD stop').kind from ends)
    none
  rwa [List.append_nil, List.append_nil] at whole

theorem manyFrom_begins {item : Parser α} {strict : item.Strict} (begins : item.Begins F)
    {stop t : Token} {ts : List Token} {r : List α × List Token}
    (read : manyFrom (fun _ => false) item @strict stop (t :: ts) = .ok r) : F t.kind := by
  rw [manyFrom, if_neg Bool.false_ne_true] at read
  split at read
  · cases read
  · next a left taken => exact begins taken

theorem program_append {stop₁ stop₂ stop : Token} (isEof : stop.kind = .eof) {ts₁ ts₂ : List Token}
    {p₁ p₂ : Program} (first : program.run stop₁ ts₁ = .ok (p₁, []))
    (second : program.run stop₂ ts₂ = .ok (p₂, [])) {g : Token → Token} (moves : Moves g) :
    program.run stop (ts₁ ++ ts₂.map g) = .ok (p₁ ++ p₂, []) := by
  have reads := (continuing_nested maxNesting).statement
  have ends : stop.kind.endsStmt := by simp [isEof, Token.Kind.endsStmt]
  have moved : program.run stop (ts₂.map g) = .ok (p₂, []) := manyFrom_moves reads moves ends second
  have follows : Token.Kind.endsStmt ((ts₂.map g).headD stop).kind := by
    cases ts₂ with
    | nil => exact ends
    | cons t ts =>
      rw [List.map_cons, List.headD_cons, moves.kind]
      exact manyFrom_begins (begins_statement maxNesting) second
  have still : Moves (id : Token → Token) := ⟨fun _ => rfl, fun _ => rfl⟩
  have both := manyFrom_append reads still first follows moved
  rwa [List.map_id] at both

end Parser

namespace Program

/-- Texts put together with a newline between them have the statements of each. -/
theorem ofText_newline_append {text₁ text₂ : String} {program₁ program₂ : Program}
    (first : ofText text₁ = .ok program₁) (second : ofText text₂ = .ok program₂) :
    ofText (text₁ ++ "\n" ++ text₂) = .ok (program₁ ++ program₂) := by
  obtain ⟨ts₁, lexed₁, parsed₁⟩ := ofText_eq_ok_iff.mp first
  obtain ⟨ts₂, lexed₂, parsed₂⟩ := ofText_eq_ok_iff.mp second
  have moves : Parser.Moves (·.below (text₁.toList.count '\n' + 1)) := ⟨fun _ => rfl, fun _ => rfl⟩
  exact ofText_eq_ok_iff.mpr
    ⟨_, Token.ofText_newline lexed₁ lexed₂, Parser.program_append rfl parsed₁ parsed₂ moves⟩

-- An open quote in a comment at the end, and an `if` with no `else` yet.
def commented : String := "try \x7b a; \x7d catch (e) \x7b \x7d if (a) \x7b b; \x7d // \"else"

def branching : String := "if (a) \x7b b(1); \x7d else \x7b \x7d"

theorem ofText_newline_append_commented : ∃ program₁ program₂, ofText commented = .ok program₁ ∧
    ofText branching = .ok program₂ ∧ program₁.length = 2 ∧ program₂.length = 1 ∧
      ofText (commented ++ "\n" ++ branching) = .ok (program₁ ++ program₂) := by
  have two : (ofText commented).map List.length = .ok 2 := by decide +kernel
  have one : (ofText branching).map List.length = .ok 1 := by decide +kernel
  cases first : ofText commented with
  | error e => simp [first, Except.map] at two
  | ok program₁ =>
    cases second : ofText branching with
    | error e => simp [second, Except.map] at one
    | ok program₂ =>
      refine ⟨program₁, program₂, rfl, rfl, ?_, ?_, ofText_newline_append first second⟩
      · simpa [first, Except.map] using two
      · simpa [second, Except.map] using one

end Program

end ScriptCpp
