import Mathlib
import ScriptCpp.Parser.Statement

set_option autoImplicit false

namespace ScriptCpp

/-- Complaints that a parser raises by itself. The others are about a stream as a whole, or about the
text of a number. -/
def Complaint.isPlain : Complaint → Bool
  | .emptyStream | .endMissing | .numeral => false
  | _ => true

namespace Parser

/-!
The grammar as a composition. Its parsers are open: each of them is given the parsers for the next
level. A property that all ways of putting parsers together keep, and that entering the next level
has, holds of every parser in the grammar.
-/

section Loops

variable {α σ : Type} {step : σ → Token → Option (Parser σ)} {s : σ} {item : Parser α}
  {stops : Token → Bool} {strict : item.Strict} {stop t : Token} {ts : List Token}

theorem run_iterate_nil : (iterate step s).run stop [] = .ok (s, []) := by
  change iterateFrom step s stop [] = _
  rw [iterateFrom]

theorem run_iterate_stays (unknown : step s t = none) :
    (iterate step s).run stop (t :: ts) = .ok (s, t :: ts) := by
  change iterateFrom step s stop (t :: ts) = _
  simp only [iterateFrom, unknown]

theorem run_iterate_goes {q : Parser σ} (known : step s t = some q) :
    (iterate step s).run stop (t :: ts) = (q >>= iterate step).run stop ts := by
  change iterateFrom step s stop (t :: ts) = (Parser.bind q (iterate step)).run stop ts
  simp only [iterateFrom, known, Parser.bind]
  split
  · next failed => simp only [failed]
  · next read =>
    simp only [read]
    rfl

theorem run_many_nil : (many stops item @strict).run stop [] = .ok ([], []) := by
  change manyFrom stops item @strict stop [] = _
  rw [manyFrom]

theorem run_many_stops (stopped : stops t = true) :
    (many stops item @strict).run stop (t :: ts) = .ok ([], t :: ts) := by
  change manyFrom stops item @strict stop (t :: ts) = _
  rw [manyFrom, if_pos stopped]

theorem run_many_goes (going : stops t = false) :
    (many stops item @strict).run stop (t :: ts) =
      (item >>= fun a => many stops item @strict >>= fun as => Pure.pure (a :: as)).run stop (t :: ts) := by
  change manyFrom stops item @strict stop (t :: ts) =
    (Parser.bind item fun a => Parser.bind (many stops item @strict) fun as => Parser.pure (a :: as)).run
      stop (t :: ts)
  simp only [manyFrom, going, Bool.false_eq_true, if_false, Parser.bind]
  split
  · next failed => simp only [failed]
  · next a left read =>
    have more : (many stops item @strict).run stop left = manyFrom stops item @strict stop left := rfl
    simp only [read, more]
    rcases manyFrom stops item @strict stop left with e | ⟨as, last⟩
    · rfl
    · rfl

end Loops

/-- Whether a parser goes on is decided without the next level, and how it goes on has the property. -/
inductive Decides (P : (α : Type) → (Nested → Parser α) → Prop) {α : Type}
    (next : Nested → Option (Parser α)) : Prop
  | stays (unknown : ∀ inner, next inner = none)
  | goes {q : Nested → Parser α} (known : ∀ inner, next inner = some (q inner)) (holds : P α q)

structure Compositional (P : (α : Type) → (Nested → Parser α) → Prop) : Prop where
  pure {α : Type} (a : α) : P α fun _ => Pure.pure a
  fail {α : Type} (complaint : Complaint) (plain : complaint.isPlain = true) : P α fun _ => fail complaint
  peek : P Token fun _ => peek
  skip : P Unit fun _ => skip
  bind {α β : Type} {F : Nested → Parser α} {G : Nested → α → Parser β} :
    P α F → (∀ a, P β fun inner => G inner a) → P β fun inner => F inner >>= G inner
  onToken {α : Type} {known : Nested → Token → Option (Parser α)} {otherwise : Nested → Parser α} :
    (∀ t, Decides P fun inner => known inner t) → P α otherwise →
      P α fun inner => onToken (known inner) (otherwise inner)
  /-- A number that is not known how to go on from is one that cannot be read. -/
  literal {known : Nested → Token → Option (Parser Expr)} :
    (∀ t, Decides P fun inner => known inner t) →
      (∀ inner t, t.kind = .number → Binary64.ofText? t.text ≠ none → known inner t ≠ none) →
        P Expr fun inner => Parser.onToken (known inner)
          (Parser.peek >>= fun t =>
            Parser.fail (if t.kind = .number then .numeral else .unexpectedToken))
  iterate {σ : Type} {step : Nested → σ → Token → Option (Parser σ)} :
    (∀ s t, Decides P fun inner => step inner s t) → ∀ s, P σ fun inner => iterate (step inner) s
  many {α : Type} {item : Nested → Parser α} (strict : ∀ inner, (item inner).Strict)
    {stops : Token → Bool} : P α item → P (List α) fun inner => many stops (item inner) (strict inner)
  statement : P Stmt Nested.statement
  assignment : P Expr Nested.assignment
  conditional : P Expr Nested.conditional
  unary : P Expr Nested.unary

namespace Compositional

variable {P : (α : Type) → (Nested → Parser α) → Prop} (law : Compositional P) {α β : Type}

include law

theorem returns {F : Nested → Parser α} {f : α → β} (first : P α F) :
    P β fun inner => F inner >>= fun a => Pure.pure (f a) :=
  law.bind first fun a => law.pure (f a)

theorem map {F : Nested → Parser α} {f : α → β} (first : P α F) : P β fun inner => f <$> F inner :=
  law.returns first

theorem choice {F : Nested → Parser Bool} {G : Nested → Bool → Parser α} (first : P Bool F)
    (yes : P α fun inner => G inner true) (no : P α fun inner => G inner false) :
    P α fun inner => F inner >>= G inner := by
  apply law.bind first
  intro answer
  cases answer with
  | true => exact yes
  | false => exact no

theorem ofKind (kind : Token.Kind) {f : Token → α} {other : Parser α} (otherwise : P α fun _ => other) :
    P α fun _ => Parser.onToken (fun t => if t.kind = kind then some (Pure.pure (f t)) else none) other := by
  apply law.onToken _ otherwise
  intro t
  by_cases same : t.kind = kind
  · exact .goes (fun _ => if_pos same) (law.pure (f t))
  · exact .stays fun _ => if_neg same

theorem expect (kind : Token.Kind) (complaint : Complaint) (plain : complaint.isPlain = true) :
    P String fun _ => expect kind complaint :=
  law.ofKind kind (law.fail complaint plain)

theorem expectSymbol (sign : Symbol) (complaint : Complaint)
    (plain : complaint.isPlain = true) : P Unit fun _ => expectSymbol sign complaint :=
  law.returns (law.expect _ _ plain)

theorem accept (kind : Token.Kind) : P Bool fun _ => accept kind :=
  law.ofKind kind (law.pure false)

theorem sees (sign : Symbol) : P Bool fun _ => sees sign :=
  law.returns law.peek

theorem behind {F : Nested → Parser α} {sign : Symbol} {complaint : Complaint} (second : P α F)
    (plain : complaint.isPlain = true) :
    P α fun inner => Parser.expectSymbol sign complaint >>= fun _ => F inner :=
  law.bind (law.expectSymbol _ _ plain) fun _ => second

theorem ended {F : Nested → Parser α} {f : α → β} {sign : Symbol} {complaint : Complaint}
    (first : P α F) (plain : complaint.isPlain = true) :
    P β fun inner => F inner >>= fun a => Parser.expectSymbol sign complaint >>= fun _ =>
      Pure.pure (f a) :=
  law.bind first fun _ => law.returns (law.expectSymbol _ _ plain)

theorem propertyName : P String fun _ => propertyName := by
  apply law.bind law.peek
  intro t
  cases named : t.kind = .identifier || (Keyword.ofText? t.text).isSome with
  | true => exact law.returns law.skip
  | false => exact law.fail _ rfl

theorem commaSeparated {item : Nested → Parser α} (each : P α item) :
    P (List α) fun inner => commaSeparated (item inner) := by
  apply law.bind each
  intro first
  refine law.returns (law.iterate ?_ _)
  intro items t
  by_cases comma : t.kind = .symbol .comma
  · exact .goes (fun _ => if_pos comma) (law.map each)
  · exact .stays fun _ => if_neg comma

theorem blockOf (place : BlockPlace) : P (List Stmt) fun inner => blockOf inner place :=
  law.behind (law.ended (law.many @Nested.strict law.statement) rfl) rfl

theorem expressionList (close : Symbol) : P (List Expr) fun inner => expressionList inner close :=
  law.choice (law.sees close) (law.pure []) (law.commaSeparated law.assignment)

theorem callArguments : P (List Expr) callArguments :=
  law.ended (law.expressionList _) rfl

theorem parenthesized : P Expr parenthesized := by
  apply law.bind (law.expressionList _)
  intro items
  refine law.behind ?_ rfl
  apply law.choice (law.sees _)
  · simp only [if_true]
    cases items.mapM Expr.name? with
    | none => exact law.fail _ rfl
    | some params =>
      exact law.bind law.skip fun _ => law.choice (law.sees _) (law.returns (law.blockOf _))
        (law.returns law.assignment)
  · simp only [Bool.false_eq_true, if_false]
    cases items with
    | nil => exact law.fail _ rfl
    | cons e rest =>
      cases rest with
      | nil => exact law.pure e
      | cons => exact law.fail _ rfl

theorem construction : P Expr construction :=
  law.bind (law.expect _ _ rfl) fun _ =>
    law.choice (law.accept _) (law.returns law.callArguments) (law.pure _)

theorem arrayElements : P Expr arrayElements :=
  law.ended (law.expressionList _) rfl

theorem primary : P Expr primary := by
  apply law.literal
  swap
  · intro inner t isNumber readable
    simp [isNumber, readable]
  rintro ⟨kind, text, position⟩
  cases kind with
  | eof => exact .stays fun _ => rfl
  | identifier => exact .goes (fun _ => rfl) (law.pure _)
  | number =>
    cases Binary64.ofText? text with
    | none => exact .stays fun _ => rfl
    | some value => exact .goes (fun _ => rfl) (law.pure _)
  | string => exact .goes (fun _ => rfl) (law.pure _)
  | keyword word =>
    cases word with
    | this_ => exact .goes (fun _ => rfl) (law.pure _)
    | new_ => exact .goes (fun _ => rfl) law.construction
    | await_ => exact .goes (fun _ => rfl) (law.map law.assignment)
    | _ => exact .stays fun _ => rfl
  | symbol sign =>
    cases sign with
    | openBracket => exact .goes (fun _ => rfl) law.arrayElements
    | openParen => exact .goes (fun _ => rfl) law.parenthesized
    | _ => exact .stays fun _ => rfl

theorem access (object : Expr) (t : Token) : Decides P fun inner => access inner object t := by
  obtain ⟨kind, text, position⟩ := t
  cases kind with
  | symbol sign =>
    cases sign with
    | dot => exact .goes (fun _ => rfl) (law.map law.propertyName)
    | openBracket => exact .goes (fun _ => rfl) (law.ended law.assignment rfl)
    | openParen => exact .goes (fun _ => rfl) (law.map law.callArguments)
    | _ => exact .stays fun _ => rfl
  | _ => exact .stays fun _ => rfl

theorem accessChain : P Expr accessChain :=
  law.bind law.primary fun e => law.iterate law.access e

theorem unaryOf : P Expr unaryOf :=
  law.choice (law.accept _) (law.returns law.unary) law.accessChain

theorem leftChain (op? : Symbol → Option BinaryOp) {operand : Nested → Parser Expr}
    (each : P Expr operand) : P Expr fun inner => leftChain op? (operand inner) := by
  apply law.bind each
  intro first
  apply law.iterate
  rintro left ⟨kind, text, position⟩
  cases kind with
  | symbol sign =>
    cases op : op? sign with
    | none => exact .stays fun _ => by simp only [joined, op, Option.map_none]
    | some => exact .goes (fun _ => by simp only [joined, op, Option.map_some]; rfl) (law.map each)
  | _ => exact .stays fun _ => rfl

theorem disjunction : P Expr disjunction :=
  law.leftChain _ <| law.leftChain _ <| law.leftChain _ <| law.leftChain _ <| law.leftChain _ law.unaryOf

theorem conditionalOf : P Expr conditionalOf :=
  law.bind law.disjunction fun _ => law.choice (law.accept _)
    (law.bind law.assignment fun _ => law.behind (law.returns law.conditional) rfl) (law.pure _)

theorem assignmentOf : P Expr assignmentOf := by
  apply law.bind law.conditionalOf
  intro target
  apply law.choice (law.sees _) _ (law.pure target)
  cases isTarget target with
  | true => exact law.bind law.skip fun _ => law.returns law.assignment
  | false => exact law.fail _ rfl

theorem condition (construct : Construct) : P Expr fun inner => condition inner construct :=
  law.behind (law.ended law.assignment rfl) rfl

theorem parameterList : P (List String) fun _ => parameterList :=
  law.behind (law.choice (law.accept _) (law.pure []) (law.ended (law.commaSeparated (law.expect _ _ rfl)) rfl)) rfl

theorem declaration : P Stmt declaration :=
  law.bind (law.expect _ _ rfl) fun _ => law.choice (law.accept _) (law.pure _)
    (law.behind (law.ended law.assignment rfl) rfl)

theorem functionDecl (isAsync : Bool) : P Stmt fun inner => functionDecl inner isAsync :=
  law.bind (law.expect _ _ rfl) fun _ => law.bind law.parameterList fun _ => law.returns (law.blockOf _)

theorem asyncFunction : P Stmt asyncFunction :=
  law.bind (law.expect _ _ rfl) fun _ => law.functionDecl true

theorem returnStmt : P Stmt returnStmt :=
  law.choice (law.accept _) (law.pure _) (law.ended law.assignment rfl)

theorem nextArm (a : Arms) (t : Token) : Decides P fun inner => nextArm inner a t := by
  cases going : t.kind = .keyword .else_ && a.final.isNone with
  | false => exact .stays fun inner => by rw [Parser.nextArm, going]; rfl
  | true =>
    exact .goes (fun inner => by rw [Parser.nextArm, going]; rfl) (law.choice (law.accept _)
      (law.bind (law.condition _) fun _ => law.returns (law.blockOf _)) (law.returns (law.blockOf _)))

theorem branch : P Stmt branch :=
  law.bind (law.condition _) fun _ => law.bind (law.blockOf _) fun _ =>
    law.returns (law.iterate law.nextArm _)

theorem whileLoop : P Stmt whileLoop :=
  law.bind (law.condition _) fun _ => law.returns (law.blockOf _)

theorem optionalBefore (sign : Symbol) : P (Option Expr) fun inner => optionalBefore inner sign :=
  law.choice (law.sees _) (law.pure none) (law.returns law.assignment)

theorem loopStart : P (Option Stmt) loopStart :=
  law.choice (law.accept _) (law.pure none) (law.returns law.statement)

theorem forLoop : P Stmt forLoop :=
  law.behind (law.bind law.loopStart fun _ => law.bind (law.optionalBefore _) fun _ =>
    law.behind (law.bind (law.optionalBefore _) fun _ => law.behind (law.returns (law.blockOf _)) rfl) rfl) rfl

theorem fieldValue : P (Option Expr) fieldValue :=
  law.choice (law.accept _) (law.returns law.assignment) (law.pure none)

theorem memberNamed (name : String) : P Member fun inner => memberNamed inner name :=
  law.choice (law.sees _) (law.bind law.parameterList fun _ => law.returns (law.blockOf _))
    (law.ended law.fieldValue rfl)

theorem classMember : P Member classMember :=
  law.bind (law.accept _) fun _ => law.bind (law.accept _) fun _ =>
    law.bind (law.expect _ _ rfl) fun name => law.memberNamed name

theorem classDecl : P Stmt classDecl :=
  law.bind (law.expect _ _ rfl) fun _ => law.behind (law.ended (law.many strict_classMember law.classMember) rfl) rfl

theorem clauseBody : P (List Stmt) clauseBody :=
  law.choice (law.sees _) (law.blockOf _) (law.many @Nested.strict law.statement)

theorem clause : P Clause clause := by
  apply law.onToken _ (law.fail _ rfl)
  rintro ⟨kind, text, position⟩
  cases kind with
  | keyword word =>
    cases word with
    | case_ =>
      exact .goes (fun _ => rfl) (law.bind law.assignment fun _ => law.behind (law.returns law.clauseBody) rfl)
    | default_ => exact .goes (fun _ => rfl) (law.behind (law.returns law.clauseBody) rfl)
    | _ => exact .stays fun _ => rfl
  | _ => exact .stays fun _ => rfl

theorem switchStmt : P Stmt switchStmt :=
  law.bind (law.condition _) fun _ => law.behind (law.ended (law.many strict_clause law.clause) rfl) rfl

theorem importStmt : P Stmt fun _ => importStmt :=
  law.ended (law.expect _ _ rfl) rfl

theorem catchParam : P (Option String) fun _ => catchParam :=
  law.choice (law.accept _) (law.ended (law.expect _ _ rfl) rfl) (law.pure none)

theorem catchPart : P (Option CatchClause) catchPart :=
  law.choice (law.accept _) (law.bind law.catchParam fun _ => law.returns (law.blockOf _)) (law.pure none)

theorem finallyPart : P (Option (List Stmt)) finallyPart :=
  law.choice (law.accept _) (law.returns (law.blockOf _)) (law.pure none)

theorem attempt : P Stmt attempt :=
  law.bind (law.blockOf _) fun _ => law.bind law.catchPart fun _ => law.returns law.finallyPart

theorem closing (s : Stmt) (complaint : Complaint) (plain : complaint.isPlain = true) :
    P Stmt fun _ => closing s complaint :=
  law.returns (law.expectSymbol _ _ plain)

theorem expressionStmt : P Stmt expressionStmt :=
  law.ended law.assignment rfl

theorem statementOf : P Stmt statementOf := by
  apply law.onToken _ law.expressionStmt
  rintro ⟨kind, text, position⟩
  cases kind with
  | keyword word =>
    cases word with
    | let_ => exact .goes (fun _ => rfl) law.declaration
    | func_ => exact .goes (fun _ => rfl) (law.functionDecl false)
    | async_ => exact .goes (fun _ => rfl) law.asyncFunction
    | return_ => exact .goes (fun _ => rfl) law.returnStmt
    | if_ => exact .goes (fun _ => rfl) law.branch
    | while_ => exact .goes (fun _ => rfl) law.whileLoop
    | for_ => exact .goes (fun _ => rfl) law.forLoop
    | class_ => exact .goes (fun _ => rfl) law.classDecl
    | switch_ => exact .goes (fun _ => rfl) law.switchStmt
    | break_ => exact .goes (fun _ => rfl) (law.closing _ _ rfl)
    | continue_ => exact .goes (fun _ => rfl) (law.closing _ _ rfl)
    | import_ => exact .goes (fun _ => rfl) law.importStmt
    | try_ => exact .goes (fun _ => rfl) law.attempt
    | _ => exact .stays fun _ => rfl
  | _ => exact .stays fun _ => rfl

end Compositional

-- A property of single parsers that the ways of putting them together keep.
structure Hereditary (Q : (α : Type) → Parser α → Prop) : Prop where
  pure {α : Type} (a : α) : Q α (Pure.pure a)
  fail {α : Type} (complaint : Complaint) (plain : complaint.isPlain = true) : Q α (fail complaint)
  peek : Q Token peek
  skip : Q Unit skip
  bind {α β : Type} {p : Parser α} {f : α → Parser β} : Q α p → (∀ a, Q β (f a)) → Q β (p >>= f)
  onToken {α : Type} {known : Token → Option (Parser α)} {otherwise : Parser α} :
    (∀ t q, known t = some q → Q α q) → Q α otherwise → Q α (onToken known otherwise)
  literal {known : Token → Option (Parser Expr)} :
    (∀ t q, known t = some q → Q Expr q) →
      (∀ t, t.kind = .number → Binary64.ofText? t.text ≠ none → known t ≠ none) →
        Q Expr (Parser.onToken known
          (Parser.peek >>= fun t => Parser.fail (if t.kind = .number then .numeral else .unexpectedToken)))
  iterate {σ : Type} {step : σ → Token → Option (Parser σ)} :
    (∀ s t q, step s t = some q → Q σ q) → ∀ s, Q σ (iterate step s)
  many {α : Type} {stops : Token → Bool} {item : Parser α} {strict : item.Strict} :
    Q α item → Q (List α) (many stops item @strict)

namespace Hereditary

variable {Q : (α : Type) → Parser α → Prop}

theorem of_decides {α : Type} {inner : Nested} {next : Nested → Option (Parser α)}
    (decides : Decides (fun α F => Q α (F inner)) next) {q : Parser α} (found : next inner = some q) :
    Q α q := by
  cases decides with
  | stays unknown => cases (unknown inner).symm.trans found
  | goes known holds =>
    cases (known inner).symm.trans found
    exact holds

variable (law : Hereditary Q)

include law

theorem compositional {inner : Nested} (statement : Q Stmt inner.statement)
    (assignment : Q Expr inner.assignment) (conditional : Q Expr inner.conditional)
    (unary : Q Expr inner.unary) : Compositional fun α F => Q α (F inner) where
  pure := law.pure
  fail := law.fail
  peek := law.peek
  skip := law.skip
  bind := law.bind
  onToken decides other := law.onToken (fun t _ found => of_decides (decides t) found) other
  literal decides taken := law.literal (fun t _ found => of_decides (decides t) found) (taken inner)
  iterate decides s := law.iterate (fun s t _ found => of_decides (decides s t) found) s
  many _ _ item := law.many item
  statement := statement
  assignment := assignment
  conditional := conditional
  unary := unary

theorem nested (n : Nat) : Compositional fun α F => Q α (F (nested n)) := by
  induction n with
  | zero => exact law.compositional (law.fail _ rfl) (law.fail _ rfl) (law.fail _ rfl) (law.fail _ rfl)
  | succ n ih => exact law.compositional ih.statementOf ih.assignmentOf ih.conditionalOf ih.unaryOf

theorem program : Q Program program :=
  law.many (law.nested maxNesting).statement

end Hereditary

end Parser

end ScriptCpp
