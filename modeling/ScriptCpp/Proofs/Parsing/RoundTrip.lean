import Mathlib
import ScriptCpp.Proofs.Parsing.Expressions

set_option autoImplicit false

namespace ScriptCpp

/-!
The parser reads the rendering of every statement back, and with it that of every program. Each level
is settled from the one further in, so the trees themselves are never inducted on.
-/

theorem Stmt.nesting_pos (s : Stmt) : 0 < s.nesting := by
  cases s with
  | classDecl decl =>
    obtain ⟨text, fields, methods⟩ := decl
    simp [Stmt.nesting]
  | _ => simp [Stmt.nesting]

namespace Parser

theorem parameters (names : List String) :
    Reads parameterList (Rendering.params names) names anything True := by
  cases names with
  | nil =>
    exact Reads.bind_token Reads.expectSymbol
      (Reads.bind_token Reads.acceptSymbol_true Reads.pure)
  | cons first rest =>
    have each : ∀ text ∈ first :: rest,
        Reads (expect .identifier .parameterName) [.name text] text anything True :=
      fun _ _ => Reads.expectName
    have separated := Reads.commaSeparated (List.cons_ne_nil first rest) each trivial
    refine Reads.congr (Reads.bind_token Reads.expectSymbol (Reads.bind_ahead Reads.accept_false
      (separated.bind Reads.expectSymbol.pure_last (leads_sign ⟨trivial, by simp⟩)) ?_)) (by simp)
    intro t shows
    simp [shows.1]

namespace Level

variable {inner : Nested} {n : Nat} (level : Level inner n)

include level

theorem condition {e : Expr} (regular : e.Regular) (construct : Construct) :
    Reads (condition inner construct) (Rendering.parens e.items) e anything (e.nesting ≤ n) :=
  Reads.bind_token Reads.expectSymbol (level.expression_then regular rfl)

theorem declaration (text : String) {value : Option Expr} (regular : Expr.RegularIfAny value) :
    Reads (statementOf inner) (Stmt.declare text value).items (.declare text value) anything
      (Expr.nestingIfAny value ≤ n) := by
  cases value with
  | none =>
    refine (Reads.onToken_some fun t shows => ⟨Parser.declaration inner, by rw [shows], ?_⟩).congr
      (iff_of_true trivial (Nat.zero_le n))
    exact Reads.bind_token Reads.expectName
      (Reads.bind_token Reads.acceptSymbol_true Reads.pure)
  | some value =>
    have inside : value.Regular := regular
    refine Reads.onToken_some fun t shows => ⟨Parser.declaration inner, by rw [shows], ?_⟩
    exact Reads.bind_token Reads.expectName (Reads.bind_ahead Reads.accept_false
      (Reads.bind_token Reads.expectSymbol (level.expression_then inside rfl)) (leads_sign (by simp)))

theorem functionDecl (text : String) (names : List String) {body : List Stmt} (isAsync : Bool)
    (regular : Stmt.RegularEach body) :
    Reads (statementOf inner) (Stmt.function ⟨text, names, body, isAsync⟩).items
      (.function ⟨text, names, body, isAsync⟩) anything (Stmt.nestingEach body ≤ n) := by
  have named : Reads (Parser.functionDecl inner isAsync)
      (.name text :: (Rendering.params names ++ Rendering.braces (Stmt.bodyItems body)))
      (.function ⟨text, names, body, isAsync⟩) anything (True ∧ Stmt.nestingEach body ≤ n) :=
    Reads.bind_token Reads.expectName
      ((parameters names).bind (level.block regular _).pure_last leads_anything)
  refine Reads.congr ?_ (iff_of_eq (true_and _))
  cases isAsync with
  | false => exact Reads.onToken_some fun t shows => ⟨_, by rw [shows], named⟩
  | true =>
    refine Reads.onToken_some fun t shows => ⟨asyncFunction inner, by rw [shows], ?_⟩
    exact Reads.expect_then (fun _ shows => shows) named

theorem returnStmt {value : Option Expr} (regular : Expr.RegularIfAny value) :
    Reads (statementOf inner) (Stmt.ret value).items (.ret value) anything
      (Expr.nestingIfAny value ≤ n) := by
  cases value with
  | none =>
    refine (Reads.onToken_some fun t shows => ⟨Parser.returnStmt inner, by rw [shows], ?_⟩).congr
      (iff_of_true trivial (Nat.zero_le n))
    exact Reads.bind_token Reads.acceptSymbol_true Reads.pure
  | some value =>
    have inside : value.Regular := regular
    refine Reads.onToken_some fun t shows => ⟨Parser.returnStmt inner, by rw [shows], ?_⟩
    refine Reads.bind_ahead Reads.accept_false (level.expression_then inside rfl) ?_
    exact (items_starts value).append.leads fun _ starts => starts.ne_symbol (by decide)

theorem elsePart {otherwise : Option (List Stmt)} (regular : Stmt.RegularIfAny otherwise) :
    Reads (iterate (nextArm inner) ⟨[], none⟩) (Stmt.partItems .else_ otherwise) ⟨[], otherwise⟩
      (· ≠ .keyword .else_) (Stmt.nestingIfAny otherwise ≤ n) := by
  cases otherwise with
  | none =>
    refine (Reads.iterate_stop.restrict fun kind other t same => ?_).congr
      (iff_of_true trivial (Nat.zero_le n))
    rw [nextArm, if_neg (by simp [same, other])]
  | some body =>
    have inside : Stmt.RegularEach body := regular
    have last : Reads (iterate (nextArm inner) ⟨[], some body⟩) [] ⟨[], some body⟩ anything True :=
      Reads.iterate_stop.restrict fun kind _ t same => by simp [nextArm]
    refine Reads.restrict (Reads.iterate_once (fun t shows => ⟨_, if_pos (by rw [shows]; rfl), ?_⟩)
      last) fun _ _ => ⟨trivial, trivial⟩
    exact Reads.bind_ahead Reads.accept_false (level.block inside _).pure_last
      (leads_sign (by simp))

theorem branch {test : Expr} {body : List Stmt} {otherwise : Option (List Stmt)}
    (regularTest : test.Regular) (regularBody : Stmt.RegularEach body)
    (regularElse : Stmt.RegularIfAny otherwise) :
    Reads (statementOf inner) (Stmt.branch test body otherwise).items (.branch test body otherwise)
      (· ≠ .keyword .else_)
      (test.nesting ≤ n ∧ Stmt.nestingEach body ≤ n ∧ Stmt.nestingIfAny otherwise ≤ n) := by
  refine Reads.onToken_some fun t shows => ⟨Parser.branch inner, by rw [shows], ?_⟩
  have arms : Reads (iterate (nextArm inner) ⟨[], none⟩ >>= fun arms =>
      Pure.pure (Stmt.branch test body arms.otherwise)) (Stmt.partItems .else_ otherwise)
      (.branch test body otherwise) _ _ := (level.elsePart regularElse).pure_last
  exact (level.condition regularTest _).bind ((level.block regularBody _).bind arms leads_anything)
    leads_anything

theorem whileLoop {test : Expr} {body : List Stmt} (regularTest : test.Regular)
    (regularBody : Stmt.RegularEach body) :
    Reads (statementOf inner) (Stmt.whileLoop test body).items (.whileLoop test body) anything
      (test.nesting ≤ n ∧ Stmt.nestingEach body ≤ n) := by
  refine Reads.onToken_some fun t shows => ⟨Parser.whileLoop inner, by rw [shows], ?_⟩
  exact (level.condition regularTest _).bind (level.block regularBody _).pure_last leads_anything

theorem optionalBefore {e : Option Expr} (regular : Expr.RegularIfAny e) {symbol : Symbol}
    (closes : symbol = .semicolon ∨ symbol = .closeParen) :
    Reads (optionalBefore inner symbol) (Expr.itemsIfAny e) e (· = .symbol symbol)
      (Expr.nestingIfAny e ≤ n) := by
  cases e with
  | none =>
    refine Reads.congr (Reads.bind_ahead Reads.sees_true (Reads.pure.restrict fun _ _ => trivial)
      ?_) (iff_of_true trivial (Nat.zero_le n))
    exact fun kind same => same
  | some e =>
    have inside : e.Regular := regular
    have reads := (level.expression inside).restrict fun kind (same : kind = .symbol symbol) => by
      rw [same]
      rcases closes with rfl | rfl <;> exact Token.Kind.endsExpr_symbol rfl
    refine Reads.bind_ahead Reads.sees_false reads.pure_last ?_
    refine (items_starts e).leads fun _ starts => starts.ne_symbol ?_
    rcases closes with rfl | rfl <;> decide

theorem loopStart {start : Option Stmt} (regular : Stmt.RegularStart start) :
    Reads (loopStart inner) (Stmt.startItems start) start Token.Kind.endsStmt
      (Stmt.nestingOfStart start ≤ n) := by
  cases start with
  | none =>
    exact Reads.congr (Reads.bind_token Reads.acceptSymbol_true
      (Reads.pure.restrict fun _ _ => trivial)) (iff_of_true trivial (Nat.zero_le n))
  | some s =>
    have inside : s.Regular := regular
    exact Reads.bind_ahead Reads.accept_false (level.statement inside).pure_last
      ((stmt_starts s).leads fun _ starts => starts.2.2)

theorem forLoop {start : Option Stmt} {test update : Option Expr} {body : List Stmt}
    (regularStart : Stmt.RegularStart start) (regularTest : Expr.RegularIfAny test)
    (regularUpdate : Expr.RegularIfAny update) (regularBody : Stmt.RegularEach body) :
    Reads (statementOf inner) (Stmt.forLoop start test update body).items
      (.forLoop start test update body) anything
      (Stmt.nestingOfStart start ≤ n ∧ Expr.nestingIfAny test ≤ n ∧ Expr.nestingIfAny update ≤ n ∧
        Stmt.nestingEach body ≤ n) := by
  refine Reads.onToken_some fun t shows => ⟨Parser.forLoop inner, by rw [shows], ?_⟩
  refine Reads.bind_token Reads.expectSymbol ((level.loopStart regularStart).bind
    ((level.optionalBefore regularTest (.inl rfl)).bind (Reads.bind_token Reads.expectSymbol
      ((level.optionalBefore regularUpdate (.inr rfl)).bind (Reads.bind_token Reads.expectSymbol
        (level.block regularBody _).pure_last) (leads_sign rfl))) (leads_sign rfl)) ?_)
  cases test with
  | none => exact leads_sign (by simp [Token.Kind.endsStmt])
  | some test => exact (items_starts test).append.leads fun _ starts => starts.startsStmt.1

end Level

-- A class is read member by member, and a switch clause by clause, so both are seen as such lists.

def Member.items : Member → List Item
  | .field decl => decl.items
  | .method decl => decl.items

def Member.nesting : Member → Nat
  | .field decl => Expr.nestingIfAny decl.value
  | .method decl => decl.nesting

def Member.Regular : Member → Prop
  | .field decl => Expr.RegularIfAny decl.value
  | .method decl => decl.isAsync = false ∧ Stmt.RegularEach decl.body

def members (fields : List FieldDecl) (methods : List FunctionDecl) : List Member :=
  fields.map .field ++ methods.map .method

def Clause.items (clause : Clause) : List Item :=
  clause.test.elim [Item.word .default_] (fun test => .word .case_ :: test.items) ++
    .sign .colon :: Rendering.braces (Stmt.bodyItems clause.body)

def Clause.nesting (clause : Clause) : Nat :=
  max (Expr.nestingIfAny clause.test) (Stmt.nestingEach clause.body)

def Clause.Regular (clause : Clause) : Prop :=
  Expr.RegularIfAny clause.test ∧ Stmt.RegularEach clause.body

def clauses (cases : List CaseClause) (fallback : Option (List Stmt)) : List Clause :=
  cases.map (fun clause => ⟨some clause.test, clause.body⟩) ++ (fallback.map (Clause.mk none)).toList

section Lists

variable {fields : List FieldDecl} {methods : List FunctionDecl} {cases : List CaseClause}
  {fallback : Option (List Stmt)} {n : Nat}

theorem members_items : ((members fields methods).map Member.items).flatten =
    (FieldDecl.itemsEach fields).flatten ++ (FunctionDecl.itemsEach methods).flatten := by
  have ofFields : FieldDecl.itemsEach fields = (fields.map .field).map Member.items := by
    induction fields with
    | nil => rfl
    | cons field fields ih => rw [FieldDecl.itemsEach, ih]; rfl
  have ofMethods : FunctionDecl.itemsEach methods = (methods.map .method).map Member.items := by
    induction methods with
    | nil => rfl
    | cons method methods ih => rw [FunctionDecl.itemsEach, ih]; rfl
  rw [members, List.map_append, List.flatten_append, ofFields, ofMethods]

theorem members_nesting : (∀ member ∈ members fields methods, member.nesting ≤ n) ↔
    FieldDecl.nestingEach fields ≤ n ∧ FunctionDecl.nestingEach methods ≤ n := by
  have ofFields : FieldDecl.nestingEach fields ≤ n ↔
      ∀ field ∈ fields, Expr.nestingIfAny field.value ≤ n := by
    induction fields with
    | nil => simp [FieldDecl.nestingEach]
    | cons field fields ih =>
      obtain ⟨text, value⟩ := field
      rw [FieldDecl.nestingEach, max_le_iff, ih, List.forall_mem_cons]
  have ofMethods : FunctionDecl.nestingEach methods ≤ n ↔
      ∀ method ∈ methods, method.nesting ≤ n := by
    induction methods with
    | nil => simp [FunctionDecl.nestingEach]
    | cons method methods ih => rw [FunctionDecl.nestingEach, max_le_iff, ih, List.forall_mem_cons]
  rw [ofFields, ofMethods, members, List.forall_mem_append, List.forall_mem_map, List.forall_mem_map]
  rfl

theorem members_regular (regularFields : FieldDecl.RegularEach fields)
    (regularMethods : FunctionDecl.RegularMethods methods) :
    ∀ member ∈ members fields methods, member.Regular := by
  rw [members, List.forall_mem_append, List.forall_mem_map, List.forall_mem_map]
  constructor
  · induction fields with
    | nil => exact List.forall_mem_nil _
    | cons field fields ih =>
      obtain ⟨text, value⟩ := field
      exact List.forall_mem_cons.mpr ⟨regularFields.1, ih regularFields.2⟩
  · induction methods with
    | nil => exact List.forall_mem_nil _
    | cons method methods ih =>
      obtain ⟨text, names, body, isAsync⟩ := method
      exact List.forall_mem_cons.mpr
        ⟨⟨regularMethods.1, regularMethods.2.1⟩, ih regularMethods.2.2⟩

theorem members_fields : (members fields methods).filterMap Member.field? = fields := by
  simp [members, List.filterMap_map, Function.comp_def, Member.field?]

theorem members_methods : (members fields methods).filterMap Member.method? = methods := by
  simp [members, List.filterMap_map, Function.comp_def, Member.method?]

theorem clauses_items : ((clauses cases fallback).map Clause.items).flatten =
    (CaseClause.itemsEach cases).flatten ++ Stmt.fallbackItems fallback := by
  have ofCases : CaseClause.itemsEach cases =
      cases.map fun clause => Clause.items ⟨some clause.test, clause.body⟩ := by
    induction cases with
    | nil => rfl
    | cons clause cases ih =>
      obtain ⟨test, body⟩ := clause
      rw [CaseClause.itemsEach, ih]
      rfl
  rw [clauses, List.map_append, List.flatten_append, ofCases, List.map_map]
  congr 1
  cases fallback with
  | none => rfl
  | some body => exact List.append_nil _

theorem clauses_nesting : (∀ clause ∈ clauses cases fallback, clause.nesting ≤ n) ↔
    CaseClause.nestingEach cases ≤ n ∧ Stmt.nestingIfAny fallback ≤ n := by
  have ofCases : CaseClause.nestingEach cases ≤ n ↔
      ∀ clause ∈ cases, Clause.nesting ⟨some clause.test, clause.body⟩ ≤ n := by
    induction cases with
    | nil => simp [CaseClause.nestingEach]
    | cons clause cases ih =>
      obtain ⟨test, body⟩ := clause
      rw [CaseClause.nestingEach, max_le_iff, ih, List.forall_mem_cons]
      rfl
  have ofFallback : Stmt.nestingIfAny fallback ≤ n ↔
      ∀ clause ∈ (fallback.map (Clause.mk none)).toList, clause.nesting ≤ n := by
    cases fallback <;> simp [Stmt.nestingIfAny, Clause.nesting, Expr.nestingIfAny]
  rw [ofCases, ofFallback, clauses, List.forall_mem_append, List.forall_mem_map]

theorem clauses_regular (regularCases : CaseClause.RegularEach cases)
    (regularFallback : Stmt.RegularIfAny fallback) :
    ∀ clause ∈ clauses cases fallback, clause.Regular := by
  rw [clauses, List.forall_mem_append, List.forall_mem_map]
  constructor
  · induction cases with
    | nil => exact List.forall_mem_nil _
    | cons clause cases ih =>
      obtain ⟨test, body⟩ := clause
      exact List.forall_mem_cons.mpr ⟨⟨regularCases.1, regularCases.2.1⟩, ih regularCases.2.2⟩
  · cases fallback with
    | none => exact List.forall_mem_nil _
    | some body => exact List.forall_mem_singleton.mpr ⟨trivial, regularFallback⟩

theorem clauses_cases : (clauses cases fallback).filterMap Clause.case? = cases := by
  have labelled : cases.filterMap (fun clause => Clause.case? ⟨some clause.test, clause.body⟩) =
      cases := by
    induction cases with
    | nil => rfl
    | cons clause cases ih =>
      obtain ⟨test, body⟩ := clause
      exact congrArg (_ :: ·) ih
  rw [clauses, List.filterMap_append, List.filterMap_map, Function.comp_def, labelled]
  cases fallback with
  | none => exact List.append_nil _
  | some body => exact List.append_nil _

theorem clauses_fallback :
    ((clauses cases fallback).filterMap Clause.default?).getLast? = fallback := by
  cases fallback <;> simp [clauses, List.filterMap_map, Function.comp_def, Clause.default?]

end Lists

theorem member_starts (member : Member) :
    Starts (fun kind => kind ≠ .symbol .closeBrace ∧ anything kind) member.items := by
  have named : ∃ text items, member.items = .name text :: items := by
    cases member with
    | method decl =>
      obtain ⟨text, names, body, isAsync⟩ := decl
      exact ⟨_, _, rfl⟩
    | field decl =>
      obtain ⟨text, value⟩ := decl
      cases value <;> exact ⟨_, _, rfl⟩
  obtain ⟨text, items, same⟩ := named
  exact ⟨_, _, same, fun t shows => ⟨by simp [shows.1], trivial⟩⟩

theorem clause_starts (clause : Clause) :
    Starts (fun kind => kind ≠ .symbol .closeBrace ∧ anything kind) clause.items := by
  obtain ⟨test, body⟩ := clause
  cases test <;> exact starts_word ⟨by simp, trivial⟩

namespace Level

variable {inner : Nested} {n : Nat} (level : Level inner n)

include level

theorem method (text : String) (names : List String) {body : List Stmt}
    (regular : Stmt.RegularEach body) :
    Reads (memberNamed inner text) (Rendering.params names ++ Rendering.braces (Stmt.bodyItems body))
      (.method ⟨text, names, body, false⟩) anything (Stmt.nestingEach body ≤ n) :=
  Reads.congr (Reads.bind_ahead Reads.sees_true ((parameters names).bind
    (level.block regular _).pure_last leads_anything) (leads_sign rfl)) (iff_of_eq (true_and _))

theorem member {member : Member} (regular : member.Regular) :
    Reads (classMember inner) member.items member anything (member.nesting ≤ n) := by
  -- The words before a name are taken if they are there, which they never are.
  have named : ∀ {text : String} {xs : List Item} {c : Prop},
      Reads (memberNamed inner text) xs member anything c →
        Reads (classMember inner) (.name text :: xs) member anything c := by
    intro text xs c reads
    refine Reads.bind_ahead Reads.accept_false (Reads.bind_ahead Reads.accept_false
      (Reads.bind_token Reads.expectName reads) ?_) ?_
    · exact fun t shows => by simp [shows.1]
    · exact fun t shows => by simp [shows.1]
  cases member with
  | method decl =>
    obtain ⟨text, names, body, isAsync⟩ := decl
    obtain ⟨rfl, inside⟩ : isAsync = false ∧ Stmt.RegularEach body := regular
    exact named (level.method text names inside)
  | field decl =>
    obtain ⟨text, value⟩ := decl
    cases value with
    | none =>
      have absent : Reads (Parser.fieldValue inner) [] none (· ≠ .symbol .assign) True :=
        Reads.accept_absent Reads.pure
      exact (named (Reads.bind_ahead Reads.sees_false (Reads.bind_ahead absent
        Reads.expectSymbol.pure_last (leads_sign (by simp))) (leads_sign (by simp)))).congr
          (iff_of_true trivial (Nat.zero_le n))
    | some value =>
      have inside : value.Regular := regular
      have present : Reads (Parser.fieldValue inner) (.sign .assign :: value.items) (some value)
          Token.Kind.endsExpr (value.nesting ≤ n) :=
        Reads.bind_token Reads.acceptSymbol_true (level.expression inside).pure_last
      exact (named (Reads.bind_ahead Reads.sees_false (present.bind Reads.expectSymbol.pure_last
        (leads_sign (Token.Kind.endsExpr_symbol rfl))) (leads_sign (by simp)))).congr
          (iff_of_eq (and_true _))

theorem classDecl (text : String) {fields : List FieldDecl} {methods : List FunctionDecl}
    (regularFields : FieldDecl.RegularEach fields)
    (regularMethods : FunctionDecl.RegularMethods methods) :
    Reads (statementOf inner) (Stmt.classDecl ⟨text, fields, methods⟩).items
      (.classDecl ⟨text, fields, methods⟩) anything
      (FieldDecl.nestingEach fields ≤ n ∧ FunctionDecl.nestingEach methods ≤ n) := by
  have all := members_regular regularFields regularMethods
  have each : Reads (many (fun t => t.kind = .symbol .closeBrace) (classMember inner)
      (strict_classMember inner)) ((members fields methods).map Member.items).flatten
      (members fields methods) (· = .symbol .closeBrace)
      (∀ member ∈ members fields methods, member.nesting ≤ n) :=
    Reads.many_braced (strict_classMember inner)
      (fun member present => level.member (all member present)) (fun member _ => member_starts member)
      trivial
  have last : Reads (expectSymbol .closeBrace .classClose >>= fun _ => Pure.pure
      (Stmt.classDecl ⟨text, (members fields methods).filterMap Member.field?,
        (members fields methods).filterMap Member.method?⟩)) [.sign .closeBrace]
      (.classDecl ⟨text, fields, methods⟩) anything True := by
    rw [members_fields, members_methods]
    exact Reads.expectSymbol.pure_last
  rw [members_items] at each
  refine Reads.onToken_some fun t shows => ⟨Parser.classDecl inner, by rw [shows], ?_⟩
  exact Reads.congr (Reads.bind_token Reads.expectName (Reads.bind_token Reads.expectSymbol
    (each.bind last (leads_sign rfl)))) ((iff_of_eq (and_true _)).trans members_nesting)

theorem clause {labelled : Clause} (regular : labelled.Regular) :
    Reads (clause inner) labelled.items labelled anything (labelled.nesting ≤ n) := by
  obtain ⟨test, body⟩ := labelled
  obtain ⟨regularTest, regularBody⟩ : Expr.RegularIfAny test ∧ Stmt.RegularEach body := regular
  have inBraces : Reads (clauseBody inner) (Rendering.braces (Stmt.bodyItems body)) body anything
      (Stmt.nestingEach body ≤ n) :=
    Reads.bind_ahead Reads.sees_true (level.block regularBody _) (leads_sign rfl)
  cases test with
  | none =>
    have same : Stmt.nestingEach body ≤ n ↔ Clause.nesting ⟨none, body⟩ ≤ n := by
      rw [Clause.nesting, Expr.nestingIfAny, Nat.zero_max]
    refine (Reads.onToken_some fun t shows => ⟨defaultClause inner, by rw [shows], ?_⟩).congr same
    exact Reads.bind_token Reads.expectSymbol inBraces.pure_last
  | some test =>
    have inside : test.Regular := regularTest
    refine (Reads.onToken_some fun t shows => ⟨caseClause inner, by rw [shows], ?_⟩).congr
      max_le_iff.symm
    exact (level.expression inside).bind (Reads.bind_token Reads.expectSymbol inBraces.pure_last)
      (leads_sign (Token.Kind.endsExpr_symbol rfl))

theorem switchStmt {subject : Expr} {cases : List CaseClause} {fallback : Option (List Stmt)}
    (regularSubject : subject.Regular) (regularCases : CaseClause.RegularEach cases)
    (regularFallback : Stmt.RegularIfAny fallback) :
    Reads (statementOf inner) (Stmt.switch subject cases fallback).items
      (.switch subject cases fallback) anything
      (subject.nesting ≤ n ∧ CaseClause.nestingEach cases ≤ n ∧ Stmt.nestingIfAny fallback ≤ n) := by
  have all := clauses_regular regularCases regularFallback
  have each : Reads (many (fun t => t.kind = .symbol .closeBrace) (Parser.clause inner)
      (strict_clause inner)) ((clauses cases fallback).map Clause.items).flatten
      (clauses cases fallback) (· = .symbol .closeBrace)
      (∀ clause ∈ clauses cases fallback, clause.nesting ≤ n) :=
    Reads.many_braced (strict_clause inner)
      (fun clause present => level.clause (all clause present)) (fun clause _ => clause_starts clause)
      trivial
  have last : Reads (expectSymbol .closeBrace .switchClose >>= fun _ => Pure.pure
      (Stmt.switch subject ((clauses cases fallback).filterMap Clause.case?)
        ((clauses cases fallback).filterMap Clause.default?).getLast?)) [.sign .closeBrace]
      (.switch subject cases fallback) anything True := by
    rw [clauses_cases, clauses_fallback]
    exact Reads.expectSymbol.pure_last
  rw [clauses_items] at each
  refine Reads.onToken_some fun t shows => ⟨Parser.switchStmt inner, by rw [shows], ?_⟩
  refine Reads.congr ((level.condition regularSubject _).bind (Reads.bind_token Reads.expectSymbol
    (each.bind last (leads_sign rfl))) leads_anything) ?_
  rw [clauses_nesting, and_true]

theorem catchPart {handler : Option CatchClause} (regular : CatchClause.RegularIfAny handler) :
    Reads (catchPart inner) (CatchClause.itemsIfAny handler) handler (· ≠ .keyword .catch_)
      (CatchClause.nestingIfAny handler ≤ n) := by
  cases handler with
  | none =>
    exact Reads.congr (Reads.accept_absent Reads.pure) (iff_of_true trivial (Nat.zero_le n))
  | some handler =>
    obtain ⟨param, body⟩ := handler
    have inside : Stmt.RegularEach body := regular
    refine Reads.restrict (F := anything) ?_ fun _ _ => trivial
    cases param with
    | none =>
      have absent : Reads catchParam [] none (· ≠ .symbol .openParen) True :=
        Reads.accept_absent Reads.pure
      exact Reads.bind_token Reads.acceptWord_true
        (Reads.bind_ahead absent (level.block inside _).pure_last (leads_sign (by simp)))
    | some text =>
      have present : Reads catchParam (Rendering.parens [.name text]) (some text) anything True :=
        Reads.bind_token Reads.acceptSymbol_true
          (Reads.bind_token Reads.expectName Reads.expectSymbol.pure_last)
      exact Reads.bind_token Reads.acceptWord_true
        ((present.bind (level.block inside _).pure_last leads_anything).congr
          (iff_of_eq (true_and _)))

theorem finallyPart {cleanup : Option (List Stmt)} (regular : Stmt.RegularIfAny cleanup) :
    Reads (finallyPart inner) (Stmt.partItems .finally_ cleanup) cleanup (· ≠ .keyword .finally_)
      (Stmt.nestingIfAny cleanup ≤ n) := by
  cases cleanup with
  | none =>
    exact Reads.congr (Reads.accept_absent Reads.pure) (iff_of_true trivial (Nat.zero_le n))
  | some body =>
    have inside : Stmt.RegularEach body := regular
    exact Reads.bind_token Reads.acceptWord_true
      ((level.block inside _).pure_last.restrict fun _ _ => trivial)

theorem attempt {body : List Stmt} {handler : Option CatchClause} {cleanup : Option (List Stmt)}
    (regularBody : Stmt.RegularEach body) (regularHandler : CatchClause.RegularIfAny handler)
    (regularCleanup : Stmt.RegularIfAny cleanup) :
    Reads (statementOf inner) (Stmt.attempt body handler cleanup).items
      (.attempt body handler cleanup)
      (fun kind => kind ≠ .keyword .catch_ ∧ kind ≠ .keyword .finally_)
      (Stmt.nestingEach body ≤ n ∧ CatchClause.nestingIfAny handler ≤ n ∧
        Stmt.nestingIfAny cleanup ≤ n) := by
  refine Reads.onToken_some fun t shows => ⟨Parser.attempt inner, by rw [shows], ?_⟩
  have last := (level.finallyPart regularCleanup).restrict
    fun kind (ends : kind ≠ .keyword .catch_ ∧ kind ≠ .keyword .finally_) => ends.2
  refine (level.block regularBody _).bind ((level.catchPart regularHandler).bind last.pure_last ?_)
    leads_anything
  cases cleanup with
  | none => exact fun _ ends => ends.1
  | some body => exact leads_word (by simp)

theorem expressionStmt {value : Expr} (regular : value.Regular) :
    Reads (statementOf inner) (Stmt.expr value).items (.expr value) anything (value.nesting ≤ n) := by
  refine Reads.onToken_none (level.expression_then regular rfl) ?_
  refine (items_starts value).append.leads fun kind starts t same => ?_
  rw [same]
  rcases starts with (rfl | rfl | rfl | rfl | rfl) | rfl | rfl | rfl | rfl <;> rfl

theorem statement_items {s : Stmt} (regular : s.Regular) :
    Reads (statementOf inner) s.items s Token.Kind.endsStmt (s.nesting ≤ n + 1) := by
  have anywhere : ∀ {c : Prop}, Reads (statementOf inner) s.items s anything c →
      Reads (statementOf inner) s.items s Token.Kind.endsStmt c :=
    fun reads => reads.restrict fun _ _ => trivial
  cases s with
  | declare text value =>
    refine (anywhere (level.declaration text regular)).congr ?_
    rw [Stmt.nesting]
    omega
  | function decl =>
    obtain ⟨text, names, body, isAsync⟩ := decl
    refine (anywhere (level.functionDecl text names isAsync regular)).congr ?_
    rw [Stmt.nesting, FunctionDecl.nesting]
    omega
  | classDecl decl =>
    obtain ⟨text, fields, methods⟩ := decl
    refine (anywhere (level.classDecl text regular.1 regular.2)).congr ?_
    rw [Stmt.nesting]
    omega
  | importFile path =>
    have reads : Reads importStmt [.quoted path, .sign .semicolon] (.importFile path) anything True :=
      Reads.bind_token Reads.expectString Reads.expectSymbol.pure_last
    exact (anywhere (Reads.onToken_some fun t shows => ⟨importStmt, by rw [shows], reads⟩)).congr
      (by simp [Stmt.nesting])
  | ret value =>
    refine (anywhere (level.returnStmt regular)).congr ?_
    rw [Stmt.nesting]
    omega
  | branch test body otherwise =>
    refine ((level.branch regular.1 regular.2.1 regular.2.2).restrict fun _ ends => ends.1).congr ?_
    rw [Stmt.nesting]
    omega
  | whileLoop test body =>
    refine (anywhere (level.whileLoop regular.1 regular.2)).congr ?_
    rw [Stmt.nesting]
    omega
  | forLoop start test update body =>
    obtain ⟨regularStart, regularTest, regularUpdate, regularBody⟩ := regular
    refine (anywhere (level.forLoop regularStart regularTest regularUpdate regularBody)).congr ?_
    rw [Stmt.nesting]
    omega
  | switch subject cases fallback =>
    refine (anywhere (level.switchStmt regular.1 regular.2.1 regular.2.2)).congr ?_
    rw [Stmt.nesting]
    omega
  | breakLoop =>
    exact (anywhere (Reads.onToken_some fun t shows => ⟨_, by rw [shows],
      Reads.expectSymbol.pure_last⟩)).congr (by simp [Stmt.nesting])
  | continueLoop =>
    exact (anywhere (Reads.onToken_some fun t shows => ⟨_, by rw [shows],
      Reads.expectSymbol.pure_last⟩)).congr (by simp [Stmt.nesting])
  | attempt body handler cleanup =>
    refine ((level.attempt regular.1 regular.2.1 regular.2.2).restrict fun _ ends => ends.2).congr ?_
    rw [Stmt.nesting]
    omega
  | expr value =>
    have inside : value.Regular := regular
    refine (anywhere (level.expressionStmt inside)).congr ?_
    rw [Stmt.nesting]
    omega

end Level

theorem level_nested (n : Nat) : Level (nested n) n := by
  induction n with
  | zero =>
    exact
      { expression := fun {e} _ => Reads.tooDeep (Nat.not_le.mpr e.nesting_pos)
        operand := fun _ => Reads.tooDeep (by omega)
        alternate := fun _ => Reads.tooDeep (by omega)
        unary := fun _ => Reads.tooDeep (by omega)
        statement := fun {s} _ => Reads.tooDeep (Nat.not_le.mpr s.nesting_pos) }
  | succ n level =>
    exact
      { expression := fun regular => level.expression_items regular
        operand := fun regular => (level.expression_grouped regular).congr (by omega)
        alternate := fun regular => ((level.conditional_grouped regular).restrict fun _ ends =>
          ⟨endsLadder_of_endsExpr ends.endsAccess ends, ends.ne rfl⟩).congr (by omega)
        unary := fun regular => (level.unary_grouped regular).congr (by omega)
        statement := fun regular => level.statement_items regular }

theorem program_items {p : Program} (regular : Stmt.RegularEach p) :
    Reads program (Stmt.bodyItems p) p (· = .eof) (Stmt.nestingEach p ≤ maxNesting) := by
  have each : ∀ s ∈ p, Reads (nested maxNesting).statement s.items s Token.Kind.endsStmt
      (s.nesting ≤ maxNesting) :=
    fun s present => (level_nested maxNesting).statement (Stmt.regularEach_iff.mp regular s present)
  rw [Stmt.bodyItems_eq]
  refine (Reads.many_each (nested maxNesting).strict each ?_ ?_).congr Stmt.nestingEach_le.symm
  · exact fun s _ => (stmt_starts s).mono fun _ starts => ⟨fun _ _ => rfl, starts.1⟩
  · rintro kind rfl
    exact ⟨by simp [Token.Kind.endsStmt], .inl rfl⟩

end Parser

namespace Program

theorem ofTokens_before_eof {tokens : List Token} {stop : Token}
    (ahead : ∀ t ∈ tokens, t.kind ≠ .eof) (isEof : stop.kind = .eof) :
    ofTokens (tokens ++ [stop]) = Prod.fst <$> Parser.program.run stop tokens := by
  have taken : (tokens ++ [stop]).takeWhile (·.kind ≠ .eof) = tokens := by
    rw [List.takeWhile_append_of_pos (by simpa using ahead)]
    simp [isEof]
  have left : (tokens ++ [stop]).dropWhile (·.kind ≠ .eof) = [stop] := by
    rw [List.dropWhile_append_of_pos (by simpa using ahead)]
    simp [isEof]
  simp only [ofTokens, List.getLast?_concat, isEof, if_true, taken, left, List.headD_cons]

/-- A program is read back from its rendering exactly if that stays within the nesting limit; beyond
the limit the parser says so. -/
theorem ofTokens_rendering {p : Program} (regular : Stmt.RegularEach p) {tokens : List Token}
    (shown : Parser.Shown (Stmt.bodyItems p) tokens) {stop : Token} (isEof : stop.kind = .eof) :
    (Stmt.nestingEach p ≤ Parser.maxNesting → ofTokens (tokens ++ [stop]) = .ok p) ∧
      (Parser.maxNesting < Stmt.nestingEach p →
        ∃ t, ofTokens (tokens ++ [stop]) = .error (.atToken .nestingTooDeep t)) := by
  have reads := Parser.program_items regular
  have before : Parser.Before stop [] (· = .eof) := ⟨isEof, List.forall_mem_nil _, isEof⟩
  rw [ofTokens_before_eof (Parser.shown_ne_eof shown) isEof]
  constructor
  · intro enough
    have read := reads.ok before shown enough
    rw [List.append_nil] at read
    rw [read]
    rfl
  · intro few
    obtain ⟨t, failed⟩ := reads.deep before shown (Nat.not_le.mpr few)
    rw [List.append_nil] at failed
    exact ⟨t, by rw [failed]; rfl⟩

-- `while (f = (a) => (-1)) { (f(this)).class; break; }`
def whileLoop : Program :=
  [.whileLoop (.assign (.ident "f") (.arrowValue ["a"]
      (.negate (.number (.finite false 4503599627370496 (-52))))))
    [.expr (.member (.call (.ident "f") [.this]) "class"), .breakLoop]]

def whileTokens : List Token :=
  [(.keyword .while_, "while"), (.symbol .openParen, "("), (.identifier, "f"), (.symbol .assign, "="),
    (.symbol .openParen, "("), (.identifier, "a"), (.symbol .closeParen, ")"), (.symbol .arrow, "=>"),
    (.symbol .openParen, "("), (.symbol .minus, "-"), (.number, "1"), (.symbol .closeParen, ")"),
    (.symbol .closeParen, ")"), (.symbol .openBrace, "\x7b"), (.symbol .openParen, "("),
    (.identifier, "f"), (.symbol .openParen, "("), (.keyword .this_, "this"),
    (.symbol .closeParen, ")"), (.symbol .closeParen, ")"), (.symbol .dot, "."),
    (.keyword .class_, "class"), (.symbol .semicolon, ";"), (.keyword .break_, "break"),
    (.symbol .semicolon, ";"), (.symbol .closeBrace, "\x7d")].map
    fun (spelled : Token.Kind × String) => ⟨spelled.1, spelled.2, .start⟩

theorem whileTokens_shown : Parser.Shown (Stmt.bodyItems whileLoop) whileTokens := by
  have one : Binary64.ofText? "1" = some (.finite false 4503599627370496 (-52)) := by decide +kernel
  have member : Token.Kind.keyword .class_ = .ofWord "class" := by decide +kernel
  simp [Parser.Shown, Item.Shows, whileTokens, whileLoop, Stmt.bodyItems, Stmt.items, Expr.items,
    Expr.itemsEach, Expr.grouped, Expr.isLeaf, Rendering.parens, Rendering.braces, Rendering.params,
    Rendering.listed, one, member]

theorem ofTokens_rendering_whileLoop : Parser.Shown (Stmt.bodyItems whileLoop) whileTokens ∧
    Stmt.nestingEach whileLoop ≤ Parser.maxNesting ∧
    ofTokens (whileTokens ++ [.eof .start]) = .ok whileLoop := by
  have regular : Stmt.RegularEach whileLoop := by
    simp [whileLoop, Stmt.RegularEach, Stmt.Regular, Expr.Regular, Expr.RegularEach, Parser.isTarget]
  have within : Stmt.nestingEach whileLoop ≤ Parser.maxNesting := by decide +kernel
  exact ⟨whileTokens_shown, within, (ofTokens_rendering regular whileTokens_shown rfl).1 within⟩

end Program

end ScriptCpp
