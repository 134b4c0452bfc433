import Mathlib
import ScriptCpp.Proofs.Parsing.Reads

set_option autoImplicit false

namespace ScriptCpp

def Symbol.continues : Symbol → Bool
  | .dot | .openBracket | .openParen | .arrow | .question | .assign => true
  | .times | .divide | .modulo | .plus | .minus | .and | .or => true
  | .equal | .notEqual | .less | .greater | .lessEqual | .greaterEqual => true
  | .openBrace | .closeBrace | .closeParen | .closeBracket | .semicolon | .comma | .colon => false

def Symbol.accesses (symbol : Symbol) : Bool :=
  symbol = .dot || symbol = .openBracket || symbol = .openParen || symbol = .arrow

namespace Token.Kind

def endsExpr (kind : Kind) : Prop := ∀ symbol, kind = .symbol symbol → symbol.continues = false

def endsAccess (kind : Kind) : Prop := ∀ symbol, kind = .symbol symbol → symbol.accesses = false

def startsOperand (kind : Kind) : Prop :=
  kind = .identifier ∨ kind = .number ∨ kind = .string ∨ kind = .keyword .this_ ∨
    kind = .symbol .openParen

def startsExpr (kind : Kind) : Prop :=
  kind.startsOperand ∨ kind = .keyword .new_ ∨ kind = .keyword .await_ ∨ kind = .symbol .minus ∨
    kind = .symbol .openBracket

def endsStmt (kind : Kind) : Prop :=
  kind ≠ .keyword .else_ ∧ kind ≠ .keyword .catch_ ∧ kind ≠ .keyword .finally_

def startsStmt (kind : Kind) : Prop :=
  kind.endsStmt ∧ kind ≠ .symbol .closeBrace ∧ kind ≠ .symbol .semicolon

theorem endsExpr_symbol {symbol : Symbol} (ends : symbol.continues = false) :
    endsExpr (.symbol symbol) := by
  rintro _ ⟨⟩
  exact ends

theorem endsAccess_symbol {symbol : Symbol} (ends : symbol.accesses = false) :
    endsAccess (.symbol symbol) := by
  rintro _ ⟨⟩
  exact ends

theorem endsExpr.ne {kind : Kind} (ends : kind.endsExpr) {symbol : Symbol}
    (continues : symbol.continues = true) : kind ≠ .symbol symbol := by
  intro same
  simp [ends symbol same] at continues

theorem endsAccess.ne {kind : Kind} (ends : kind.endsAccess) {symbol : Symbol}
    (accesses : symbol.accesses = true) : kind ≠ .symbol symbol := by
  intro same
  simp [ends symbol same] at accesses

theorem endsExpr.endsAccess {kind : Kind} (ends : kind.endsExpr) : kind.endsAccess := by
  rintro symbol rfl
  have stays := ends symbol rfl
  cases symbol <;> first | rfl | cases stays

theorem startsOperand.startsExpr {kind : Kind} (starts : kind.startsOperand) : kind.startsExpr :=
  .inl starts

theorem startsExpr.ne_symbol {kind : Kind} (starts : kind.startsExpr) {symbol : Symbol}
    (other : symbol ≠ .openParen ∧ symbol ≠ .minus ∧ symbol ≠ .openBracket) :
    kind ≠ .symbol symbol := by
  rintro rfl
  simp [Kind.startsExpr, startsOperand, other] at starts

theorem startsExpr.startsStmt {kind : Kind} (starts : kind.startsExpr) : kind.startsStmt := by
  rcases starts with (rfl | rfl | rfl | rfl | rfl) | rfl | rfl | rfl | rfl <;>
    simp [Kind.startsStmt, endsStmt]

theorem startsOperand.ne_symbol {kind : Kind} (starts : kind.startsOperand) {symbol : Symbol}
    (other : symbol ≠ .openParen) : kind ≠ .symbol symbol := by
  rintro rfl
  simp [startsOperand, other] at starts

end Token.Kind

namespace Parser

theorem leaf_starts {e : Expr} (leaf : e.isLeaf = true) :
    Starts Token.Kind.startsOperand e.items := by
  cases e with
  | ident text => exact ⟨_, _, rfl, fun t shows => .inl shows.1⟩
  | number value => exact ⟨_, _, rfl, fun t shows => .inr (.inl shows.1)⟩
  | string raw => exact ⟨_, _, rfl, fun t shows => .inr (.inr (.inl shows.1))⟩
  | this => exact starts_word (.inr (.inr (.inr (.inl rfl))))
  | _ => cases leaf

theorem grouped_starts (e : Expr) : Starts Token.Kind.startsOperand (e.grouped e.items) := by
  cases leaf : e.isLeaf with
  | true =>
    rw [Expr.grouped, if_pos leaf]
    exact leaf_starts leaf
  | false =>
    rw [Expr.grouped, if_neg (by simp [leaf])]
    exact starts_sign (.inr (.inr (.inr (.inr rfl))))

theorem items_starts (e : Expr) : Starts Token.Kind.startsExpr e.items := by
  have operand : ∀ e : Expr, Starts Token.Kind.startsExpr (e.grouped e.items) :=
    fun e => (grouped_starts e).mono fun _ starts => starts.startsExpr
  cases e with
  | assign target value => exact (operand target).append
  | binary op left right => exact (operand left).append
  | negate operand => exact starts_sign (.inr (.inr (.inr (.inl rfl))))
  | conditional test consequent alternate => exact (operand test).append
  | call callee args => exact (operand callee).append
  | member object text => exact (operand object).append
  | index object key => exact (operand object).append
  | construct className args => exact starts_word (.inr (.inl rfl))
  | array elements => exact starts_sign (.inr (.inr (.inr (.inr rfl))))
  | ident | number | string | this =>
    exact (leaf_starts rfl).mono fun _ starts => starts.startsExpr
  | await promise => exact starts_word (.inr (.inr (.inl rfl)))
  | arrowBlock | arrowValue =>
    exact starts_sign (.inl (.inr (.inr (.inr (.inr rfl)))))

end Parser

theorem Expr.itemsEach_eq (l : List Expr) : Expr.itemsEach l = l.map Expr.items := by
  induction l with
  | nil => rfl
  | cons e l ih => rw [Expr.itemsEach, ih, List.map_cons]

theorem Expr.nestingEach_le {l : List Expr} {n : Nat} :
    Expr.nestingEach l ≤ n ↔ ∀ e ∈ l, e.nesting ≤ n := by
  induction l with
  | nil => simp [Expr.nestingEach]
  | cons e l ih => rw [Expr.nestingEach, max_le_iff, ih, List.forall_mem_cons]

theorem Expr.regularEach_iff {l : List Expr} : Expr.RegularEach l ↔ ∀ e ∈ l, e.Regular := by
  induction l with
  | nil => simp [Expr.RegularEach]
  | cons e l ih => rw [Expr.RegularEach, ih, List.forall_mem_cons]

theorem Expr.nesting_pos (e : Expr) : 0 < e.nesting := by
  cases e <;> simp [Expr.nesting]

theorem Stmt.bodyItems_eq (body : List Stmt) : Stmt.bodyItems body = (body.map Stmt.items).flatten := by
  induction body with
  | nil => rfl
  | cons s body ih => rw [Stmt.bodyItems, ih, List.map_cons, List.flatten_cons]

theorem Stmt.nestingEach_le {body : List Stmt} {n : Nat} :
    Stmt.nestingEach body ≤ n ↔ ∀ s ∈ body, s.nesting ≤ n := by
  induction body with
  | nil => simp [Stmt.nestingEach]
  | cons s body ih => rw [Stmt.nestingEach, max_le_iff, ih, List.forall_mem_cons]

theorem Stmt.regularEach_iff {body : List Stmt} :
    Stmt.RegularEach body ↔ ∀ s ∈ body, s.Regular := by
  induction body with
  | nil => simp [Stmt.RegularEach]
  | cons s body ih => rw [Stmt.RegularEach, ih, List.forall_mem_cons]

section Names

variable (names : List String)

theorem Expr.itemsEach_names :
    Expr.itemsEach (names.map Expr.ident) = names.map fun text => [Item.name text] := by
  rw [Expr.itemsEach_eq, List.map_map]
  rfl

theorem Expr.regularEach_names : Expr.RegularEach (names.map Expr.ident) := by
  rw [Expr.regularEach_iff]
  intro e present
  obtain ⟨text, _, rfl⟩ := List.mem_map.mp present
  trivial

theorem Expr.nestingEach_names_le {n : Nat} :
    Expr.nestingEach (names.map Expr.ident) ≤ n ↔ Rendering.paramsNesting names ≤ n := by
  rw [Expr.nestingEach_le, List.forall_mem_map]
  cases names with
  | nil => simp [Rendering.paramsNesting]
  | cons text names =>
    simp only [Rendering.paramsNesting, Expr.nesting, List.cons_ne_nil, if_false]
    exact ⟨fun all => all text List.mem_cons_self, fun enough _ _ => enough⟩

theorem Expr.mapM_name?_names : (names.map Expr.ident).mapM Expr.name? = some names := by
  induction names with
  | nil => rfl
  | cons text names ih => simp [List.mapM_cons, Expr.name?, ih]

end Names

namespace Parser

theorem stmt_starts (s : Stmt) : Starts Token.Kind.startsStmt s.items := by
  have word : ∀ {keyword : Keyword} {items : List Item},
      keyword ≠ .else_ ∧ keyword ≠ .catch_ ∧ keyword ≠ .finally_ →
        Starts Token.Kind.startsStmt (.word keyword :: items) := by
    intro keyword items other
    exact starts_word (by simpa [Token.Kind.startsStmt, Token.Kind.endsStmt] using other)
  cases s with
  | declare text value => cases value <;> exact word (by decide)
  | function decl =>
    obtain ⟨text, names, body, isAsync⟩ := decl
    cases isAsync <;> exact word (by decide)
  | ret value => cases value <;> exact word (by decide)
  | classDecl decl =>
    obtain ⟨text, fields, methods⟩ := decl
    exact word (by decide)
  | expr value => exact ((items_starts value).mono fun _ starts => starts.startsStmt).append
  | _ => exact word (by decide)

/-- One level further in, everything is read back that goes at most `n` levels in. -/
structure Level (inner : Nested) (n : Nat) : Prop where
  expression : ∀ {e : Expr}, e.Regular →
    Reads inner.assignment e.items e Token.Kind.endsExpr (e.nesting ≤ n)
  operand : ∀ {e : Expr}, e.Regular →
    Reads inner.assignment (e.grouped e.items) e Token.Kind.endsExpr
      (1 + e.groupedNesting e.nesting ≤ n)
  alternate : ∀ {e : Expr}, e.Regular →
    Reads inner.conditional (e.grouped e.items) e Token.Kind.endsExpr
      (1 + e.groupedNesting e.nesting ≤ n)
  unary : ∀ {e : Expr}, e.Regular →
    Reads inner.unary (e.grouped e.items) e Token.Kind.endsAccess
      (1 + e.groupedNesting e.nesting ≤ n)
  statement : ∀ {s : Stmt}, s.Regular →
    Reads inner.statement s.items s Token.Kind.endsStmt (s.nesting ≤ n)

namespace Level

variable {inner : Nested} {n : Nat} (level : Level inner n)

include level

theorem block {body : List Stmt} (regular : Stmt.RegularEach body) (place : BlockPlace) :
    Reads (blockOf inner place) (Rendering.braces (Stmt.bodyItems body)) body anything
      (Stmt.nestingEach body ≤ n) := by
  have statements : Reads (many (fun t => t.kind = .symbol .closeBrace) inner.statement inner.strict)
      (Stmt.bodyItems body) body (· = .symbol .closeBrace) (Stmt.nestingEach body ≤ n) := by
    rw [Stmt.bodyItems_eq]
    have each : ∀ s ∈ body, Reads inner.statement s.items s Token.Kind.endsStmt (s.nesting ≤ n) :=
      fun s present => level.statement (Stmt.regularEach_iff.mp regular s present)
    refine (Reads.many_braced inner.strict each ?_ ?_).congr Stmt.nestingEach_le.symm
    · exact fun s _ => (stmt_starts s).mono fun _ starts => ⟨starts.2.1, starts.1⟩
    · simp [Token.Kind.endsStmt]
  refine Reads.congr (Reads.bind_token Reads.expectSymbol
    (statements.bind Reads.expectSymbol.pure_last (leads_sign rfl))) (by simp)

theorem expression_then {β : Type} {e : Expr} (regular : e.Regular) {symbol : Symbol}
    (ends : symbol.continues = false) {complaint : Complaint} {g : Expr → β} :
    Reads (inner.assignment >>= fun value => Parser.expectSymbol symbol complaint >>= fun _ =>
      Pure.pure (g value)) (e.items ++ [.sign symbol]) (g e) anything (e.nesting ≤ n) :=
  Reads.congr ((level.expression regular).bind Reads.expectSymbol.pure_last
    (leads_sign (Token.Kind.endsExpr_symbol ends))) (by simp)

theorem expressionList {l : List Expr} (regular : Expr.RegularEach l) {close : Symbol}
    (closes : close = .closeParen ∨ close = .closeBracket) :
    Reads (expressionList inner close) (Rendering.listed (Expr.itemsEach l)) l (· = .symbol close)
      (Expr.nestingEach l ≤ n) := by
  rw [Expr.itemsEach_eq]
  cases l with
  | nil =>
    refine Reads.congr (Reads.bind_ahead Reads.sees_true (Reads.pure.restrict fun _ _ => trivial) ?_)
      (by simp [Expr.nestingEach])
    exact fun kind same => same
  | cons first rest =>
    have each : ∀ e ∈ first :: rest,
        Reads inner.assignment e.items e Token.Kind.endsExpr (e.nesting ≤ n) :=
      fun e present => level.expression (Expr.regularEach_iff.mp regular e present)
    have separated := Reads.commaSeparated (List.cons_ne_nil first rest) each
      (Token.Kind.endsExpr_symbol rfl)
    have ended : ∀ kind : Token.Kind,
        kind = .symbol close → kind.endsExpr ∧ kind ≠ .symbol .comma := by
      rintro kind rfl
      rcases closes with rfl | rfl
      · exact ⟨Token.Kind.endsExpr_symbol rfl, by simp⟩
      · exact ⟨Token.Kind.endsExpr_symbol rfl, by simp⟩
    refine Reads.congr (Reads.bind_ahead Reads.sees_false (separated.restrict ended) ?_)
      Expr.nestingEach_le.symm
    refine (items_starts first).append.leads fun kind starts => starts.ne_symbol ?_
    rcases closes with rfl | rfl <;> decide

theorem callArguments {l : List Expr} (regular : Expr.RegularEach l) :
    Reads (callArguments inner) (Rendering.listed (Expr.itemsEach l) ++ [.sign .closeParen]) l
      anything (Expr.nestingEach l ≤ n) :=
  Reads.congr ((level.expressionList regular (.inl rfl)).bind Reads.expectSymbol.pure_last
    (leads_sign rfl)) (by simp)

theorem parenthesized_expr {e : Expr} (regular : e.Regular) :
    Reads (parenthesized inner) (e.items ++ [.sign .closeParen]) e (· ≠ .symbol .arrow)
      (e.nesting ≤ n) := by
  have one := level.expressionList (Expr.regularEach_iff.mpr (List.forall_mem_singleton.mpr regular))
    (.inl rfl)
  have items : Rendering.listed (Expr.itemsEach [e]) = e.items := by
    simp [Expr.itemsEach, Rendering.listed]
  rw [items] at one
  refine Reads.congr (one.bind (Reads.bind_token Reads.expectSymbol
    (Reads.bind_ahead Reads.sees_false (Reads.pure.restrict fun _ _ => trivial) ?_))
    (leads_sign rfl)) (by simp [Expr.nestingEach])
  exact fun kind other => other

omit level in
theorem primary_leaf {e : Expr} (leaf : e.isLeaf = true) :
    Reads (primary inner) e.items e anything True := by
  cases e with
  | ident text =>
    exact Reads.onToken_some fun t shows => ⟨Parser.pure (.ident text), by rw [shows.1, shows.2], .pure⟩
  | number value =>
    refine Reads.onToken_some fun t shows => ⟨Parser.pure (.number value), ?_, .pure⟩
    rw [shows.1, shows.2]
    rfl
  | string raw =>
    exact Reads.onToken_some fun t shows => ⟨Parser.pure (.string raw), by rw [shows.1, shows.2], .pure⟩
  | this =>
    refine Reads.onToken_some fun t shows => ⟨Parser.pure .this, ?_, .pure⟩
    have kind : t.kind = .keyword .this_ := shows
    rw [kind]
  | _ => cases leaf

theorem primary_grouped {e : Expr} (regular : e.Regular) :
    Reads (primary inner) (e.grouped e.items) e (· ≠ .symbol .arrow)
      (e.groupedNesting e.nesting ≤ n) := by
  cases leaf : e.isLeaf with
  | true =>
    rw [Expr.grouped, if_pos leaf, Expr.groupedNesting, if_pos leaf]
    exact ((primary_leaf leaf).restrict fun _ _ => trivial).congr (by simp)
  | false =>
    rw [Expr.grouped, if_neg (by simp [leaf]), Expr.groupedNesting, if_neg (by simp [leaf])]
    refine Reads.onToken_some fun t shows => ⟨parenthesized inner, ?_, level.parenthesized_expr regular⟩
    have kind : t.kind = .symbol .openParen := shows
    rw [kind]

omit level in
theorem access_stop (e : Expr) :
    Reads (iterate (access inner) e) [] e Token.Kind.endsAccess True := by
  refine Reads.iterate_stop.restrict fun kind ends t same => ?_
  unfold access
  rw [same]
  split
  · exact absurd rfl (ends.ne rfl)
  · exact absurd rfl (ends.ne rfl)
  · exact absurd rfl (ends.ne rfl)
  · rfl

omit level in
theorem chain_stop {xs : List Item} {e : Expr} {F : Token.Kind → Prop} {c : Prop}
    (reads : Reads (primary inner) xs e F c) :
    Reads (accessChain inner) xs e (fun kind => F kind ∧ kind.endsAccess) c :=
  reads.bind_end (access_stop e)

theorem chain_access {object e : Expr} (regular : object.Regular) {symbol : Symbol}
    (other : symbol ≠ .arrow) {next : Parser Expr} {xs : List Item} {d : Prop}
    (knows : ∀ t : Token, t.kind = .symbol symbol → access inner object t = some next)
    (reads : Reads next xs e anything d) :
    Reads (accessChain inner) (object.grouped object.items ++ .sign symbol :: xs) e
      Token.Kind.endsAccess (object.groupedNesting object.nesting ≤ n ∧ d) := by
  have step : Reads (iterate (access inner) object) (.sign symbol :: xs) e
      (fun kind => anything kind ∧ kind.endsAccess) d :=
    Reads.iterate_once (fun t shows => ⟨next, knows t shows, reads⟩) (access_stop e)
  refine (level.primary_grouped regular).bind (step.restrict fun _ ends => ⟨trivial, ends⟩)
    (leads_sign ?_)
  simpa using other

omit level in
theorem unary_of_chain {xs : List Item} {e : Expr} {F : Token.Kind → Prop} {c : Prop}
    (reads : Reads (accessChain inner) xs e F c) (starts : Starts (· ≠ .symbol .minus) xs) :
    Reads (unaryOf inner) xs e F c := by
  exact Reads.bind_ahead Reads.accept_false reads (starts.leads fun _ other => other)

theorem unary_grouped {e : Expr} (regular : e.Regular) :
    Reads (unaryOf inner) (e.grouped e.items) e Token.Kind.endsAccess
      (e.groupedNesting e.nesting ≤ n) := by
  refine unary_of_chain ((chain_stop (level.primary_grouped regular)).restrict ?_) ?_
  · exact fun kind ends => ⟨ends.ne rfl, ends⟩
  · exact (grouped_starts e).mono fun kind starts => starts.ne_symbol (by decide)

theorem unary_access {object e : Expr} (regular : object.Regular) {symbol : Symbol}
    (other : symbol ≠ .arrow) {next : Parser Expr} {xs : List Item} {d : Prop}
    (knows : ∀ t : Token, t.kind = .symbol symbol → access inner object t = some next)
    (reads : Reads next xs e anything d) :
    Reads (unaryOf inner) (object.grouped object.items ++ .sign symbol :: xs) e
      Token.Kind.endsAccess (object.groupedNesting object.nesting ≤ n ∧ d) := by
  refine unary_of_chain (level.chain_access regular other knows reads) ?_
  exact ((grouped_starts object).mono fun kind starts => starts.ne_symbol (by decide)).append

theorem unary_call {callee : Expr} {args : List Expr} (regularCallee : callee.Regular)
    (regularArgs : Expr.RegularEach args) :
    Reads (unaryOf inner) (Expr.call callee args).items (.call callee args) Token.Kind.endsAccess
      (callee.groupedNesting callee.nesting ≤ n ∧ Expr.nestingEach args ≤ n) :=
  level.unary_access regularCallee (by decide) (fun t kind => by rw [access, kind])
    (level.callArguments regularArgs).map

theorem unary_member {object : Expr} (regular : object.Regular) (text : String) :
    Reads (unaryOf inner) (Expr.member object text).items (.member object text)
      Token.Kind.endsAccess (object.groupedNesting object.nesting ≤ n ∧ True) :=
  level.unary_access regular (by decide) (fun t kind => by rw [access, kind]) Reads.propertyName.map

theorem unary_index {object key : Expr} (regularObject : object.Regular) (regularKey : key.Regular) :
    Reads (unaryOf inner) (Expr.index object key).items (.index object key) Token.Kind.endsAccess
      (object.groupedNesting object.nesting ≤ n ∧ key.nesting ≤ n) :=
  level.unary_access regularObject (by decide) (fun t kind => by rw [access, kind])
    (level.expression_then regularKey rfl)

-- Forms that start with a token of their own.
omit level in
theorem unary_primary {xs : List Item} {e : Expr} {F : Token.Kind → Prop} {c : Prop}
    (reads : Reads (primary inner) xs e F c) (starts : Starts (· ≠ .symbol .minus) xs) :
    Reads (unaryOf inner) xs e (fun kind => F kind ∧ kind.endsAccess) c :=
  unary_of_chain (chain_stop reads) starts

theorem primary_construct (className : String) {args : List Expr} (regular : Expr.RegularEach args) :
    Reads (primary inner) (Expr.construct className args).items (.construct className args) anything
      (Expr.nestingEach args ≤ n) := by
  refine Reads.onToken_some fun t shows => ⟨construction inner, ?_, ?_⟩
  · have kind : t.kind = .keyword .new_ := shows
    rw [kind]
  · exact Reads.bind_token Reads.expectName
      (Reads.bind_token Reads.acceptSymbol_true (level.callArguments regular).pure_last)

theorem primary_array {elements : List Expr} (regular : Expr.RegularEach elements) :
    Reads (primary inner) (Expr.array elements).items (.array elements) anything
      (Expr.nestingEach elements ≤ n) := by
  refine Reads.onToken_some fun t shows => ⟨arrayElements inner, ?_, ?_⟩
  · have kind : t.kind = .symbol .openBracket := shows
    rw [kind]
  · exact Reads.congr ((level.expressionList regular (.inr rfl)).bind Reads.expectSymbol.pure_last
      (leads_sign rfl)) (by simp)

theorem primary_await {promise : Expr} (regular : promise.Regular) :
    Reads (primary inner) (Expr.await promise).items (.await promise) Token.Kind.endsExpr
      (1 + promise.groupedNesting promise.nesting ≤ n) := by
  refine Reads.onToken_some fun t shows => ⟨.await <$> inner.assignment, ?_, (level.operand regular).map⟩
  have kind : t.kind = .keyword .await_ := shows
  rw [kind]

theorem primary_arrow (names : List String) {ys : List Item} {e : Expr} {F : Token.Kind → Prop}
    {d : Prop}
    (reads : Reads (sees .openBrace >>= fun block =>
        if block then blockOf inner .arrowBody >>= fun body => Pure.pure (Expr.arrowBlock names body)
        else inner.assignment >>= fun value => Pure.pure (Expr.arrowValue names value)) ys e F d) :
    Reads (primary inner) (Rendering.params names ++ .sign .arrow :: ys) e F
      (Rendering.paramsNesting names ≤ n ∧ d) := by
  have listed := level.expressionList (Expr.regularEach_names names) (.inl rfl)
  rw [Expr.itemsEach_names] at listed
  have behind : Reads (parenthesized inner) (Rendering.listed (names.map fun text => [.name text]) ++
      .sign .closeParen :: .sign .arrow :: ys) e F
        (Expr.nestingEach (names.map Expr.ident) ≤ n ∧ d) := by
    refine listed.bind (Reads.bind_token Reads.expectSymbol
      (Reads.bind_ahead Reads.sees_true ?_ (leads_sign rfl))) (leads_sign rfl)
    simp only [Expr.mapM_name?_names, if_true]
    exact Reads.bind_token Reads.skip reads
  have shape : Rendering.params names ++ .sign .arrow :: ys = .sign .openParen ::
      (Rendering.listed (names.map fun text => [.name text]) ++
        .sign .closeParen :: .sign .arrow :: ys) := by
    simp [Rendering.params, Rendering.parens]
  rw [shape]
  refine (Reads.onToken_some fun t shows => ⟨parenthesized inner, ?_, behind⟩).congr
    (by rw [Expr.nestingEach_names_le])
  have kind : t.kind = .symbol .openParen := shows
  rw [kind]

theorem primary_arrowBlock (names : List String) {body : List Stmt}
    (regular : Stmt.RegularEach body) :
    Reads (primary inner) (Expr.arrowBlock names body).items (.arrowBlock names body) anything
      (Rendering.paramsNesting names ≤ n ∧ Stmt.nestingEach body ≤ n) :=
  level.primary_arrow names
    (Reads.bind_ahead Reads.sees_true (level.block regular _).pure_last (leads_sign rfl))

theorem primary_arrowValue (names : List String) {value : Expr} (regular : value.Regular) :
    Reads (primary inner) (Expr.arrowValue names value).items (.arrowValue names value)
      Token.Kind.endsExpr
      (Rendering.paramsNesting names ≤ n ∧ 1 + value.groupedNesting value.nesting ≤ n) := by
  refine level.primary_arrow names
    (Reads.bind_ahead Reads.sees_false (level.operand regular).pure_last ?_)
  exact (grouped_starts value).leads fun kind starts => starts.ne_symbol (by decide)

theorem unary_items {e : Expr} (regular : e.Regular)
    (tight : (∀ target value, e ≠ .assign target value) ∧ (∀ op left right, e ≠ .binary op left right) ∧
      ∀ test consequent alternate, e ≠ .conditional test consequent alternate) :
    Reads (unaryOf inner) e.items e Token.Kind.endsExpr (e.nesting ≤ n + 1) := by
  have ofAccess : ∀ {c : Prop}, Reads (unaryOf inner) e.items e Token.Kind.endsAccess c →
      Reads (unaryOf inner) e.items e Token.Kind.endsExpr c :=
    fun reads => reads.restrict fun _ ends => ends.endsAccess
  have ofPrimary : ∀ {F : Token.Kind → Prop} {c : Prop}, Reads (primary inner) e.items e F c →
      Starts (· ≠ .symbol .minus) e.items → (∀ kind : Token.Kind, kind.endsExpr → F kind) →
      Reads (unaryOf inner) e.items e Token.Kind.endsExpr c := fun reads starts within =>
    (unary_primary reads starts).restrict fun kind ends => ⟨within kind ends, ends.endsAccess⟩
  cases e with
  | assign target value => exact absurd rfl (tight.1 target value)
  | binary op left right => exact absurd rfl (tight.2.1 op left right)
  | conditional test consequent alternate => exact absurd rfl (tight.2.2 test consequent alternate)
  | negate operand =>
    have inside : operand.Regular := regular
    have reads := (level.unary inside).restrict fun kind (ends : kind.endsExpr) => ends.endsAccess
    refine Reads.congr (Reads.bind_token Reads.acceptSymbol_true reads.pure_last) ?_
    rw [Expr.nesting]
    omega
  | call callee args =>
    refine (ofAccess (level.unary_call regular.1 regular.2)).congr ?_
    rw [Expr.nesting]
    omega
  | member object text =>
    have inside : object.Regular := regular
    refine (ofAccess (level.unary_member inside text)).congr ?_
    rw [Expr.nesting, and_true]
    omega
  | index object key =>
    refine (ofAccess (level.unary_index regular.1 regular.2)).congr ?_
    rw [Expr.nesting]
    omega
  | construct className args =>
    refine (ofPrimary (level.primary_construct className regular) (starts_word (by simp))
      fun _ _ => trivial).congr ?_
    rw [Expr.nesting]
    omega
  | array elements =>
    refine (ofPrimary (level.primary_array regular) (starts_sign (by simp))
      fun _ _ => trivial).congr ?_
    rw [Expr.nesting]
    omega
  | ident | number | string | this =>
    refine (ofAccess (level.unary_grouped regular)).congr ?_
    simp [Expr.groupedNesting, Expr.isLeaf, Expr.nesting]
  | await promise =>
    have inside : promise.Regular := regular
    refine (ofPrimary (level.primary_await inside) (starts_word (by simp)) fun _ ends => ends).congr ?_
    rw [Expr.nesting]
    omega
  | arrowBlock names body =>
    refine (ofPrimary (level.primary_arrowBlock names regular) (starts_sign (by simp))
      fun _ _ => trivial).congr ?_
    rw [Expr.nesting]
    omega
  | arrowValue names value =>
    have inside : value.Regular := regular
    refine (ofPrimary (level.primary_arrowValue names inside) (starts_sign (by simp))
      fun _ ends => ends).congr ?_
    rw [Expr.nesting]
    omega

end Level

def NoOp (op? : Symbol → Option BinaryOp) (kind : Token.Kind) : Prop :=
  ∀ symbol, kind = .symbol symbol → op? symbol = none

section Chains

variable {op? : Symbol → Option BinaryOp} {operand : Parser Expr} {xs ys : List Item} {l r : Expr}
  {F : Token.Kind → Prop} {c d : Prop}

theorem joined_stop (e : Expr) : Reads (iterate (joined op? operand) e) [] e (NoOp op?) True := by
  refine Reads.iterate_stop.restrict fun kind other t same => ?_
  unfold joined
  rw [same]
  split
  · next sign => rw [other sign rfl, Option.map_none]
  · rfl

theorem leftChain_single (reads : Reads operand xs l F c) :
    Reads (leftChain op? operand) xs l (fun kind => F kind ∧ NoOp op? kind) c :=
  reads.bind_end (joined_stop l)

theorem leftChain_pair {sign : Symbol} {op : BinaryOp} (known : op? sign = some op)
    (left : Reads operand xs l F c) (right : Reads operand ys r F d) (between : F (.symbol sign)) :
    Reads (leftChain op? operand) (xs ++ .sign sign :: ys) (.binary op l r)
      (fun kind => F kind ∧ NoOp op? kind) (c ∧ d) := by
  refine left.bind (Reads.iterate_once (fun t shows => ⟨.binary op l <$> operand, ?_, right.map⟩)
    (joined_stop _)) (leads_sign between)
  have kind : t.kind = .symbol sign := shows
  simp only [joined, kind, known, Option.map_some]

end Chains

/-- The chains of `disjunction` one inside the other, the loosest operators first. -/
def ladder (inner : Nested) : List (Symbol → Option BinaryOp) → Parser Expr
  | [] => unaryOf inner
  | op? :: ops => leftChain op? (ladder inner ops)

def operators : List (Symbol → Option BinaryOp) :=
  [orOp?, andOp?, comparisonOp?, sumOp?, productOp?]

theorem disjunction_eq_ladder (inner : Nested) : disjunction inner = ladder inner operators := rfl

theorem op_place (op : BinaryOp) : ∃ above op? below, operators = above ++ op? :: below ∧
    op? op.sign = some op ∧ ∀ other ∈ below, other op.sign = none := by
  cases op with
  | or => exact ⟨[], _, _, rfl, rfl, by simp [BinaryOp.sign, andOp?, comparisonOp?, sumOp?, productOp?]⟩
  | and => exact ⟨[orOp?], _, _, rfl, rfl, by simp [BinaryOp.sign, comparisonOp?, sumOp?, productOp?]⟩
  | eq | ne | lt | gt | le | ge =>
    exact ⟨[orOp?, andOp?], _, _, rfl, rfl, by simp [BinaryOp.sign, sumOp?, productOp?]⟩
  | add | sub =>
    exact ⟨[orOp?, andOp?, comparisonOp?], _, _, rfl, rfl, by simp [BinaryOp.sign, productOp?]⟩
  | mul | div | mod =>
    exact ⟨[orOp?, andOp?, comparisonOp?, sumOp?], _, _, rfl, rfl, by simp⟩

section Ladder

def EndsLadder (F : Token.Kind → Prop) (ops : List (Symbol → Option BinaryOp))
    (kind : Token.Kind) : Prop :=
  F kind ∧ ∀ op? ∈ ops, NoOp op? kind

variable {inner : Nested} {xs ys : List Item} {e l r : Expr} {F : Token.Kind → Prop} {c d : Prop}
  {op : BinaryOp} {op? : Symbol → Option BinaryOp} {ops below : List (Symbol → Option BinaryOp)}

theorem EndsLadder.tail {kind : Token.Kind} (ends : EndsLadder F (op? :: ops) kind) :
    EndsLadder F ops kind ∧ NoOp op? kind :=
  have each := List.forall_mem_cons.mp ends.2
  ⟨⟨ends.1, each.2⟩, each.1⟩

theorem ladder_single (ops : List (Symbol → Option BinaryOp))
    (reads : Reads (unaryOf inner) xs e F c) :
    Reads (ladder inner ops) xs e (EndsLadder F ops) c := by
  induction ops with
  | nil => exact reads.restrict fun _ ends => ends.1
  | cons op? ops ih => exact (leftChain_single ih).restrict fun _ ends => ends.tail

theorem ladder_pair (above : List (Symbol → Option BinaryOp)) (known : op? op.sign = some op)
    (looser : ∀ other ∈ below, other op.sign = none)
    (left : Reads (unaryOf inner) xs l F c) (right : Reads (unaryOf inner) ys r F d)
    (between : F (.symbol op.sign)) :
    Reads (ladder inner (above ++ op? :: below)) (xs ++ .sign op.sign :: ys) (.binary op l r)
      (EndsLadder F (above ++ op? :: below)) (c ∧ d) := by
  induction above with
  | nil =>
    have operator : EndsLadder F below (.symbol op.sign) :=
      ⟨between, fun other present symbol same => by cases same; exact looser other present⟩
    exact (leftChain_pair known (ladder_single below left) (ladder_single below right)
      operator).restrict fun _ ends => ends.tail
  | cons outer above ih => exact (leftChain_single ih).restrict fun _ ends => ends.tail

theorem endsLadder_symbol {symbol : Symbol} (other : symbol.accesses = false)
    (none : ∀ op? ∈ operators, op? symbol = none) :
    EndsLadder Token.Kind.endsAccess operators (.symbol symbol) := by
  refine ⟨Token.Kind.endsAccess_symbol other, ?_⟩
  rintro op? present _ ⟨⟩
  exact none op? present

theorem endsLadder_of_endsExpr {kind : Token.Kind} (follows : F kind) (ends : kind.endsExpr) :
    EndsLadder F operators kind := by
  refine ⟨follows, ?_⟩
  rintro op? present symbol rfl
  have stays := ends symbol rfl
  revert op?
  cases symbol <;> first | decide | cases stays

end Ladder

namespace Level

variable {inner : Nested} {n : Nat} (level : Level inner n)

section Passing

variable {xs : List Item} {e : Expr} {F : Token.Kind → Prop} {c : Prop}

theorem conditional_of_disjunction (reads : Reads (disjunction inner) xs e F c) :
    Reads (conditionalOf inner) xs e (fun kind => F kind ∧ kind ≠ .symbol .question) c :=
  reads.bind_end (Reads.accept_absent Reads.pure)

theorem assignment_of_conditional (reads : Reads (conditionalOf inner) xs e F c) :
    Reads (assignmentOf inner) xs e (fun kind => F kind ∧ kind ≠ .symbol .assign) c := by
  have last : Reads (Pure.pure e : Parser Expr) [] e (· ≠ .symbol .assign) True :=
    Reads.pure.restrict fun _ _ => trivial
  exact reads.bind_end (Reads.bind_ahead Reads.sees_false last fun _ other => other)

end Passing

include level

theorem disjunction_grouped {e : Expr} (regular : e.Regular) :
    Reads (disjunction inner) (e.grouped e.items) e (EndsLadder Token.Kind.endsAccess operators)
      (e.groupedNesting e.nesting ≤ n) :=
  ladder_single operators (level.unary_grouped regular)

theorem disjunction_binary (op : BinaryOp) {left right : Expr} (regularLeft : left.Regular)
    (regularRight : right.Regular) :
    Reads (disjunction inner) (Expr.binary op left right).items (.binary op left right)
      (EndsLadder Token.Kind.endsAccess operators)
      (left.groupedNesting left.nesting ≤ n ∧ right.groupedNesting right.nesting ≤ n) := by
  obtain ⟨above, op?, below, place, known, looser⟩ := op_place op
  rw [disjunction_eq_ladder, place]
  refine ladder_pair above known looser (level.unary_grouped regularLeft)
    (level.unary_grouped regularRight) (Token.Kind.endsAccess_symbol ?_)
  cases op <;> rfl

theorem conditional_grouped {e : Expr} (regular : e.Regular) :
    Reads (conditionalOf inner) (e.grouped e.items) e
      (fun kind => EndsLadder Token.Kind.endsAccess operators kind ∧ kind ≠ .symbol .question)
      (e.groupedNesting e.nesting ≤ n) :=
  conditional_of_disjunction (level.disjunction_grouped regular)

theorem conditional_items {test consequent alternate : Expr} (regularTest : test.Regular)
    (regularConsequent : consequent.Regular) (regularAlternate : alternate.Regular) :
    Reads (conditionalOf inner) (Expr.conditional test consequent alternate).items
      (.conditional test consequent alternate) Token.Kind.endsExpr
      (test.groupedNesting test.nesting ≤ n ∧ 1 + consequent.groupedNesting consequent.nesting ≤ n ∧
        1 + alternate.groupedNesting alternate.nesting ≤ n) := by
  refine (level.disjunction_grouped regularTest).bind (Reads.bind_token
    Reads.acceptSymbol_true ?_) (leads_sign (endsLadder_symbol rfl (by decide)))
  exact (level.operand regularConsequent).bind
    (Reads.bind_token Reads.expectSymbol (level.alternate regularAlternate).pure_last)
    (leads_sign (Token.Kind.endsExpr_symbol rfl))

theorem assignment_items {target value : Expr} (isTarget : isTarget target = true)
    (regularTarget : target.Regular) (regularValue : value.Regular) :
    Reads (assignmentOf inner) (Expr.assign target value).items (.assign target value)
      Token.Kind.endsExpr (target.groupedNesting target.nesting ≤ n ∧ value.nesting ≤ n) := by
  refine (level.conditional_grouped regularTarget).bind (Reads.bind_ahead Reads.sees_true ?_
    (leads_sign rfl)) (leads_sign ⟨endsLadder_symbol rfl (by decide), by simp⟩)
  simp only [isTarget, if_true]
  exact Reads.bind_token Reads.skip (level.expression regularValue).pure_last

theorem expression_items {e : Expr} (regular : e.Regular) :
    Reads (assignmentOf inner) e.items e Token.Kind.endsExpr (e.nesting ≤ n + 1) := by
  have ofConditional : ∀ {c : Prop}, Reads (conditionalOf inner) e.items e Token.Kind.endsExpr c →
      Reads (assignmentOf inner) e.items e Token.Kind.endsExpr c := fun reads =>
    (assignment_of_conditional reads).restrict fun _ ends => ⟨ends, ends.ne rfl⟩
  have ofDisjunction : ∀ {F : Token.Kind → Prop} {c : Prop},
      Reads (disjunction inner) e.items e (EndsLadder F operators) c →
      (∀ kind : Token.Kind, kind.endsExpr → F kind) →
      Reads (assignmentOf inner) e.items e Token.Kind.endsExpr c := fun reads within =>
    ofConditional ((conditional_of_disjunction reads).restrict fun kind ends =>
      ⟨endsLadder_of_endsExpr (within kind ends) ends, ends.ne rfl⟩)
  cases e with
  | assign target value =>
    refine (level.assignment_items regular.1 regular.2.1 regular.2.2).congr ?_
    rw [Expr.nesting]
    omega
  | binary op left right =>
    refine (ofDisjunction (level.disjunction_binary op regular.1 regular.2)
      fun _ ends => ends.endsAccess).congr ?_
    rw [Expr.nesting]
    omega
  | conditional test consequent alternate =>
    refine (ofConditional (level.conditional_items regular.1 regular.2.1 regular.2.2)).congr ?_
    rw [Expr.nesting]
    omega
  | _ =>
    exact ofDisjunction (ladder_single operators (level.unary_items regular (by simp)))
      fun _ ends => ends

theorem expression_grouped {e : Expr} (regular : e.Regular) :
    Reads (assignmentOf inner) (e.grouped e.items) e Token.Kind.endsExpr
      (e.groupedNesting e.nesting ≤ n) :=
  (assignment_of_conditional (level.conditional_grouped regular)).restrict fun _ ends =>
    ⟨⟨endsLadder_of_endsExpr ends.endsAccess ends, ends.ne rfl⟩, ends.ne rfl⟩

end Level

end Parser

end ScriptCpp
