import Mathlib
import ScriptCpp.Proofs.Parsing.Brackets
import ScriptCpp.Proofs.Parsing.Parallel

set_option autoImplicit false

namespace ScriptCpp

/-!
The grammar walked in two runs at once, for every notion of two runs that has a law for each way of
putting parsers together. Where the trees of one level are alike, and each kind of node makes trees
alike out of parts that are alike, the trees of the level around it are alike.
-/

inductive FunctionDecl.Rel (S : Stmt → Stmt → Prop) : FunctionDecl → FunctionDecl → Prop
  | mk (name : String) (params : List String) {body body' : List Stmt} (isAsync : Bool) :
      List.Forall₂ S body body' → Rel S ⟨name, params, body, isAsync⟩ ⟨name, params, body', isAsync⟩

inductive FieldDecl.Rel (E : Expr → Expr → Prop) : FieldDecl → FieldDecl → Prop
  | mk (name : String) {value value' : Option Expr} :
      Option.Rel E value value' → Rel E ⟨name, value⟩ ⟨name, value'⟩

inductive CaseClause.Rel (E : Expr → Expr → Prop) (S : Stmt → Stmt → Prop) : CaseClause → CaseClause → Prop
  | mk {test test' : Expr} {body body' : List Stmt} :
      E test test' → List.Forall₂ S body body' → Rel E S ⟨test, body⟩ ⟨test', body'⟩

inductive CatchClause.Rel (S : Stmt → Stmt → Prop) : CatchClause → CatchClause → Prop
  | mk (param : Option String) {body body' : List Stmt} :
      List.Forall₂ S body body' → Rel S ⟨param, body⟩ ⟨param, body'⟩

namespace Parser

inductive Member.Rel (E₀ : Expr → Expr → Prop) (S₀ : Stmt → Stmt → Prop) : Member → Member → Prop
  | field {decl decl' : FieldDecl} : decl.Rel E₀ decl' → Rel E₀ S₀ (.field decl) (.field decl')
  | method {decl decl' : FunctionDecl} : decl.Rel S₀ decl' → Rel E₀ S₀ (.method decl) (.method decl')

inductive Clause.Rel (E₀ : Expr → Expr → Prop) (S₀ : Stmt → Stmt → Prop) : Clause → Clause → Prop
  | mk {test test' : Option Expr} {body body' : List Stmt} : Option.Rel E₀ test test' →
      List.Forall₂ S₀ body body' → Rel E₀ S₀ ⟨test, body⟩ ⟨test', body'⟩

inductive Arms.Rel (E₀ : Expr → Expr → Prop) (S₀ : Stmt → Stmt → Prop) : Arms → Arms → Prop
  | mk {arms arms' : List (Expr × List Stmt)} {final final' : Option (List Stmt)} :
      List.Forall₂ (fun arm arm' => E₀ arm.1 arm'.1 ∧ List.Forall₂ S₀ arm.2 arm'.2) arms arms' →
        Option.Rel (List.Forall₂ S₀) final final' → Rel E₀ S₀ ⟨arms, final⟩ ⟨arms', final'⟩

namespace Pairing

/-- `E₀` and `S₀` relate what is read one level further in, `E` and `S` what is made of it, and `O` the
`else` parts. -/
structure Layer (w : Pairing) (E₀ E : Expr → Expr → Prop) (S₀ S : Stmt → Stmt → Prop)
    (O : Option (List Stmt) → Option (List Stmt) → Prop) : Prop where
  name {e f : Expr} : E₀ e f → f.name? = e.name?
  target {e f : Expr} : E e f → isTarget f = isTarget e
  paren {e f : Expr} : E₀ e f → E e f
  ident (text : String) : E (.ident text) (.ident text)
  number (value : Binary64) : E (.number value) (.number value)
  string {raw raw' : String} : w.quoted raw raw' → E (.string raw) (.string raw')
  this : E .this .this
  assign {target target' value value' : Expr} : E target target' → E₀ value value' →
    E (.assign target value) (.assign target' value')
  binary (op : BinaryOp) {left left' right right' : Expr} : E left left' → E right right' →
    E (.binary op left right) (.binary op left' right')
  negate {operand operand' : Expr} : E₀ operand operand' → E (.negate operand) (.negate operand')
  conditional {test test' consequent consequent' alternate alternate' : Expr} :
    E test test' → E₀ consequent consequent' → E₀ alternate alternate' →
      E (.conditional test consequent alternate) (.conditional test' consequent' alternate')
  call {callee callee' : Expr} {args args' : List Expr} : E callee callee' → List.Forall₂ E₀ args args' →
    E (.call callee args) (.call callee' args')
  member {object object' : Expr} (name : String) : E object object' →
    E (.member object name) (.member object' name)
  index {object object' key key' : Expr} : E object object' → E₀ key key' →
    E (.index object key) (.index object' key')
  construct (className : String) {args args' : List Expr} : List.Forall₂ E₀ args args' →
    E (.construct className args) (.construct className args')
  array {elements elements' : List Expr} : List.Forall₂ E₀ elements elements' →
    E (.array elements) (.array elements')
  await {promise promise' : Expr} : E₀ promise promise' → E (.await promise) (.await promise')
  arrowBlock (params : List String) {body body' : List Stmt} : List.Forall₂ S₀ body body' →
    E (.arrowBlock params body) (.arrowBlock params body')
  arrowValue (params : List String) {value value' : Expr} : E₀ value value' →
    E (.arrowValue params value) (.arrowValue params value')
  declare (name : String) {value value' : Option Expr} : Option.Rel E₀ value value' →
    S (.declare name value) (.declare name value')
  function {decl decl' : FunctionDecl} : decl.Rel S₀ decl' → S (.function decl) (.function decl')
  classDecl (name : String) {fields fields' : List FieldDecl} {methods methods' : List FunctionDecl} :
    List.Forall₂ (FieldDecl.Rel E₀) fields fields' → List.Forall₂ (FunctionDecl.Rel S₀) methods methods' →
      S (.classDecl ⟨name, fields, methods⟩) (.classDecl ⟨name, fields', methods'⟩)
  importFile {path path' : String} : w.quoted path path' → S (.importFile path) (.importFile path')
  ret {value value' : Option Expr} : Option.Rel E₀ value value' → S (.ret value) (.ret value')
  branch {test test' : Expr} {body body' : List Stmt} {otherwise otherwise' : Option (List Stmt)} :
    E₀ test test' → List.Forall₂ S₀ body body' → O otherwise otherwise' →
      S (.branch test body otherwise) (.branch test' body' otherwise')
  noElse : O none none
  elseBlock {body body' : List Stmt} : List.Forall₂ S₀ body body' → O (some body) (some body')
  elseBranch {test test' : Expr} {body body' : List Stmt} {otherwise otherwise' : Option (List Stmt)} :
    E₀ test test' → List.Forall₂ S₀ body body' → O otherwise otherwise' →
      O (some [.branch test body otherwise]) (some [.branch test' body' otherwise'])
  whileLoop {test test' : Expr} {body body' : List Stmt} : E₀ test test' → List.Forall₂ S₀ body body' →
    S (.whileLoop test body) (.whileLoop test' body')
  forLoop {start start' : Option Stmt} {test test' update update' : Option Expr} {body body' : List Stmt} :
    Option.Rel S₀ start start' → Option.Rel E₀ test test' → Option.Rel E₀ update update' →
      List.Forall₂ S₀ body body' → S (.forLoop start test update body) (.forLoop start' test' update' body')
  switch {subject subject' : Expr} {cases cases' : List CaseClause} {fallback fallback' : Option (List Stmt)} :
    E₀ subject subject' → List.Forall₂ (CaseClause.Rel E₀ S₀) cases cases' →
      Option.Rel (List.Forall₂ S₀) fallback fallback' →
        S (.switch subject cases fallback) (.switch subject' cases' fallback')
  breakLoop : S .breakLoop .breakLoop
  continueLoop : S .continueLoop .continueLoop
  attempt {body body' : List Stmt} {handler handler' : Option CatchClause}
    {cleanup cleanup' : Option (List Stmt)} : List.Forall₂ S₀ body body' →
      Option.Rel (CatchClause.Rel S₀) handler handler' → Option.Rel (List.Forall₂ S₀) cleanup cleanup' →
        S (.attempt body handler cleanup) (.attempt body' handler' cleanup')
  expr {value value' : Expr} : E₀ value value' → S (.expr value) (.expr value')

end Pairing

section Binds

variable {α β : Type}

theorem eq_of_run {p q : Parser α} (same : ∀ stop ts, p.run stop ts = q.run stop ts) : p = q := by
  obtain ⟨run, suffix⟩ := p
  obtain ⟨run', suffix'⟩ := q
  obtain rfl : run = run' := funext fun stop => funext fun ts => same stop ts
  rfl

theorem onToken_bind {known : Token → Option (Parser α)} {other : Parser α} {f : α → Parser β} :
    onToken known other >>= f = onToken (fun t => (known t).map (· >>= f)) (other >>= f) := by
  apply eq_of_run
  intro stop ts
  cases ts with
  | nil => rfl
  | cons t ts =>
    rw [run_bind]
    simp only [onToken]
    cases known t with
    | none => rfl
    | some next => rfl

theorem ofKind_bind (kind : Token.Kind) {value : Token → α} {other : Parser α} {f : α → Parser β} :
    onToken (fun t => if t.kind = kind then some (pure (value t)) else none) other >>= f =
      onToken (fun t => if t.kind = kind then some (f (value t)) else none) (other >>= f) := by
  rw [onToken_bind]
  congr
  funext t
  split
  · rfl
  · rfl

end Binds

/-- A notion of two runs. `Rel due R p q` is about two parsers: where they succeed, `R` relates the
results, and the brackets that are taken close those in `due`. With `On` the next token is of a given
kind, and with `Behind` the last one was given. -/
structure Tandem (w : Pairing) where
  Rel {α β : Type} (due : List Symbol) (R : α → β → Prop) : Parser α → Parser β → Prop
  On {α β : Type} (kind : Token.Kind) (due : List Symbol) (R : α → β → Prop) :
    Parser α → Parser β → Prop
  Behind {α β : Type} (t u : Token) (due : List Symbol) (R : α → β → Prop) :
    Parser α → Parser β → Prop
  pure {α β : Type} {R : α → β → Prop} {a : α} {b : β} : R a b → Rel [] R (Pure.pure a) (Pure.pure b)
  fail {α β : Type} {due : List Symbol} {R : α → β → Prop} (complaint : Complaint) :
    Rel due R (fail complaint) (fail complaint)
  peek : Rel [] (Token.Like w.quoted) peek peek
  andThen {α β γ δ : Type} {due later : List Symbol} {R : α → β → Prop} {S : γ → δ → Prop}
    {p : Parser α} {q : Parser β} {f : α → Parser γ} {g : β → Parser δ} : Rel due R p q →
      (∀ {a b}, R a b → Rel later S (f a) (g b)) → Rel (due ++ later) S (p >>= f) (q >>= g)
  onToken {α β : Type} {due : List Symbol} {R : α → β → Prop} {known : Token → Option (Parser α)}
    {known' : Token → Option (Parser β)} {other : Parser α} {other' : Parser β} :
      (∀ {t u : Token}, t.Like w.quoted u → Option.Rel (Behind t u due R) (known t) (known' u)) →
        Rel due R other other' → Rel due R (onToken known other) (onToken known' other')
  iterate {σ τ : Type} {R : σ → τ → Prop} {step : σ → Token → Option (Parser σ)}
    {step' : τ → Token → Option (Parser τ)} :
      (∀ {s s' t u}, R s s' → t.Like w.quoted u →
        Option.Rel (Behind t u [] R) (step s t) (step' s' u)) →
          ∀ {s s'}, R s s' → Rel [] R (iterate step s) (iterate step' s')
  many {α β : Type} {R : α → β → Prop} {p : Parser α} {q : Parser β} {stops stops' : Token → Bool}
    {strict : p.Strict} {strict' : q.Strict} :
      (∀ {t u : Token}, t.Like w.quoted u → stops' u = stops t) → Rel [] R p q →
        Rel [] (List.Forall₂ R) (many stops p @strict) (many stops' q @strict')
  sees {α β : Type} {due : List Symbol} {R : α → β → Prop} (sign : Symbol) {f : Bool → Parser α}
    {g : Bool → Parser β} : On (.symbol sign) due R (f true) (g true) → Rel due R (f false) (g false) →
      Rel due R (sees sign >>= f) (sees sign >>= g)
  on {α β : Type} {kind : Token.Kind} {due : List Symbol} {R : α → β → Prop} {p : Parser α}
    {q : Parser β} : Rel due R p q → On kind due R p q
  skip {α β : Type} {sign : Symbol} {due later : List Symbol} {R : α → β → Prop} {p : Parser α}
    {q : Parser β} : (Token.Kind.symbol sign).turn due = some later → Rel later R p q →
      On (.symbol sign) due R (skip >>= fun _ => p) (skip >>= fun _ => q)
  behind {α β : Type} {t u : Token} {due later : List Symbol} {R : α → β → Prop} {p : Parser α}
    {q : Parser β} : t.kind ≠ .keyword .if_ → t.kind.turn due = some later → Rel later R p q →
      Behind t u due R p q
  dot {α β : Type} {t u : Token} {R : α → β → Prop} {f : String → α} {g : String → β} :
    t.kind = .symbol .dot → (∀ name, R (f name) (g name)) →
      Behind t u [] R (f <$> propertyName) (g <$> propertyName)
  elseIf {α β : Type} {t u : Token} {R : α → β → Prop} {f : Bool → Parser α} {g : Bool → Parser β} :
    t.kind = .keyword .else_ → Rel [] R (f true) (g true) → Rel [] R (f false) (g false) →
      Behind t u [] R (acceptWord .if_ >>= f) (acceptWord .if_ >>= g)

namespace Tandem

variable {w : Pairing} {T : Tandem w} {α β γ δ : Type} {R : α → β → Prop} {S : γ → δ → Prop}
  {p : Parser α} {q : Parser β} {due later : List Symbol}

theorem bind (T : Tandem w) {f : α → Parser γ} {g : β → Parser δ} (first : T.Rel [] R p q)
    (second : ∀ {a b}, R a b → T.Rel due S (f a) (g b)) : T.Rel due S (p >>= f) (q >>= g) :=
  T.andThen first second

theorem returns {f : α → γ} {g : β → δ} (first : T.Rel due R p q)
    (values : ∀ {a b}, R a b → S (f a) (g b)) :
    T.Rel due S (p >>= fun a => Pure.pure (f a)) (q >>= fun b => Pure.pure (g b)) := by
  rw [← List.append_nil due]
  exact T.andThen first fun related => T.pure (values related)

theorem map {f : α → γ} {g : β → δ} (first : T.Rel due R p q)
    (values : ∀ {a b}, R a b → S (f a) (g b)) : T.Rel due S (f <$> p) (g <$> q) :=
  returns first values

theorem bindSame {p q : Parser α} {f : α → Parser γ} {g : α → Parser δ} (first : T.Rel [] Eq p q)
    (second : ∀ a, T.Rel due S (f a) (g a)) : T.Rel due S (p >>= f) (q >>= g) := by
  apply T.bind first
  rintro a _ rfl
  exact second a

theorem ofKind (kind : Token.Kind) (word : kind ≠ .keyword .if_) (turned : kind.turn due = some later)
    {f : Token → Parser α} {g : Token → Parser β} {other : Parser α} {other' : Parser β}
    (next : ∀ {t u : Token}, t.Like w.quoted u → t.kind = kind → T.Rel later R (f t) (g u))
    (otherwise : T.Rel due R other other') :
    T.Rel due R (Parser.onToken (fun t => if t.kind = kind then some (f t) else none) other)
      (Parser.onToken (fun u => if u.kind = kind then some (g u) else none) other') := by
  refine T.onToken ?_ otherwise
  intro t u like
  rw [like.kind]
  split
  · next same =>
    subst same
    exact .some (T.behind word turned (next like rfl))
  · exact .none

theorem expects (kind : Token.Kind) {complaint : Complaint} (plain : kind ≠ .string)
    (word : kind ≠ .keyword .if_) (turned : kind.turn due = some later) {f : String → Parser α}
    {g : String → Parser β} (next : ∀ text, T.Rel later R (f text) (g text)) :
    T.Rel due R (Parser.expect kind complaint >>= f) (Parser.expect kind complaint >>= g) := by
  unfold Parser.expect
  rw [ofKind_bind, ofKind_bind]
  refine ofKind kind word turned ?_ (T.fail complaint)
  intro t u like same
  rw [like.text (same.trans_ne plain)]
  exact next t.text

theorem expectsString {complaint : Complaint} {f : String → Parser α} {g : String → Parser β}
    (next : ∀ {text text'}, w.quoted text text' → T.Rel due R (f text) (g text')) :
    T.Rel due R (Parser.expect .string complaint >>= f) (Parser.expect .string complaint >>= g) := by
  unfold Parser.expect
  rw [ofKind_bind, ofKind_bind]
  exact ofKind .string nofun rfl (fun like same => next (like.quoted same)) (T.fail complaint)

theorem accepts (kind : Token.Kind) (word : kind ≠ .keyword .if_) (turned : kind.turn due = some later)
    {f : Bool → Parser α} {g : Bool → Parser β} (yes : T.Rel later R (f true) (g true))
    (no : T.Rel due R (f false) (g false)) :
    T.Rel due R (Parser.accept kind >>= f) (Parser.accept kind >>= g) := by
  unfold Parser.accept
  rw [ofKind_bind, ofKind_bind]
  exact ofKind kind word turned (fun _ _ => yes) no

theorem acceptsSign {sign : Symbol} (turned : (Token.Kind.symbol sign).turn due = some later)
    {f : Bool → Parser α} {g : Bool → Parser β} (yes : T.Rel later R (f true) (g true))
    (no : T.Rel due R (f false) (g false)) :
    T.Rel due R (Parser.acceptSymbol sign >>= f) (Parser.acceptSymbol sign >>= g) :=
  accepts (.symbol sign) nofun turned yes no

theorem acceptsWord (keyword : Keyword) (word : keyword ≠ .if_) {f : Bool → Parser α}
    {g : Bool → Parser β} (yes : T.Rel due R (f true) (g true))
    (no : T.Rel due R (f false) (g false)) :
    T.Rel due R (Parser.acceptWord keyword >>= f) (Parser.acceptWord keyword >>= g) :=
  accepts (.keyword keyword) (by simpa using word) rfl yes no

theorem expectSymbol_bind {sign : Symbol} {complaint : Complaint} {p : Parser α} :
    (Parser.expectSymbol sign complaint >>= fun _ => p) =
      Parser.expect (.symbol sign) complaint >>= fun _ => p := by
  apply eq_of_run
  intro stop ts
  rw [run_bind, run_bind, Parser.expectSymbol, run_bind]
  cases (Parser.expect (.symbol sign) complaint).run stop ts with
  | error e => rfl
  | ok read => rfl

theorem sign {sign : Symbol} {complaint : Complaint}
    (turned : (Token.Kind.symbol sign).turn due = some later) (second : T.Rel later R p q) :
    T.Rel due R (Parser.expectSymbol sign complaint >>= fun _ => p)
      (Parser.expectSymbol sign complaint >>= fun _ => q) := by
  rw [expectSymbol_bind, expectSymbol_bind]
  exact expects (.symbol sign) nofun nofun turned fun _ => second

theorem ended {f : α → γ} {g : β → δ} {sign : Symbol} {complaint : Complaint}
    (turned : (Token.Kind.symbol sign).turn due = some []) (first : T.Rel [] R p q)
    (values : ∀ {a b}, R a b → S (f a) (g b)) :
    T.Rel due S (p >>= fun a => Parser.expectSymbol sign complaint >>= fun _ => Pure.pure (f a))
      (q >>= fun b => Parser.expectSymbol sign complaint >>= fun _ => Pure.pure (g b)) :=
  T.bind first fun related => Tandem.sign turned (T.pure (values related))

theorem commaSeparated (item : T.Rel [] R p q) :
    T.Rel [] (List.Forall₂ R) (commaSeparated p) (commaSeparated q) := by
  apply T.bind item
  intro a b related
  refine returns (T.iterate (R := List.Forall₂ R) ?_ (.cons related .nil)) fun gathered =>
    List.rel_reverse gathered
  intro as bs t u others like
  rw [like.kind]
  split
  · next comma =>
    exact .some (T.behind (by rw [comma]; nofun) (by rw [comma]; rfl)
      (map item fun related => .cons related others))
  · exact .none

structure Inside (T : Tandem w) (E₀ : Expr → Expr → Prop) (S₀ : Stmt → Stmt → Prop)
    (inner inner' : Nested) : Prop where
  statement : T.Rel [] S₀ inner.statement inner'.statement
  assignment : T.Rel [] E₀ inner.assignment inner'.assignment
  conditional : T.Rel [] E₀ inner.conditional inner'.conditional
  unary : T.Rel [] E₀ inner.unary inner'.unary

variable {E₀ E : Expr → Expr → Prop} {S₀ S : Stmt → Stmt → Prop}
  {O : Option (List Stmt) → Option (List Stmt) → Prop} {inner inner' : Nested}

theorem rel_getLast? {α β : Type} {R : α → β → Prop} {as : List α} {bs : List β}
    (h : List.Forall₂ R as bs) : Option.Rel R as.getLast? bs.getLast? := by
  have reversed := List.rel_reverse h
  rw [List.getLast?_eq_head?_reverse, List.getLast?_eq_head?_reverse]
  generalize as.reverse = as at reversed
  generalize bs.reverse = bs at reversed
  cases reversed with
  | nil => exact .none
  | cons first _ => exact .some first

theorem parameterList : T.Rel [] Eq Parser.parameterList Parser.parameterList := by
  have name : T.Rel [] Eq (Parser.expect .identifier .parameterName)
      (Parser.expect .identifier .parameterName) :=
    ofKind .identifier nofun rfl (fun like same => T.pure (like.text (same.trans_ne nofun)).symm)
      (T.fail _)
  have names := commaSeparated name
  rw [List.forall₂_eq_eq_eq] at names
  exact sign rfl (acceptsSign rfl (T.pure rfl) (ended rfl names id))

theorem catchParam : T.Rel [] Eq Parser.catchParam Parser.catchParam :=
  acceptsSign rfl (expects .identifier nofun nofun rfl fun _ => sign rfl (T.pure rfl)) (T.pure rfl)

namespace Inside

variable (inside : T.Inside E₀ S₀ inner inner')

include inside

theorem block (place : BlockPlace) :
    T.Rel [] (List.Forall₂ S₀) (blockOf inner place) (blockOf inner' place) := by
  refine sign rfl (ended rfl (T.many ?_ inside.statement) id)
  intro t u like
  rw [like.kind]

theorem expressions (close : Symbol) :
    T.Rel [] (List.Forall₂ E₀) (expressionList inner close) (expressionList inner' close) :=
  T.sees close (T.on (T.pure .nil)) (commaSeparated inside.assignment)

theorem arguments :
    T.Rel [.closeParen] (List.Forall₂ E₀) (callArguments inner) (callArguments inner') :=
  ended rfl (inside.expressions _) id

theorem condition (construct : Construct) :
    T.Rel [] E₀ (condition inner construct) (condition inner' construct) :=
  sign rfl (ended rfl inside.assignment id)

theorem optionalBefore (sign : Symbol) :
    T.Rel [] (Option.Rel E₀) (optionalBefore inner sign) (optionalBefore inner' sign) :=
  T.sees sign (T.on (T.pure .none)) (returns inside.assignment .some)

theorem loopStart : T.Rel [] (Option.Rel S₀) (loopStart inner) (loopStart inner') :=
  acceptsSign rfl (T.pure .none) (returns inside.statement .some)

theorem fieldValue : T.Rel [] (Option.Rel E₀) (fieldValue inner) (fieldValue inner') :=
  acceptsSign rfl (returns inside.assignment .some) (T.pure .none)

theorem memberNamed (name : String) :
    T.Rel [] (Member.Rel E₀ S₀) (memberNamed inner name) (memberNamed inner' name) :=
  T.sees _
    (T.on (bindSame parameterList fun params =>
      returns (inside.block _) fun body => .method (.mk name params false body)))
    (ended rfl inside.fieldValue fun value => .field (.mk name value))

theorem classMember : T.Rel [] (Member.Rel E₀ S₀) (classMember inner) (classMember inner') := by
  have named : T.Rel [] (Member.Rel E₀ S₀)
      (Parser.expect .identifier .memberName >>= Parser.memberNamed inner)
      (Parser.expect .identifier .memberName >>= Parser.memberNamed inner') :=
    expects .identifier nofun nofun rfl inside.memberNamed
  have func : T.Rel [] (Member.Rel E₀ S₀)
      (Parser.acceptWord .func_ >>= fun _ => Parser.expect .identifier .memberName >>= Parser.memberNamed inner)
      (Parser.acceptWord .func_ >>= fun _ => Parser.expect .identifier .memberName >>= Parser.memberNamed inner') :=
    acceptsWord .func_ nofun named named
  exact acceptsWord .let_ nofun func func

theorem clauseBody : T.Rel [] (List.Forall₂ S₀) (clauseBody inner) (clauseBody inner') := by
  refine T.sees _ (T.on (inside.block _)) (T.many ?_ inside.statement)
  intro t u like
  rw [like.kind]

theorem clause : T.Rel [] (Clause.Rel E₀ S₀) (clause inner) (clause inner') := by
  refine T.onToken ?_ (T.fail _)
  rintro ⟨kind, text, position⟩ ⟨kind', text', position'⟩ like
  obtain rfl : kind' = kind := like.kind
  cases kind' with
  | keyword word =>
    cases word with
    | case_ =>
      exact .some (T.behind nofun rfl (T.bind inside.assignment fun test =>
        sign rfl (returns inside.clauseBody fun body => .mk (.some test) body)))
    | default_ =>
      exact .some (T.behind nofun rfl (sign rfl (returns inside.clauseBody fun body => .mk .none body)))
    | _ => exact .none
  | _ => exact .none

theorem nextArm {a b : Arms} (related : a.Rel E₀ S₀ b) {t u : Token} (like : t.Like w.quoted u) :
    Option.Rel (T.Behind t u [] (Arms.Rel E₀ S₀)) (nextArm inner a t) (nextArm inner' b u) := by
  obtain @⟨_, _, final, final', chain, last⟩ := related
  have ended : final'.isNone = final.isNone := by cases last <;> rfl
  simp only [Parser.nextArm, like.kind, ended]
  split
  · next going =>
    have isElse : t.kind = .keyword .else_ := of_decide_eq_true (Bool.and_eq_true_iff.mp going).1
    refine .some (T.elseIf isElse ?_ ?_)
    · exact T.bind (inside.condition _) fun test => returns (inside.block _) fun body =>
        .mk (.cons ⟨test, body⟩ chain) last
    · exact returns (inside.block _) fun body => .mk chain (.some body)
  · exact .none

theorem catchPart :
    T.Rel [] (Option.Rel (CatchClause.Rel S₀)) (catchPart inner) (catchPart inner') :=
  acceptsWord .catch_ nofun
    (bindSame catchParam fun param => returns (inside.block _) fun body => .some (.mk param body))
    (T.pure .none)

theorem finallyPart :
    T.Rel [] (Option.Rel (List.Forall₂ S₀)) (finallyPart inner) (finallyPart inner') :=
  acceptsWord .finally_ nofun (returns (inside.block _) .some) (T.pure .none)

end Inside

end Tandem

namespace Pairing.Layer

open Tandem

variable {w : Pairing} {T : Tandem w} {E₀ E : Expr → Expr → Prop} {S₀ S : Stmt → Stmt → Prop}
  {O : Option (List Stmt) → Option (List Stmt) → Prop} {inner inner' : Nested}
  (layer : w.Layer E₀ E S₀ S O)

include layer

theorem names {items items' : List Expr} (h : List.Forall₂ E₀ items items') :
    items'.mapM Expr.name? = items.mapM Expr.name? := by
  induction h with
  | nil => rfl
  | cons first _ ih => rw [List.mapM_cons, List.mapM_cons, layer.name first, ih]

theorem otherwise {a b : Arms} (related : a.Rel E₀ S₀ b) : O a.otherwise b.otherwise := by
  obtain @⟨arms, arms', final, final', chain, last⟩ := related
  have start : O final final' := by
    cases last with
    | none => exact layer.noElse
    | some body => exact layer.elseBlock body
  clear last
  -- The last arm is folded first, so the parts behind an arm are related before it is.
  induction chain generalizing final final' with
  | nil => exact start
  | cons arm _ ih => exact ih (layer.elseBranch arm.1 arm.2 start)

theorem leftChain {op? : Symbol → Option BinaryOp}
    (plain : ∀ sign op, op? sign = some op → (Token.Kind.symbol sign).turn [] = some [])
    {operand operand' : Parser Expr} (each : T.Rel [] E operand operand') :
    T.Rel [] E (leftChain op? operand) (leftChain op? operand') := by
  refine T.bind each fun first => T.iterate ?_ first
  rintro left left' ⟨kind, text, position⟩ ⟨kind', text', position'⟩ related like
  obtain rfl : kind' = kind := like.kind
  cases kind' with
  | symbol sign =>
    simp only [joined]
    cases known : op? sign with
    | none => exact .none
    | some op =>
      have other : Token.Kind.symbol sign ≠ .keyword .if_ := by simp
      exact .some (T.behind other (plain sign op known) (map each fun right =>
        layer.binary op related right))
  | _ => exact .none

variable (inside : T.Inside E₀ S₀ inner inner')

include inside

theorem parenthesized : T.Rel [.closeParen] E (parenthesized inner) (parenthesized inner') := by
  apply T.bind (inside.expressions _)
  intro items items' related
  refine sign rfl (T.sees _ ?_ ?_)
  · simp only [if_true, layer.names related]
    cases items.mapM Expr.name? with
    | none => exact T.on (T.fail _)
    | some params =>
      exact T.skip rfl (T.sees _
        (T.on (returns (inside.block _) fun body => layer.arrowBlock params body))
        (returns inside.assignment fun value => layer.arrowValue params value))
  · simp only [Bool.false_eq_true, if_false]
    cases related with
    | nil => exact T.fail _
    | cons first rest =>
      cases rest with
      | nil => exact T.pure (layer.paren first)
      | cons => exact T.fail _

theorem construction : T.Rel [] E (construction inner) (construction inner') :=
  expects .identifier nofun nofun rfl fun className => acceptsSign rfl
    (returns inside.arguments fun args => layer.construct className args)
    (T.pure (layer.construct className .nil))

theorem primary : T.Rel [] E (primary inner) (primary inner') := by
  refine T.onToken ?_ (T.bind T.peek ?_)
  · rintro ⟨kind, text, position⟩ ⟨kind', text', position'⟩ like
    obtain rfl : kind' = kind := like.kind
    cases kind' with
    | eof => exact .none
    | identifier =>
      obtain rfl : text' = text := like.text nofun
      exact .some (T.behind nofun rfl (T.pure (layer.ident text')))
    | number =>
      obtain rfl : text' = text := like.text nofun
      cases Binary64.ofText? text' with
      | none => exact .none
      | some value => exact .some (T.behind nofun rfl (T.pure (layer.number value)))
    | string => exact .some (T.behind nofun rfl (T.pure (layer.string (like.quoted rfl))))
    | keyword word =>
      cases word with
      | this_ => exact .some (T.behind nofun rfl (T.pure layer.this))
      | new_ => exact .some (T.behind nofun rfl (layer.construction inside))
      | await_ => exact .some (T.behind nofun rfl (map inside.assignment layer.await))
      | _ => exact .none
    | symbol sign =>
      cases sign with
      | openBracket =>
        exact .some (T.behind nofun rfl (ended rfl (inside.expressions _) layer.array))
      | openParen => exact .some (T.behind nofun rfl (layer.parenthesized inside))
      | _ => exact .none
  · intro t u like
    rw [like.kind]
    exact T.fail _

theorem access {object object' : Expr} (related : E object object') {t u : Token}
    (like : t.Like w.quoted u) :
    Option.Rel (T.Behind t u [] E) (access inner object t) (access inner' object' u) := by
  obtain ⟨kind, text, position⟩ := t
  obtain ⟨kind', text', position'⟩ := u
  obtain rfl : kind' = kind := like.kind
  cases kind' with
  | symbol sign =>
    cases sign with
    | dot => exact .some (T.dot rfl fun name => layer.member name related)
    | openBracket =>
      exact .some (T.behind nofun rfl (ended rfl inside.assignment fun key => layer.index related key))
    | openParen =>
      exact .some (T.behind nofun rfl (map inside.arguments fun args => layer.call related args))
    | _ => exact .none
  | _ => exact .none

theorem unary : T.Rel [] E (unaryOf inner) (unaryOf inner') :=
  acceptsSign rfl (returns inside.unary layer.negate)
    (T.bind (layer.primary inside) fun e =>
      T.iterate (fun object like => layer.access inside object like) e)

theorem disjunction : T.Rel [] E (disjunction inner) (disjunction inner') := by
  refine layer.leftChain ?_ <| layer.leftChain ?_ <| layer.leftChain ?_ <| layer.leftChain ?_ <|
    layer.leftChain ?_ (layer.unary inside)
  all_goals
    intro sign op known
    cases sign <;> first | rfl | cases known

theorem conditionalOf : T.Rel [] E (conditionalOf inner) (conditionalOf inner') :=
  T.bind (layer.disjunction inside) fun test => acceptsSign rfl
    (T.bind inside.assignment fun consequent =>
      sign rfl (returns inside.conditional fun alternate => layer.conditional test consequent alternate))
    (T.pure test)

theorem assignmentOf : T.Rel [] E (assignmentOf inner) (assignmentOf inner') := by
  apply T.bind (layer.conditionalOf inside)
  intro target target' related
  refine T.sees _ ?_ (T.pure related)
  simp only [if_true, layer.target related]
  cases isTarget target with
  | true => exact T.skip rfl (returns inside.assignment fun value => layer.assign related value)
  | false => exact T.on (T.fail _)

theorem declaration : T.Rel [] S (declaration inner) (declaration inner') :=
  expects .identifier nofun nofun rfl fun name => acceptsSign rfl
    (T.pure (layer.declare name .none))
    (sign rfl (ended rfl inside.assignment fun value => layer.declare name (.some value)))

theorem functionDecl (isAsync : Bool) :
    T.Rel [] S (functionDecl inner isAsync) (functionDecl inner' isAsync) :=
  expects .identifier nofun nofun rfl fun name => bindSame Tandem.parameterList fun params =>
    returns (inside.block _) fun body => layer.function (.mk name params isAsync body)

theorem asyncFunction : T.Rel [] S (asyncFunction inner) (asyncFunction inner') :=
  expects (.keyword .func_) nofun nofun rfl fun _ => layer.functionDecl inside true

theorem returnStmt : T.Rel [] S (returnStmt inner) (returnStmt inner') :=
  acceptsSign rfl (T.pure (layer.ret .none))
    (ended rfl inside.assignment fun value => layer.ret (.some value))

theorem branchStmt : T.Rel [] S (Parser.branch inner) (Parser.branch inner') := by
  have start : Arms.Rel E₀ S₀ ⟨[], none⟩ ⟨[], none⟩ := .mk .nil .none
  exact T.bind (inside.condition _) fun test => T.bind (inside.block _) fun body =>
    returns (T.iterate (fun arms like => inside.nextArm arms like) start) fun arms =>
      layer.branch test body (layer.otherwise arms)

theorem whileStmt : T.Rel [] S (Parser.whileLoop inner) (Parser.whileLoop inner') :=
  T.bind (inside.condition _) fun test => returns (inside.block _) fun body => layer.whileLoop test body

theorem forStmt : T.Rel [] S (Parser.forLoop inner) (Parser.forLoop inner') :=
  sign rfl (T.bind inside.loopStart fun start => T.bind (inside.optionalBefore _) fun test =>
    sign rfl (T.bind (inside.optionalBefore _) fun update => sign rfl (returns (inside.block _) fun body =>
      layer.forLoop start test update body)))

theorem classStmt : T.Rel [] S (Parser.classDecl inner) (Parser.classDecl inner') := by
  apply expects .identifier nofun nofun rfl
  intro name
  refine sign rfl (ended rfl (T.many ?_ inside.classMember) ?_)
  · intro t u like
    rw [like.kind]
  · intro members members' related
    refine layer.classDecl name (List.rel_filterMap ?_ related) (List.rel_filterMap ?_ related)
    · intro member member' alike
      cases alike with
      | field decl => exact .some decl
      | method decl => exact .none
    · intro member member' alike
      cases alike with
      | field decl => exact .none
      | method decl => exact .some decl

theorem switchStmt : T.Rel [] S (switchStmt inner) (switchStmt inner') := by
  apply T.bind (inside.condition _)
  intro subject subject' same
  refine sign rfl (ended rfl (T.many ?_ inside.clause) ?_)
  · intro t u like
    rw [like.kind]
  · intro clauses clauses' related
    refine layer.switch same (List.rel_filterMap ?_ related) (rel_getLast? (List.rel_filterMap ?_ related))
    · rintro _ _ ⟨test, body⟩
      cases test with
      | none => exact .none
      | some test => exact .some (.mk test body)
    · rintro _ _ ⟨test, body⟩
      cases test with
      | none => exact .some body
      | some test => exact .none

theorem attemptStmt : T.Rel [] S (Parser.attempt inner) (Parser.attempt inner') :=
  T.bind (inside.block _) fun body => T.bind inside.catchPart fun handler =>
    returns inside.finallyPart fun cleanup => layer.attempt body handler cleanup

-- What stands behind `if` is left to the notion of two runs.
theorem statementOf
    (chain : ∀ {t u : Token}, t.kind = .keyword .if_ → T.Behind t u [] S (Parser.branch inner) (Parser.branch inner')) :
    T.Rel [] S (statementOf inner) (statementOf inner') := by
  refine T.onToken ?_ (ended rfl inside.assignment layer.expr)
  rintro ⟨kind, text, position⟩ ⟨kind', text', position'⟩ like
  obtain rfl : kind' = kind := like.kind
  cases kind' with
  | keyword word =>
    cases word with
    | let_ => exact .some (T.behind nofun rfl (layer.declaration inside))
    | func_ => exact .some (T.behind nofun rfl (layer.functionDecl inside false))
    | async_ => exact .some (T.behind nofun rfl (layer.asyncFunction inside))
    | return_ => exact .some (T.behind nofun rfl (layer.returnStmt inside))
    | if_ => exact .some (chain rfl)
    | while_ => exact .some (T.behind nofun rfl (layer.whileStmt inside))
    | for_ => exact .some (T.behind nofun rfl (layer.forStmt inside))
    | class_ => exact .some (T.behind nofun rfl (layer.classStmt inside))
    | switch_ => exact .some (T.behind nofun rfl (layer.switchStmt inside))
    | break_ => exact .some (T.behind nofun rfl (sign rfl (T.pure layer.breakLoop)))
    | continue_ => exact .some (T.behind nofun rfl (sign rfl (T.pure layer.continueLoop)))
    | import_ =>
      exact .some (T.behind nofun rfl (expectsString fun path => sign rfl (T.pure (layer.importFile path))))
    | try_ => exact .some (T.behind nofun rfl (layer.attemptStmt inside))
    | _ => exact .none
  | _ => exact .none

omit inside in
theorem around {m n : Nat} (inside : T.Inside E₀ S₀ (nested m) (nested n))
    (chain : ∀ {t u : Token}, t.kind = .keyword .if_ →
      T.Behind t u [] S (Parser.branch (nested m)) (Parser.branch (nested n))) :
    T.Inside E S (nested (m + 1)) (nested (n + 1)) where
  statement := layer.statementOf inside chain
  assignment := layer.assignmentOf inside
  conditional := layer.conditionalOf inside
  unary := layer.unary inside

end Pairing.Layer

end Parser

end ScriptCpp
