import Mathlib
import ScriptCpp.Proofs.Parsing.Counter
import ScriptCpp.Proofs.Parsing.Likeness
import ScriptCpp.Proofs.Parsing.Lookahead
import ScriptCpp.Proofs.Parsing.Provenance

set_option autoImplicit false

namespace ScriptCpp

mutual

/-- How far the parts of an expression reach in. -/
@[simp]
def Expr.depth : Expr → Nat
  | .assign target value => max target.depth (1 + value.depth)
  | .binary _ left right => max left.depth right.depth
  | .negate operand => 1 + operand.depth
  | .conditional test consequent alternate =>
      max test.depth (max (1 + consequent.depth) (1 + alternate.depth))
  | .call callee args => max callee.depth (Expr.depthEach args)
  | .member object _ => object.depth
  | .index object key => max object.depth (1 + key.depth)
  | .construct _ args => Expr.depthEach args
  | .array elements => Expr.depthEach elements
  | .ident _ | .number _ | .string _ | .this => 0
  | .await promise => 1 + promise.depth
  | .arrowBlock _ body => Stmt.depthEach body
  | .arrowValue _ value => 1 + value.depth

@[simp]
def Expr.depthEach : List Expr → Nat
  | [] => 0
  | e :: rest => max (1 + e.depth) (Expr.depthEach rest)

@[simp]
def Expr.depthIfAny : Option Expr → Nat
  | none => 0
  | some e => 1 + e.depth

/-- The depth of the parts of a statement, which is one less than its own. -/
@[simp]
def Stmt.reach : Stmt → Nat
  | .declare _ value => Expr.depthIfAny value
  | .function decl => decl.depth
  | .classDecl ⟨_, fields, methods⟩ => max (FieldDecl.depthEach fields) (FunctionDecl.depthEach methods)
  | .importFile _ => 0
  | .ret value => Expr.depthIfAny value
  | .branch condition body otherwise =>
      max (1 + condition.depth) (max (Stmt.depthEach body) (Stmt.depthOfElse otherwise))
  | .whileLoop condition body => max (1 + condition.depth) (Stmt.depthEach body)
  | .forLoop start condition update body =>
      max (Stmt.depthOfStart start) (max (Expr.depthIfAny condition)
        (max (Expr.depthIfAny update) (Stmt.depthEach body)))
  | .switch subject cases fallback =>
      max (1 + subject.depth) (max (CaseClause.depthEach cases) (Stmt.depthIfAny fallback))
  | .breakLoop | .continueLoop => 0
  | .attempt body handler cleanup =>
      max (Stmt.depthEach body) (max (CatchClause.depthIfAny handler) (Stmt.depthIfAny cleanup))
  | .expr value => 1 + value.depth

@[simp]
def Stmt.depthEach : List Stmt → Nat
  | [] => 0
  | s :: rest => max (1 + s.reach) (Stmt.depthEach rest)

@[simp]
def Stmt.depthIfAny : Option (List Stmt) → Nat
  | none => 0
  | some body => Stmt.depthEach body

@[simp]
def Stmt.depthOfStart : Option Stmt → Nat
  | none => 0
  | some s => 1 + s.reach

@[simp]
def Stmt.depthOfElse : Option (List Stmt) → Nat
  | none => 0
  | some body => Stmt.depthOfChain body

-- A branch that stands alone in an `else` part goes on with the chain, and its parts are parts of the chain.
@[simp]
def Stmt.depthOfChain : List Stmt → Nat
  | [] => 0
  | s :: rest =>
      if s.isBranch && rest.isEmpty then s.reach else max (1 + s.reach) (Stmt.depthEach rest)

@[simp]
def FieldDecl.depth : FieldDecl → Nat
  | ⟨_, value⟩ => Expr.depthIfAny value

@[simp]
def FieldDecl.depthEach : List FieldDecl → Nat
  | [] => 0
  | field :: rest => max field.depth (FieldDecl.depthEach rest)

@[simp]
def FunctionDecl.depth : FunctionDecl → Nat
  | ⟨_, _, body, _⟩ => Stmt.depthEach body

@[simp]
def FunctionDecl.depthEach : List FunctionDecl → Nat
  | [] => 0
  | decl :: rest => max decl.depth (FunctionDecl.depthEach rest)

@[simp]
def CaseClause.depth : CaseClause → Nat
  | ⟨test, body⟩ => max (1 + test.depth) (Stmt.depthEach body)

@[simp]
def CaseClause.depthEach : List CaseClause → Nat
  | [] => 0
  | clause :: rest => max clause.depth (CaseClause.depthEach rest)

@[simp]
def CatchClause.depth : CatchClause → Nat
  | ⟨_, body⟩ => Stmt.depthEach body

@[simp]
def CatchClause.depthIfAny : Option CatchClause → Nat
  | none => 0
  | some clause => clause.depth

end

def Expr.span (e : Expr) : Nat := 1 + e.depth

def Stmt.depth (s : Stmt) : Nat := 1 + s.reach

theorem Expr.depth_le {e : Expr} {n : Nat} (h : e.span ≤ n + 1) : e.depth ≤ n := by
  simp only [Expr.span] at h
  omega

theorem Stmt.depthOfChain_le (body : List Stmt) : Stmt.depthOfChain body ≤ Stmt.depthEach body := by
  cases body with
  | nil => exact Nat.le_refl _
  | cons s rest =>
    simp only [Stmt.depthOfChain, Stmt.depthEach]
    split
    · omega
    · exact Nat.le_refl _

def Within {α : Type} (depth : α → Nat) (n : Nat) (a b : α) : Prop := b = a ∧ depth a ≤ n

namespace Within

variable {α : Type} {d : α → Nat} {n : Nat}

theorem expr {e : Expr} (h : e.depth ≤ n) : Within Expr.span (n + 1) e e :=
  ⟨rfl, by simp only [Expr.span]; omega⟩

theorem stmt {s : Stmt} (h : s.reach ≤ n) : Within Stmt.depth (n + 1) s s :=
  ⟨rfl, by simp only [Stmt.depth]; omega⟩

theorem list {depths : List α → Nat} (nil : depths [] = 0)
    (cons : ∀ a as, depths (a :: as) = max (d a) (depths as)) {as bs : List α}
    (h : List.Forall₂ (Within d n) as bs) : Within depths n as bs := by
  induction h with
  | nil => exact ⟨rfl, by omega⟩
  | @cons a _ as _ first _ ih =>
    obtain ⟨rfl, bound⟩ := first
    obtain ⟨rfl, bounds⟩ := ih
    exact ⟨rfl, by rw [cons]; omega⟩

theorem option {depthIfAny : Option α → Nat} (none : depthIfAny none = 0)
    (some : ∀ a, depthIfAny (some a) = d a) {a b : Option α} (h : Option.Rel (Within d n) a b) :
    Within depthIfAny n a b := by
  cases h with
  | none => exact ⟨rfl, by omega⟩
  | some related =>
    obtain ⟨rfl, bound⟩ := related
    exact ⟨rfl, by rw [some]; exact bound⟩

theorem exprs {es fs : List Expr} (h : List.Forall₂ (Within Expr.span n) es fs) :
    Within Expr.depthEach n es fs :=
  list rfl (fun _ _ => rfl) h

theorem exprIfAny {e f : Option Expr} (h : Option.Rel (Within Expr.span n) e f) :
    Within Expr.depthIfAny n e f :=
  option rfl (fun _ => rfl) h

theorem stmts {body body' : List Stmt} (h : List.Forall₂ (Within Stmt.depth n) body body') :
    Within Stmt.depthEach n body body' :=
  list rfl (fun _ _ => rfl) h

theorem stmtsIfAny {body body' : Option (List Stmt)}
    (h : Option.Rel (List.Forall₂ (Within Stmt.depth n)) body body') :
    Within Stmt.depthIfAny n body body' := by
  cases h with
  | none => exact ⟨rfl, Nat.zero_le _⟩
  | some body =>
    obtain ⟨rfl, bound⟩ := stmts body
    exact ⟨rfl, bound⟩

theorem start {s s' : Option Stmt} (h : Option.Rel (Within Stmt.depth n) s s') :
    Within Stmt.depthOfStart n s s' :=
  option rfl (fun _ => rfl) h

theorem function {decl decl' : FunctionDecl} (h : decl.Rel (Within Stmt.depth n) decl') :
    Within FunctionDecl.depth n decl decl' := by
  obtain ⟨name, params, isAsync, body⟩ := h
  obtain ⟨rfl, bound⟩ := stmts body
  exact ⟨rfl, bound⟩

theorem methods {decls decls' : List FunctionDecl}
    (h : List.Forall₂ (FunctionDecl.Rel (Within Stmt.depth n)) decls decls') :
    Within FunctionDecl.depthEach n decls decls' :=
  list rfl (fun _ _ => rfl) (h.imp fun _ _ => function)

theorem fields {decls decls' : List FieldDecl}
    (h : List.Forall₂ (FieldDecl.Rel (Within Expr.span n)) decls decls') :
    Within FieldDecl.depthEach n decls decls' := by
  refine list rfl (fun _ _ => rfl) (h.imp ?_)
  rintro _ _ ⟨name, value⟩
  obtain ⟨rfl, bound⟩ := exprIfAny value
  exact ⟨rfl, bound⟩

theorem cases {clauses clauses' : List CaseClause}
    (h : List.Forall₂ (CaseClause.Rel (Within Expr.span n) (Within Stmt.depth n)) clauses clauses') :
    Within CaseClause.depthEach n clauses clauses' := by
  refine list rfl (fun _ _ => rfl) (h.imp ?_)
  rintro _ _ ⟨⟨rfl, test⟩, body⟩
  obtain ⟨rfl, bound⟩ := stmts body
  exact ⟨rfl, Nat.max_le.mpr ⟨test, bound⟩⟩

theorem handler {clause clause' : Option CatchClause}
    (h : Option.Rel (CatchClause.Rel (Within Stmt.depth n)) clause clause') :
    Within CatchClause.depthIfAny n clause clause' := by
  cases h with
  | none => exact ⟨rfl, Nat.zero_le _⟩
  | some related =>
    obtain ⟨param, body⟩ := related
    obtain ⟨rfl, bound⟩ := stmts body
    exact ⟨rfl, bound⟩

end Within

namespace Parser.Pairing

def diagonal (stop : Token) : Pairing := ⟨Eq, stop, stop, ⟨rfl, fun _ => rfl, fun _ => rfl⟩⟩

theorem twins_diagonal (stop : Token) (ts : List Token) : (diagonal stop).Twins ts ts := by
  induction ts with
  | nil => exact .stop
  | cons t ts ih => exact .token ⟨rfl, fun _ => rfl, fun _ => rfl⟩ (fun _ _ => rfl) ih

theorem layer_within (stop : Token) (n : Nat) :
    (diagonal stop).Layer (Within Expr.span n) (Within Expr.span (n + 1))
      (Within Stmt.depth n) (Within Stmt.depth (n + 1)) (Within Stmt.depthOfElse n) where
  name h := by rw [h.1]
  target h := by rw [h.1]
  paren h := ⟨h.1, Nat.le_succ_of_le h.2⟩
  ident _ := .expr (Nat.zero_le n)
  number _ := .expr (Nat.zero_le n)
  string same := by
    obtain rfl := same
    exact .expr (Nat.zero_le n)
  this := .expr (Nat.zero_le n)
  assign := by
    rintro target _ value _ ⟨rfl, outer⟩ ⟨rfl, inner⟩
    exact .expr (max_le (Expr.depth_le outer) inner)
  binary op := by
    rintro left _ right _ ⟨rfl, first⟩ ⟨rfl, second⟩
    exact .expr (max_le (Expr.depth_le first) (Expr.depth_le second))
  negate := by
    rintro operand _ ⟨rfl, inner⟩
    exact .expr inner
  conditional := by
    rintro test _ consequent _ alternate _ ⟨rfl, outer⟩ ⟨rfl, first⟩ ⟨rfl, second⟩
    exact .expr (max_le (Expr.depth_le outer) (max_le first second))
  call := by
    rintro callee _ args _ ⟨rfl, outer⟩ each
    obtain ⟨rfl, inner⟩ := Within.exprs each
    exact .expr (max_le (Expr.depth_le outer) inner)
  member name h := by
    obtain ⟨rfl, outer⟩ := h
    exact .expr (Expr.depth_le outer)
  index := by
    rintro object _ key _ ⟨rfl, outer⟩ ⟨rfl, inner⟩
    exact .expr (max_le (Expr.depth_le outer) inner)
  construct className args args' each := by
    obtain ⟨rfl, inner⟩ := Within.exprs each
    exact .expr inner
  array := by
    intro elements elements' each
    obtain ⟨rfl, inner⟩ := Within.exprs each
    exact .expr inner
  await := by
    rintro promise _ ⟨rfl, inner⟩
    exact .expr inner
  arrowBlock params body body' each := by
    obtain ⟨rfl, inner⟩ := Within.stmts each
    exact .expr inner
  arrowValue params := by
    rintro value _ ⟨rfl, inner⟩
    exact .expr inner
  declare name value value' h := by
    obtain ⟨rfl, inner⟩ := Within.exprIfAny h
    exact .stmt inner
  function := by
    intro decl decl' h
    obtain ⟨rfl, block⟩ := Within.function h
    exact .stmt block
  classDecl name := by
    intro fields fields' methods methods' first second
    obtain ⟨rfl, values⟩ := Within.fields first
    obtain ⟨rfl, blocks⟩ := Within.methods second
    exact .stmt (max_le values blocks)
  importFile same := by
    obtain rfl := same
    exact .stmt (Nat.zero_le n)
  ret := by
    intro value value' h
    obtain ⟨rfl, inner⟩ := Within.exprIfAny h
    exact .stmt inner
  branch := by
    rintro test _ body body' otherwise _ ⟨rfl, inner⟩ each ⟨rfl, rest⟩
    obtain ⟨rfl, block⟩ := Within.stmts each
    exact .stmt (max_le inner (max_le block rest))
  noElse := ⟨rfl, Nat.zero_le n⟩
  elseBlock := by
    intro body body' each
    obtain ⟨rfl, block⟩ := Within.stmts each
    exact ⟨rfl, (Stmt.depthOfChain_le _).trans block⟩
  elseBranch := by
    rintro test _ body body' otherwise _ ⟨rfl, inner⟩ each ⟨rfl, rest⟩
    obtain ⟨rfl, block⟩ := Within.stmts each
    exact ⟨rfl, max_le inner (max_le block rest)⟩
  whileLoop := by
    rintro test _ body body' ⟨rfl, inner⟩ each
    obtain ⟨rfl, block⟩ := Within.stmts each
    exact .stmt (max_le inner block)
  forLoop := by
    intro start start' test test' update update' body body' first second third each
    obtain ⟨rfl, begun⟩ := Within.start first
    obtain ⟨rfl, tested⟩ := Within.exprIfAny second
    obtain ⟨rfl, updated⟩ := Within.exprIfAny third
    obtain ⟨rfl, block⟩ := Within.stmts each
    exact .stmt (max_le begun (max_le tested (max_le updated block)))
  switch := by
    rintro subject _ cases cases' fallback fallback' ⟨rfl, inner⟩ clauses last
    obtain ⟨rfl, blocks⟩ := Within.cases clauses
    obtain ⟨rfl, block⟩ := Within.stmtsIfAny last
    exact .stmt (max_le inner (max_le blocks block))
  breakLoop := .stmt (Nat.zero_le n)
  continueLoop := .stmt (Nat.zero_le n)
  attempt := by
    intro body body' handler handler' cleanup cleanup' each caught last
    obtain ⟨rfl, block⟩ := Within.stmts each
    obtain ⟨rfl, handled⟩ := Within.handler caught
    obtain ⟨rfl, cleaned⟩ := Within.stmtsIfAny last
    exact .stmt (max_le block (max_le handled cleaned))
  expr := by
    rintro value _ ⟨rfl, inner⟩
    exact .stmt inner

end Parser.Pairing

theorem Parser.depth_of_program {stop : Token} {ts rest : List Token} {p : Program}
    (read : program.run stop ts = .ok (p, rest)) : ∀ s ∈ p, s.depth ≤ maxNesting := by
  have same : (Pairing.diagonal stop).Matches (List.Forall₂ (Within Stmt.depth maxNesting)) ts ts
      (program.run stop ts) (program.run stop ts) :=
    Pairing.parallel_program (Pairing.layer_within stop) (Pairing.twins_diagonal stop ts)
  rw [read] at same
  cases same with
  | ok each _ =>
    intro s present
    exact (List.forall₂_same.mp each s present).2

namespace Program

open ScriptCpp.Parser in
/-- No program that is read is nested deeper than `maxNesting`. It can be read with a counter that each
level raises and lowers, and behind every part that is read, or fails to be, the counter is what it was
before. -/
theorem ofTokens_nesting (tokens : List Token) :
    (∀ p, ofTokens tokens = .ok p → ∀ s ∈ p, s.depth ≤ maxNesting) ∧
    (∀ stop ts, Counts (fun inner => many (fun _ => false) inner.statement inner.strict) 0 stop ts
      (program.run stop ts) 0) ∧
    ∀ (α : Type) (F : Nested → Parser α) (d e : Nat) (stop : Token) (ts : List Token)
      (r : Except ParseError (α × List Token)), Counts F d stop ts r e →
        e = d ∧ (d ≤ maxNesting → r = (F (nested (maxNesting - d))).run stop ts) := by
  refine ⟨?_, counts_program, ?_⟩
  · intro p accepted
    obtain ⟨stop, -, -, read⟩ := ofTokens_terminated (terminated_of_ofTokens accepted)
    rw [read] at accepted
    obtain ⟨rest, run⟩ := run_of_map_ok accepted
    exact depth_of_program run
  · intro α F d e stop ts r counts
    exact ⟨counts.restores, counts.outcome⟩

-- `x = -y;`
def negated : List Token :=
  [⟨.identifier, "x", ⟨1, 1⟩⟩, ⟨.symbol .assign, "=", ⟨1, 3⟩⟩, ⟨.symbol .minus, "-", ⟨1, 5⟩⟩,
    ⟨.identifier, "y", ⟨1, 6⟩⟩, ⟨.symbol .semicolon, ";", ⟨1, 7⟩⟩, .eof ⟨1, 8⟩]

theorem ofTokens_nesting_negated :
    ofTokens negated = .ok [.expr (.assign (.ident "x") (.negate (.ident "y")))] ∧
      (Stmt.expr (.assign (.ident "x") (.negate (.ident "y")))).depth = 4 ∧
      ∀ s ∈ [Stmt.expr (.assign (.ident "x") (.negate (.ident "y")))], s.depth ≤ Parser.maxNesting := by
  have accepted : ofTokens negated = .ok [.expr (.assign (.ident "x") (.negate (.ident "y")))] := by
    with_unfolding_all rfl
  exact ⟨accepted, rfl, (ofTokens_nesting negated).1 _ accepted⟩

end Program

end ScriptCpp
