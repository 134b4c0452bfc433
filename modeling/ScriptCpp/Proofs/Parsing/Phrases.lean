import Mathlib
import ScriptCpp.Proofs.Parsing.Conservation

set_option autoImplicit false

namespace ScriptCpp

inductive Phrase where
  | expr (e : Expr)
  | stmt (s : Stmt)

def Expr.children : Expr → List Phrase
  | .assign target value => [.expr target, .expr value]
  | .binary _ left right => [.expr left, .expr right]
  | .negate operand => [.expr operand]
  | .conditional test consequent alternate => [.expr test, .expr consequent, .expr alternate]
  | .call callee args => .expr callee :: args.map .expr
  | .member object _ => [.expr object]
  | .index object key => [.expr object, .expr key]
  | .construct _ args => args.map .expr
  | .array elements => elements.map .expr
  | .ident _ | .number _ | .string _ | .this => []
  | .await promise => [.expr promise]
  | .arrowBlock _ body => body.map .stmt
  | .arrowValue _ value => [.expr value]

def FieldDecl.children (field : FieldDecl) : List Phrase := field.value.toList.map .expr

def FunctionDecl.children (decl : FunctionDecl) : List Phrase := decl.body.map .stmt

def CaseClause.children (clause : CaseClause) : List Phrase := .expr clause.test :: clause.body.map .stmt

def Stmt.children : Stmt → List Phrase
  | .declare _ value => value.toList.map .expr
  | .function decl => decl.children
  | .classDecl decl =>
      decl.fields.flatMap FieldDecl.children ++ decl.methods.flatMap FunctionDecl.children
  | .importFile _ => []
  | .ret value => value.toList.map .expr
  | .branch condition body otherwise => .expr condition :: (body ++ otherwise.getD []).map .stmt
  | .whileLoop condition body => .expr condition :: body.map .stmt
  | .forLoop start condition update body =>
      start.toList.map .stmt ++ (condition.toList ++ update.toList).map .expr ++ body.map .stmt
  | .switch subject cases fallback =>
      .expr subject :: cases.flatMap CaseClause.children ++ (fallback.getD []).map .stmt
  | .breakLoop | .continueLoop => []
  | .attempt body handler cleanup =>
      (body ++ (handler.map CatchClause.body).getD [] ++ cleanup.getD []).map .stmt
  | .expr value => [.expr value]

namespace Phrase

def children : Phrase → List Phrase
  | .expr e => e.children
  | .stmt s => s.children

def material : Phrase → List Material
  | .expr e => e.material
  | .stmt s => s.material

def Holds : Phrase → Phrase → Prop := Relation.ReflTransGen fun n c => c ∈ n.children

end Phrase

def Covers (ns : List Phrase) (l : List Material) : Prop := ∀ n ∈ ns, n.material ⊆ l

namespace Covers

variable {n : Phrase} {ns os : List Phrase} {m : Material} {l rest : List Material}

theorem nil : Covers [] l := by simp [Covers]

theorem one : Covers [n] n.material := by simp [Covers]

theorem append (first : Covers ns l) (second : Covers os rest) : Covers (ns ++ os) (l ++ rest) := by
  intro n present
  rcases List.mem_append.mp present with here | there
  · exact List.Subset.trans (first n here) (List.subset_append_left l rest)
  · exact List.Subset.trans (second n there) (List.subset_append_right l rest)

theorem behind (h : Covers ns rest) : Covers ns (l ++ rest) :=
  fun n present => List.Subset.trans (h n present) (List.subset_append_right l rest)

theorem before (h : Covers ns l) : Covers ns (l ++ rest) :=
  fun n present => List.Subset.trans (h n present) (List.subset_append_left l rest)

theorem exprs (es : List Expr) : Covers (es.map .expr) (Expr.materialEach es) := by
  induction es with
  | nil => exact nil
  | cons e es ih => exact one.append ih

theorem stmts (body : List Stmt) : Covers (body.map .stmt) (Stmt.materialEach body) := by
  induction body with
  | nil => exact nil
  | cons s body ih => exact one.append ih

theorem exprIfAny (value : Option Expr) : Covers (value.toList.map .expr) (Expr.materialIfAny value) := by
  cases value with
  | none => exact nil
  | some e => exact one

theorem stmtsIfAny (body : Option (List Stmt)) :
    Covers ((body.getD []).map .stmt) (Stmt.materialIfAny body) := by
  cases body with
  | none => exact nil
  | some body => exact stmts body

theorem start (s : Option Stmt) : Covers (s.toList.map .stmt) (Stmt.materialOfStart s) := by
  cases s with
  | none => exact nil
  | some s => exact one

theorem fields (fields : List FieldDecl) :
    Covers (fields.flatMap FieldDecl.children) (FieldDecl.materialEach fields) := by
  induction fields with
  | nil => exact nil
  | cons field fields ih =>
    obtain ⟨name, value⟩ := field
    exact ((exprIfAny value).behind (l := [.name name])).append ih

theorem function (decl : FunctionDecl) : Covers decl.children decl.material := by
  obtain ⟨name, params, body, isAsync⟩ := decl
  exact ((stmts body).behind (l := params.map .name)).behind (l := [.name name])

theorem methods (methods : List FunctionDecl) :
    Covers (methods.flatMap FunctionDecl.children) (FunctionDecl.materialEach methods) := by
  induction methods with
  | nil => exact nil
  | cons decl methods ih => exact (function decl).append ih

theorem cases (clauses : List CaseClause) :
    Covers (clauses.flatMap CaseClause.children) (CaseClause.materialEach clauses) := by
  induction clauses with
  | nil => exact nil
  | cons clause clauses ih =>
    obtain ⟨test, body⟩ := clause
    exact (one.append (stmts body)).append ih

theorem handler (handler : Option CatchClause) :
    Covers (((handler.map CatchClause.body).getD []).map .stmt) (CatchClause.materialIfAny handler) := by
  cases handler with
  | none => exact nil
  | some clause =>
    obtain ⟨param, body⟩ := clause
    exact (stmts body).behind

theorem ofExpr (e : Expr) : Covers e.children e.material := by
  cases e with
  | assign target value => exact one.append one
  | binary op left right => exact one.append (one.behind (l := [.operator op.sign]))
  | negate operand => exact one.behind (l := [.operator .minus])
  | conditional test consequent alternate => exact one.append (one.append one)
  | call callee args => exact one.append (exprs args)
  | member object name => exact one.before
  | index object key => exact one.append one
  | construct className args => exact (exprs args).behind (l := [.name className])
  | array elements => exact exprs elements
  | ident | number | string | this => exact nil
  | await promise => exact one
  | arrowBlock params body => exact (stmts body).behind
  | arrowValue params value => exact one.behind

theorem ofStmt (s : Stmt) : Covers s.children s.material := by
  cases s with
  | declare name value => exact (exprIfAny value).behind (l := [.name name])
  | function decl => exact function decl
  | classDecl decl =>
    obtain ⟨name, held, offered⟩ := decl
    exact ((fields held).append (methods offered)).behind (l := [.name name])
  | importFile | breakLoop | continueLoop => exact nil
  | ret value => exact exprIfAny value
  | branch condition body otherwise =>
    have arms := (stmts body).append (stmtsIfAny otherwise)
    rw [← List.map_append] at arms
    exact one.append arms
  | whileLoop condition body => exact one.append (stmts body)
  | forLoop first condition update body =>
    have head := (exprIfAny condition).append (exprIfAny update)
    rw [← List.map_append] at head
    have whole := ((start first).append head).append (stmts body)
    simpa only [Stmt.children, Stmt.material, List.append_assoc] using whole
  | switch subject clauses fallback => exact one.append ((cases clauses).append (stmtsIfAny fallback))
  | attempt body caught cleanup =>
    have whole := ((stmts body).append (handler caught)).append (stmtsIfAny cleanup)
    rw [← List.map_append, ← List.map_append] at whole
    simpa only [Stmt.children, Stmt.material, List.append_assoc] using whole
  | expr value => exact one

end Covers

namespace Phrase

theorem Holds.material {n m : Phrase} (h : n.Holds m) : m.material ⊆ n.material := by
  induction h with
  | refl => exact List.Subset.refl _
  | @tail inner child _ step ih =>
    refine List.Subset.trans ?_ ih
    cases inner with
    | expr e => exact Covers.ofExpr e child step
    | stmt s => exact Covers.ofStmt s child step

end Phrase

end ScriptCpp
