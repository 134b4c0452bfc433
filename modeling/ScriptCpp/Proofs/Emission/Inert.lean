import Mathlib
import ScriptCpp.Proofs.Cpp.Segment
import ScriptCpp.Proofs.Emission.Readings

set_option autoImplicit false

namespace ScriptCpp

open Cpp

namespace SpecialForm

/-- What is inert in the text of a form, given the same for its head and for the arguments it uses. -/
def inert (form : SpecialForm) (site : CallSite) (head : List Segment)
    (args : List (List Segment)) : List Segment :=
  if form.name = "print" then [.literal [' ']].intercalate args
  else if form.name = "sort" then args.flatten ++ args.flatten
  else if form.name = "join" then
    head ++ if args.isEmpty then [.literal [',']] else args.flatten
  else if form.name = "server.listen" then head ++ [.literal "0.0.0.0".toList] ++ args.flatten
  else if form.name = "response.send/json" then
    head ++ args.flatten ++ [.literal (mimeType site).toList]
  else head ++ args.flatten

end SpecialForm

mutual

@[simp] def Expr.inert (features : Features) : Expr → List Segment
  | .assign target value => target.inert features ++ value.inert features
  | .binary _ left right => left.inert features ++ right.inert features
  | .negate operand => operand.inert features
  | .conditional test consequent alternate =>
      test.inert features ++ consequent.inert features ++ alternate.inert features
  | .call callee args =>
      match SpecialForm.find? features ⟨callee, args⟩ with
      | some form =>
          form.inert ⟨callee, args⟩
            (match form.head with
              | .none => []
              | .callee => callee.inert features
              | .receiver => callee.receiverInert features)
            (form.used (Expr.inertList features args))
      | none => callee.inert features ++ (Expr.inertList features args).flatten
  | .member object _ => object.inert features
  | .index object key => object.inert features ++ key.inert features
  | .construct className args =>
      if className = "Server" then [] else (Expr.inertList features args).flatten
  | .array elements => (Expr.inertList features elements).flatten
  | .ident _ | .number _ | .this => []
  | .string raw => [.literal raw.toList]
  | .await promise => promise.inert features
  | .arrowBlock _ body => Stmt.inertEach features body
  | .arrowValue _ value => value.inert features

@[simp] def Expr.receiverInert (features : Features) : Expr → List Segment
  | .member object _ => object.inert features
  | .index object _ => object.inert features
  | .assign _ _ | .binary _ _ _ | .negate _ | .conditional _ _ _ | .call _ _ | .construct _ _ => []
  | .array _ | .ident _ | .number _ | .string _ | .this | .await _ => []
  | .arrowBlock _ _ | .arrowValue _ _ => []

@[simp] def Expr.inertList (features : Features) : List Expr → List (List Segment)
  | [] => []
  | e :: rest => e.inert features :: Expr.inertList features rest

@[simp] def Expr.inertIfAny (features : Features) : Option Expr → List Segment
  | none => []
  | some e => e.inert features

@[simp] def Stmt.inert (features : Features) : Stmt → List Segment
  | .declare _ value => Expr.inertIfAny features value
  | .function decl => decl.inert features
  | .classDecl ⟨_, fields, methods⟩ =>
      FieldDecl.inertEach features fields ++ FunctionDecl.inertEach features methods
  | .importFile path => [.comment (" import \"" ++ path ++ "\"").toList]
  | .ret value => Expr.inertIfAny features value
  | .branch test body otherwise =>
      test.inert features ++ Stmt.inertEach features body ++ Stmt.inertIfAny features otherwise
  | .whileLoop test body => test.inert features ++ Stmt.inertEach features body
  | .forLoop start test update body =>
      Stmt.inertOfStart features start ++ Expr.inertIfAny features test ++
        Expr.inertIfAny features update ++ Stmt.inertEach features body
  | .switch subject cases fallback =>
      subject.inert features ++ (CaseClause.inertEach features cases ++
        Stmt.inertIfAny features fallback)
  | .breakLoop | .continueLoop => []
  | .attempt body handler cleanup =>
      Stmt.inertEach features body ++ CatchClause.inertIfAny features handler ++
        Stmt.inertOfCleanup features cleanup
  | .expr value => value.inert features

@[simp] def Stmt.inertEach (features : Features) : List Stmt → List Segment
  | [] => []
  | s :: rest => s.inert features ++ Stmt.inertEach features rest

@[simp] def Stmt.inertIfAny (features : Features) : Option (List Stmt) → List Segment
  | none => []
  | some body => Stmt.inertEach features body

@[simp] def Stmt.inertOfStart (features : Features) : Option Stmt → List Segment
  | none => []
  | some s => s.inert features

@[simp] def Stmt.inertOfCleanup (features : Features) : Option (List Stmt) → List Segment
  | none => []
  | some body => [.comment " finally".toList] ++ Stmt.inertEach features body

@[simp] def FunctionDecl.inert (features : Features) : FunctionDecl → List Segment
  | ⟨_, _, body, _⟩ => Stmt.inertEach features body

@[simp] def FunctionDecl.inertEach (features : Features) : List FunctionDecl → List Segment
  | [] => []
  | decl :: rest => decl.inert features ++ FunctionDecl.inertEach features rest

@[simp] def FieldDecl.inertEach (features : Features) : List FieldDecl → List Segment
  | [] => []
  | ⟨_, value⟩ :: rest => Expr.inertIfAny features value ++ FieldDecl.inertEach features rest

@[simp] def CaseClause.inertEach (features : Features) : List CaseClause → List Segment
  | [] => []
  | ⟨test, body⟩ :: rest =>
      test.inert features ++ Stmt.inertEach features body ++ CaseClause.inertEach features rest

@[simp] def CatchClause.inertIfAny (features : Features) : Option CatchClause → List Segment
  | none => []
  | some ⟨_, body⟩ => Stmt.inertEach features body

end

end ScriptCpp
