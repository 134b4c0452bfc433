import Mathlib
import ScriptCpp.Parser.Statement

set_option autoImplicit false

namespace ScriptCpp

/-!
The canonical rendering of a program as a sequence of tokens, and how deep the parser goes in to read
it. Whatever is joined by an operator, called, accessed, assigned to or handed on stands in
parentheses of its own, unless it is a single token.
-/

/-- What a token of the rendering has to be. Places and the spelling of signs and keywords are left
open, and so is the text of a number. -/
inductive Item where
  | sign (symbol : Symbol)
  | word (keyword : Keyword)
  | name (text : String)
  | property (text : String)
  | numeral (value : Binary64)
  | quoted (raw : String)

def Item.Shows : Item → Token → Prop
  | .sign symbol, t => t.kind = .symbol symbol
  | .word keyword, t => t.kind = .keyword keyword
  | .name text, t => t.kind = .identifier ∧ t.text = text
  | .property text, t => (t.kind = .identifier ∨ t.kind = .ofWord text) ∧ t.text = text
  | .numeral value, t => t.kind = .number ∧ Binary64.ofText? t.text = some value
  | .quoted raw, t => t.kind = .string ∧ t.text = raw

namespace Rendering

open Item

def listed : List (List Item) → List Item
  | [] => []
  | first :: rest => first ++ rest.flatMap fun items => sign .comma :: items

def parens (items : List Item) : List Item :=
  sign .openParen :: (items ++ [sign .closeParen])

def braces (items : List Item) : List Item :=
  sign .openBrace :: (items ++ [sign .closeBrace])

def params (names : List String) : List Item :=
  parens (listed (names.map fun text => [name text]))

def paramsNesting (names : List String) : Nat := if names = [] then 0 else 1

end Rendering

def BinaryOp.sign : BinaryOp → Symbol
  | .add => .plus
  | .sub => .minus
  | .mul => .times
  | .div => .divide
  | .mod => .modulo
  | .eq => .equal
  | .ne => .notEqual
  | .lt => .less
  | .gt => .greater
  | .le => .lessEqual
  | .ge => .greaterEqual
  | .and => .and
  | .or => .or

def Expr.isLeaf : Expr → Bool
  | .ident _ | .number _ | .string _ | .this => true
  | _ => false

def Expr.grouped (e : Expr) (items : List Item) : List Item :=
  if e.isLeaf then items else Rendering.parens items

open Rendering Item in
mutual

def Expr.items : Expr → List Item
  | .assign target value => target.grouped target.items ++ sign .assign :: value.items
  | .binary op left right => left.grouped left.items ++ sign op.sign :: right.grouped right.items
  | .negate operand => sign .minus :: operand.grouped operand.items
  | .conditional test consequent alternate =>
      test.grouped test.items ++ sign .question :: (consequent.grouped consequent.items ++
        sign .colon :: alternate.grouped alternate.items)
  | .call callee args => callee.grouped callee.items ++ parens (listed (Expr.itemsEach args))
  | .member object text => object.grouped object.items ++ [sign .dot, property text]
  | .index object key =>
      object.grouped object.items ++ sign .openBracket :: (key.items ++ [sign .closeBracket])
  | .construct className args => word .new_ :: name className :: parens (listed (Expr.itemsEach args))
  | .array elements =>
      sign .openBracket :: (listed (Expr.itemsEach elements) ++ [sign .closeBracket])
  | .ident text => [name text]
  | .number value => [numeral value]
  | .string raw => [quoted raw]
  | .this => [word .this_]
  | .await promise => word .await_ :: promise.grouped promise.items
  | .arrowBlock names body => params names ++ sign .arrow :: braces (Stmt.bodyItems body)
  | .arrowValue names value => params names ++ sign .arrow :: value.grouped value.items

def Expr.itemsEach : List Expr → List (List Item)
  | [] => []
  | e :: rest => e.items :: Expr.itemsEach rest

def Expr.itemsIfAny : Option Expr → List Item
  | none => []
  | some e => e.items

def Stmt.items : Stmt → List Item
  | .declare text none => [word .let_, name text, sign .semicolon]
  | .declare text (some value) =>
      word .let_ :: name text :: sign .assign :: (value.items ++ [sign .semicolon])
  | .function ⟨text, names, body, isAsync⟩ =>
      (if isAsync then [word .async_] else []) ++
        word .func_ :: name text :: (params names ++ braces (Stmt.bodyItems body))
  | .classDecl ⟨text, fields, methods⟩ =>
      word .class_ :: name text ::
        braces ((FieldDecl.itemsEach fields).flatten ++ (FunctionDecl.itemsEach methods).flatten)
  | .importFile path => [word .import_, quoted path, sign .semicolon]
  | .ret none => [word .return_, sign .semicolon]
  | .ret (some value) => word .return_ :: (value.items ++ [sign .semicolon])
  | .branch condition body otherwise =>
      word .if_ :: (parens condition.items ++ (braces (Stmt.bodyItems body) ++
        Stmt.partItems .else_ otherwise))
  | .whileLoop condition body =>
      word .while_ :: (parens condition.items ++ braces (Stmt.bodyItems body))
  | .forLoop start condition update body =>
      word .for_ :: sign .openParen :: (Stmt.startItems start ++ (Expr.itemsIfAny condition ++
        sign .semicolon :: (Expr.itemsIfAny update ++
          sign .closeParen :: braces (Stmt.bodyItems body))))
  | .switch subject cases fallback =>
      word .switch_ :: (parens subject.items ++
        braces ((CaseClause.itemsEach cases).flatten ++ Stmt.fallbackItems fallback))
  | .breakLoop => [word .break_, sign .semicolon]
  | .continueLoop => [word .continue_, sign .semicolon]
  | .attempt body handler cleanup =>
      word .try_ :: (braces (Stmt.bodyItems body) ++
        (CatchClause.itemsIfAny handler ++ Stmt.partItems .finally_ cleanup))
  | .expr value => value.items ++ [sign .semicolon]

def Stmt.bodyItems : List Stmt → List Item
  | [] => []
  | s :: rest => s.items ++ Stmt.bodyItems rest

def Stmt.partItems (keyword : Keyword) : Option (List Stmt) → List Item
  | none => []
  | some body => word keyword :: braces (Stmt.bodyItems body)

def Stmt.startItems : Option Stmt → List Item
  | none => [sign .semicolon]
  | some s => s.items

def Stmt.fallbackItems : Option (List Stmt) → List Item
  | none => []
  | some body => word .default_ :: sign .colon :: braces (Stmt.bodyItems body)

def FieldDecl.items : FieldDecl → List Item
  | ⟨text, none⟩ => [name text, sign .semicolon]
  | ⟨text, some value⟩ => name text :: sign .assign :: (value.items ++ [sign .semicolon])

def FieldDecl.itemsEach : List FieldDecl → List (List Item)
  | [] => []
  | field :: rest => field.items :: FieldDecl.itemsEach rest

def FunctionDecl.items : FunctionDecl → List Item
  | ⟨text, names, body, _⟩ => name text :: (params names ++ braces (Stmt.bodyItems body))

def FunctionDecl.itemsEach : List FunctionDecl → List (List Item)
  | [] => []
  | method :: rest => method.items :: FunctionDecl.itemsEach rest

def CaseClause.items : CaseClause → List Item
  | ⟨test, body⟩ => word .case_ :: (test.items ++ sign .colon :: braces (Stmt.bodyItems body))

def CaseClause.itemsEach : List CaseClause → List (List Item)
  | [] => []
  | clause :: rest => clause.items :: CaseClause.itemsEach rest

def CatchClause.items : CatchClause → List Item
  | ⟨none, body⟩ => word .catch_ :: braces (Stmt.bodyItems body)
  | ⟨some text, body⟩ =>
      word .catch_ :: (parens [name text] ++ braces (Stmt.bodyItems body))

def CatchClause.itemsIfAny : Option CatchClause → List Item
  | none => []
  | some clause => clause.items

end

def Expr.groupedNesting (e : Expr) (nesting : Nat) : Nat :=
  if e.isLeaf then 0 else nesting

-- How many levels in the parser goes when it reads a rendering: one for each expression and each
-- statement it enters, for the operand of a minus, and for either branch of a conditional.
open Rendering in
mutual

def Expr.nesting : Expr → Nat
  | .assign target value => 1 + max (target.groupedNesting target.nesting) value.nesting
  | .binary _ left right =>
      1 + max (left.groupedNesting left.nesting) (right.groupedNesting right.nesting)
  | .negate operand => 1 + (1 + operand.groupedNesting operand.nesting)
  | .conditional test consequent alternate =>
      1 + max (test.groupedNesting test.nesting)
        (max (1 + consequent.groupedNesting consequent.nesting)
          (1 + alternate.groupedNesting alternate.nesting))
  | .call callee args => 1 + max (callee.groupedNesting callee.nesting) (Expr.nestingEach args)
  | .member object _ => 1 + object.groupedNesting object.nesting
  | .index object key => 1 + max (object.groupedNesting object.nesting) key.nesting
  | .construct _ args => 1 + Expr.nestingEach args
  | .array elements => 1 + Expr.nestingEach elements
  | .ident _ | .number _ | .string _ | .this => 1
  | .await promise => 1 + (1 + promise.groupedNesting promise.nesting)
  | .arrowBlock names body => 1 + max (paramsNesting names) (Stmt.nestingEach body)
  | .arrowValue names value =>
      1 + max (paramsNesting names) (1 + value.groupedNesting value.nesting)

def Expr.nestingEach : List Expr → Nat
  | [] => 0
  | e :: rest => max e.nesting (Expr.nestingEach rest)

def Expr.nestingIfAny : Option Expr → Nat
  | none => 0
  | some e => e.nesting

def Stmt.nesting : Stmt → Nat
  | .declare _ value => 1 + Expr.nestingIfAny value
  | .function decl => 1 + decl.nesting
  | .classDecl ⟨_, fields, methods⟩ =>
      1 + max (FieldDecl.nestingEach fields) (FunctionDecl.nestingEach methods)
  | .ret value => 1 + Expr.nestingIfAny value
  | .branch condition body otherwise =>
      1 + max condition.nesting (max (Stmt.nestingEach body) (Stmt.nestingIfAny otherwise))
  | .whileLoop condition body => 1 + max condition.nesting (Stmt.nestingEach body)
  | .forLoop start condition update body =>
      1 + max (Stmt.nestingOfStart start) (max (Expr.nestingIfAny condition)
        (max (Expr.nestingIfAny update) (Stmt.nestingEach body)))
  | .switch subject cases fallback =>
      1 + max subject.nesting (max (CaseClause.nestingEach cases) (Stmt.nestingIfAny fallback))
  | .attempt body handler cleanup =>
      1 + max (Stmt.nestingEach body) (max (CatchClause.nestingIfAny handler)
        (Stmt.nestingIfAny cleanup))
  | .expr value => 1 + value.nesting
  | .importFile _ | .breakLoop | .continueLoop => 1

def Stmt.nestingEach : List Stmt → Nat
  | [] => 0
  | s :: rest => max s.nesting (Stmt.nestingEach rest)

def Stmt.nestingIfAny : Option (List Stmt) → Nat
  | none => 0
  | some body => Stmt.nestingEach body

def Stmt.nestingOfStart : Option Stmt → Nat
  | none => 0
  | some s => s.nesting

def FieldDecl.nestingEach : List FieldDecl → Nat
  | [] => 0
  | ⟨_, value⟩ :: rest => max (Expr.nestingIfAny value) (FieldDecl.nestingEach rest)

def FunctionDecl.nesting : FunctionDecl → Nat
  | ⟨_, _, body, _⟩ => Stmt.nestingEach body

def FunctionDecl.nestingEach : List FunctionDecl → Nat
  | [] => 0
  | decl :: rest => max decl.nesting (FunctionDecl.nestingEach rest)

def CaseClause.nestingEach : List CaseClause → Nat
  | [] => 0
  | ⟨test, body⟩ :: rest =>
      max (max test.nesting (Stmt.nestingEach body)) (CaseClause.nestingEach rest)

def CatchClause.nestingIfAny : Option CatchClause → Nat
  | none => 0
  | some ⟨_, body⟩ => Stmt.nestingEach body

end

-- Programs that have a rendering: only names and accesses are assigned to, and no method is
-- asynchronous.
mutual

def Expr.Regular : Expr → Prop
  | .assign target value => Parser.isTarget target ∧ target.Regular ∧ value.Regular
  | .binary _ left right => left.Regular ∧ right.Regular
  | .negate operand => operand.Regular
  | .conditional test consequent alternate =>
      test.Regular ∧ consequent.Regular ∧ alternate.Regular
  | .call callee args => callee.Regular ∧ Expr.RegularEach args
  | .member object _ => object.Regular
  | .index object key => object.Regular ∧ key.Regular
  | .construct _ args => Expr.RegularEach args
  | .array elements => Expr.RegularEach elements
  | .ident _ | .number _ | .string _ | .this => True
  | .await promise => promise.Regular
  | .arrowBlock _ body => Stmt.RegularEach body
  | .arrowValue _ value => value.Regular

def Expr.RegularEach : List Expr → Prop
  | [] => True
  | e :: rest => e.Regular ∧ Expr.RegularEach rest

def Expr.RegularIfAny : Option Expr → Prop
  | none => True
  | some e => e.Regular

def Stmt.Regular : Stmt → Prop
  | .declare _ value => Expr.RegularIfAny value
  | .function ⟨_, _, body, _⟩ => Stmt.RegularEach body
  | .classDecl ⟨_, fields, methods⟩ =>
      FieldDecl.RegularEach fields ∧ FunctionDecl.RegularMethods methods
  | .ret value => Expr.RegularIfAny value
  | .branch condition body otherwise =>
      condition.Regular ∧ Stmt.RegularEach body ∧ Stmt.RegularIfAny otherwise
  | .whileLoop condition body => condition.Regular ∧ Stmt.RegularEach body
  | .forLoop start condition update body =>
      Stmt.RegularStart start ∧ Expr.RegularIfAny condition ∧ Expr.RegularIfAny update ∧
        Stmt.RegularEach body
  | .switch subject cases fallback =>
      subject.Regular ∧ CaseClause.RegularEach cases ∧ Stmt.RegularIfAny fallback
  | .attempt body handler cleanup =>
      Stmt.RegularEach body ∧ CatchClause.RegularIfAny handler ∧ Stmt.RegularIfAny cleanup
  | .expr value => value.Regular
  | .importFile _ | .breakLoop | .continueLoop => True

def Stmt.RegularEach : List Stmt → Prop
  | [] => True
  | s :: rest => s.Regular ∧ Stmt.RegularEach rest

def Stmt.RegularIfAny : Option (List Stmt) → Prop
  | none => True
  | some body => Stmt.RegularEach body

def Stmt.RegularStart : Option Stmt → Prop
  | none => True
  | some s => s.Regular

def FieldDecl.RegularEach : List FieldDecl → Prop
  | [] => True
  | ⟨_, value⟩ :: rest => Expr.RegularIfAny value ∧ FieldDecl.RegularEach rest

def FunctionDecl.RegularMethods : List FunctionDecl → Prop
  | [] => True
  | ⟨_, _, body, isAsync⟩ :: rest =>
      isAsync = false ∧ Stmt.RegularEach body ∧ FunctionDecl.RegularMethods rest

def CaseClause.RegularEach : List CaseClause → Prop
  | [] => True
  | ⟨test, body⟩ :: rest => test.Regular ∧ Stmt.RegularEach body ∧ CaseClause.RegularEach rest

def CatchClause.RegularIfAny : Option CatchClause → Prop
  | none => True
  | some ⟨_, body⟩ => Stmt.RegularEach body

end

end ScriptCpp
