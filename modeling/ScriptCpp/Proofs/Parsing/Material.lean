import Mathlib
import ScriptCpp.Proofs.Parsing.Rendering

set_option autoImplicit false

namespace ScriptCpp

inductive Material where
  | name (text : String)
  | numeral (value : Option Binary64)
  | quoted (raw : String)
  | operator (sign : Symbol)
deriving DecidableEq

def Symbol.isOperator : Symbol → Bool
  | .plus | .minus | .times | .divide | .modulo => true
  | .equal | .notEqual | .less | .greater | .lessEqual | .greaterEqual => true
  | .and | .or => true
  | .arrow | .assign | .question | .openParen | .closeParen | .openBrace | .closeBrace => false
  | .openBracket | .closeBracket | .semicolon | .comma | .dot | .colon => false

theorem BinaryOp.sign_isOperator (op : BinaryOp) : op.sign.isOperator = true := by
  cases op <;> rfl

namespace Token

def material (t : Token) : List Material :=
  match t.kind with
  | .identifier => [.name t.text]
  | .number => [.numeral (Binary64.ofText? t.text)]
  | .string => [.quoted t.text]
  | .symbol sign => if sign.isOperator then [.operator sign] else []
  | .keyword _ => []
  | .eof => []

/-- The material of tokens, the first of which follows a dot if `dotted` holds. Whatever follows a dot
is a name. -/
def materialFrom (dotted : Bool) : List Token → List Material
  | [] => []
  | t :: ts =>
      (if dotted then [.name t.text] else t.material) ++ materialFrom (t.kind = .symbol .dot) ts

def materialOf (ts : List Token) : List Material := materialFrom false ts

end Token

mutual

@[simp] def Expr.material : Expr → List Material
  | .assign target value => target.material ++ value.material
  | .binary op left right => left.material ++ .operator op.sign :: right.material
  | .negate operand => .operator .minus :: operand.material
  | .conditional test consequent alternate =>
      test.material ++ (consequent.material ++ alternate.material)
  | .call callee args => callee.material ++ Expr.materialEach args
  | .member object text => object.material ++ [.name text]
  | .index object key => object.material ++ key.material
  | .construct className args => .name className :: Expr.materialEach args
  | .array elements => Expr.materialEach elements
  | .ident text => [.name text]
  | .number value => [.numeral (some value)]
  | .string raw => [.quoted raw]
  | .this => []
  | .await promise => promise.material
  | .arrowBlock names body => names.map .name ++ Stmt.materialEach body
  | .arrowValue names value => names.map .name ++ value.material

@[simp] def Expr.materialEach : List Expr → List Material
  | [] => []
  | e :: rest => e.material ++ Expr.materialEach rest

@[simp] def Expr.materialIfAny : Option Expr → List Material
  | none => []
  | some e => e.material

@[simp] def Stmt.material : Stmt → List Material
  | .declare text value => .name text :: Expr.materialIfAny value
  | .function decl => decl.material
  | .classDecl ⟨text, fields, methods⟩ =>
      .name text :: (FieldDecl.materialEach fields ++ FunctionDecl.materialEach methods)
  | .importFile path => [.quoted path]
  | .ret value => Expr.materialIfAny value
  | .branch condition body otherwise =>
      condition.material ++ (Stmt.materialEach body ++ Stmt.materialIfAny otherwise)
  | .whileLoop condition body => condition.material ++ Stmt.materialEach body
  | .forLoop start condition update body =>
      Stmt.materialOfStart start ++ (Expr.materialIfAny condition ++
        (Expr.materialIfAny update ++ Stmt.materialEach body))
  | .switch subject cases fallback =>
      subject.material ++ (CaseClause.materialEach cases ++ Stmt.materialIfAny fallback)
  | .breakLoop | .continueLoop => []
  | .attempt body handler cleanup =>
      Stmt.materialEach body ++ (CatchClause.materialIfAny handler ++ Stmt.materialIfAny cleanup)
  | .expr value => value.material

@[simp] def Stmt.materialEach : List Stmt → List Material
  | [] => []
  | s :: rest => s.material ++ Stmt.materialEach rest

@[simp] def Stmt.materialIfAny : Option (List Stmt) → List Material
  | none => []
  | some body => Stmt.materialEach body

@[simp] def Stmt.materialOfStart : Option Stmt → List Material
  | none => []
  | some s => s.material

@[simp] def FieldDecl.material : FieldDecl → List Material
  | ⟨text, value⟩ => .name text :: Expr.materialIfAny value

@[simp] def FieldDecl.materialEach : List FieldDecl → List Material
  | [] => []
  | field :: rest => field.material ++ FieldDecl.materialEach rest

@[simp] def FunctionDecl.material : FunctionDecl → List Material
  | ⟨text, names, body, _⟩ => .name text :: (names.map .name ++ Stmt.materialEach body)

@[simp] def FunctionDecl.materialEach : List FunctionDecl → List Material
  | [] => []
  | decl :: rest => decl.material ++ FunctionDecl.materialEach rest

@[simp] def CaseClause.material : CaseClause → List Material
  | ⟨test, body⟩ => test.material ++ Stmt.materialEach body

@[simp] def CaseClause.materialEach : List CaseClause → List Material
  | [] => []
  | clause :: rest => clause.material ++ CaseClause.materialEach rest

@[simp] def CatchClause.materialIfAny : Option CatchClause → List Material
  | none => []
  | some ⟨param, body⟩ => param.toList.map .name ++ Stmt.materialEach body

end

/-- The tree keeps the material of the tokens it was read from. Only a `default` drops something, and
only a `default` or a `class` puts something in another place. -/
structure Keeps (used : List Token) (kept : List Material) : Prop where
  joins : ∀ more, Token.materialOf (used ++ more) = Token.materialOf used ++ Token.materialOf more
  subperm : kept.Subperm (Token.materialOf used)
  perm : (∀ t ∈ used, t.kind ≠ .keyword .default_) → kept.Perm (Token.materialOf used)
  same : (∀ t ∈ used, t.kind ≠ .keyword .default_) → (∀ t ∈ used, t.kind ≠ .keyword .class_) →
    kept = Token.materialOf used
  named : ∀ text, .name text ∈ kept →
    (∃ t ∈ used, t.kind = .identifier ∧ t.text = text) ∨ (Keyword.ofText? text).isSome

namespace Keeps

variable {used more : List Token} {kept other : List Material} {t : Token}

theorem nil : Keeps [] [] where
  joins _ := rfl
  subperm := List.Subperm.refl _
  perm _ := List.Perm.refl _
  same _ _ := rfl
  named _ none := by cases none

theorem append (first : Keeps used kept) (second : Keeps more other) :
    Keeps (used ++ more) (kept ++ other) where
  joins := by
    intro rest
    rw [List.append_assoc, first.joins, second.joins, first.joins, List.append_assoc]
  subperm := by
    rw [first.joins]
    exact first.subperm.append second.subperm
  perm := by
    intro absent
    rw [List.forall_mem_append] at absent
    rw [first.joins]
    exact (first.perm absent.1).append (second.perm absent.2)
  same := by
    intro noDefault noClass
    rw [List.forall_mem_append] at noDefault noClass
    rw [first.joins, first.same noDefault.1 noClass.1, second.same noDefault.2 noClass.2]
  named := by
    intro text present
    rcases List.mem_append.mp present with here | later
    · rcases first.named text here with ⟨t, among, name⟩ | keyword
      · exact .inl ⟨t, List.mem_append_left _ among, name⟩
      · exact .inr keyword
    · rcases second.named text later with ⟨t, among, name⟩ | keyword
      · exact .inl ⟨t, List.mem_append_right _ among, name⟩
      · exact .inr keyword

theorem token (noDot : t.kind ≠ .symbol .dot) : Keeps [t] t.material := by
  have alone : Token.materialOf [t] = t.material := by
    simp [Token.materialOf, Token.materialFrom]
  constructor
  case joins =>
    intro rest
    simp [Token.materialOf, Token.materialFrom, noDot]
  case subperm => rw [alone]
  case perm => exact fun _ => alone ▸ List.Perm.refl _
  case same => exact fun _ _ => alone.symm
  case named =>
    intro text present
    refine .inl ⟨t, List.mem_singleton_self t, ?_⟩
    unfold Token.material at present
    split at present
    · next isName =>
      obtain rfl : text = t.text := by simpa using present
      exact ⟨isName, rfl⟩
    · simp at present
    · simp at present
    · split at present <;> simp at present
    · simp at present
    · simp at present

theorem name (isName : t.kind = .identifier) : Keeps [t] [.name t.text] := by
  have kept := token (t := t) (by simp [isName])
  simpa [Token.material, isName] using kept

theorem string (isString : t.kind = .string) : Keeps [t] [.quoted t.text] := by
  have kept := token (t := t) (by simp [isString])
  simpa [Token.material, isString] using kept

theorem number {value : Binary64} (isNumber : t.kind = .number)
    (read : Binary64.ofText? t.text = some value) : Keeps [t] [.numeral (some value)] := by
  have kept := token (t := t) (by simp [isNumber])
  simpa [Token.material, isNumber, read] using kept

theorem operator {sign : Symbol} (isSign : t.kind = .symbol sign) (operates : sign.isOperator = true) :
    Keeps [t] [.operator sign] := by
  have noDot : t.kind ≠ .symbol .dot := by
    rw [isSign]
    rintro ⟨⟩
    cases operates
  simpa [Token.material, isSign, operates] using token noDot

theorem word {keyword : Keyword} (isWord : t.kind = .keyword keyword) : Keeps [t] [] := by
  have kept := token (t := t) (by simp [isWord])
  simpa [Token.material, isWord] using kept

theorem mark {sign : Symbol} (isSign : t.kind = .symbol sign) (noDot : sign ≠ .dot)
    (marks : sign.isOperator = false) : Keeps [t] [] := by
  have kept := token (t := t) (by simpa [isSign] using noDot)
  simpa [Token.material, isSign, marks] using kept

theorem property {dot : Token} (isDot : dot.kind = .symbol .dot) (noDot : t.kind ≠ .symbol .dot)
    (named : t.kind = .identifier ∨ (Keyword.ofText? t.text).isSome) :
    Keeps [dot, t] [.name t.text] := by
  have silent : dot.material = [] := by simp [Token.material, isDot, Symbol.isOperator]
  have both : Token.materialOf [dot, t] = [.name t.text] := by
    simp [Token.materialOf, Token.materialFrom, silent, isDot]
  constructor
  case joins =>
    intro rest
    simp [Token.materialOf, Token.materialFrom, silent, isDot, noDot]
  case subperm => rw [both]
  case perm => exact fun _ => both ▸ List.Perm.refl _
  case same => exact fun _ _ => both.symm
  case named =>
    intro text present
    obtain rfl : text = t.text := by simpa using present
    rcases named with isName | keyword
    · exact .inl ⟨t, by simp, isName, rfl⟩
    · exact .inr keyword

theorem of_perm (h : Keeps used kept) (permuted : other.Perm kept)
    (isClass : ∃ t ∈ used, t.kind = .keyword .class_) : Keeps used other where
  joins := h.joins
  subperm := permuted.subperm.trans h.subperm
  perm absent := permuted.trans (h.perm absent)
  same _ noClass := by
    obtain ⟨t, present, kind⟩ := isClass
    exact absurd kind (noClass t present)
  named text present := h.named text (permuted.mem_iff.mp present)

theorem of_subperm (h : Keeps used kept) (fewer : other.Subperm kept)
    (isDefault : ∃ t ∈ used, t.kind = .keyword .default_) : Keeps used other where
  joins := h.joins
  subperm := fewer.trans h.subperm
  perm noDefault := by
    obtain ⟨t, present, kind⟩ := isDefault
    exact absurd kind (noDefault t present)
  same noDefault _ := by
    obtain ⟨t, present, kind⟩ := isDefault
    exact absurd kind (noDefault t present)
  named text present := h.named text (fewer.subset present)

end Keeps

end ScriptCpp
