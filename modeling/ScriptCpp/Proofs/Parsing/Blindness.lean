import Mathlib
import ScriptCpp.Proofs.Parsing.Likeness
import ScriptCpp.Proofs.Parsing.Source

set_option autoImplicit false

namespace ScriptCpp

mutual

inductive Expr.Like (quoted : String → String → Prop) : Expr → Expr → Prop
  | ident (text : String) : Expr.Like quoted (.ident text) (.ident text)
  | number (value : Binary64) : Expr.Like quoted (.number value) (.number value)
  | string {raw raw' : String} : quoted raw raw' → Expr.Like quoted (.string raw) (.string raw')
  | this : Expr.Like quoted .this .this
  | assign {target target' value value' : Expr} : Expr.Like quoted target target' →
      Expr.Like quoted value value' → Expr.Like quoted (.assign target value) (.assign target' value')
  | binary (op : BinaryOp) {left left' right right' : Expr} : Expr.Like quoted left left' →
      Expr.Like quoted right right' → Expr.Like quoted (.binary op left right) (.binary op left' right')
  | negate {operand operand' : Expr} : Expr.Like quoted operand operand' →
      Expr.Like quoted (.negate operand) (.negate operand')
  | conditional {test test' consequent consequent' alternate alternate' : Expr} :
      Expr.Like quoted test test' → Expr.Like quoted consequent consequent' →
        Expr.Like quoted alternate alternate' →
          Expr.Like quoted (.conditional test consequent alternate) (.conditional test' consequent' alternate')
  | call {callee callee' : Expr} {args args' : List Expr} : Expr.Like quoted callee callee' →
      List.Forall₂ (Expr.Like quoted) args args' → Expr.Like quoted (.call callee args) (.call callee' args')
  | member {object object' : Expr} (name : String) : Expr.Like quoted object object' →
      Expr.Like quoted (.member object name) (.member object' name)
  | index {object object' key key' : Expr} : Expr.Like quoted object object' →
      Expr.Like quoted key key' → Expr.Like quoted (.index object key) (.index object' key')
  | construct (className : String) {args args' : List Expr} : List.Forall₂ (Expr.Like quoted) args args' →
      Expr.Like quoted (.construct className args) (.construct className args')
  | array {elements elements' : List Expr} : List.Forall₂ (Expr.Like quoted) elements elements' →
      Expr.Like quoted (.array elements) (.array elements')
  | await {promise promise' : Expr} : Expr.Like quoted promise promise' →
      Expr.Like quoted (.await promise) (.await promise')
  | arrowBlock (params : List String) {body body' : List Stmt} :
      List.Forall₂ (Stmt.Like quoted) body body' →
        Expr.Like quoted (.arrowBlock params body) (.arrowBlock params body')
  | arrowValue (params : List String) {value value' : Expr} : Expr.Like quoted value value' →
      Expr.Like quoted (.arrowValue params value) (.arrowValue params value')

inductive Stmt.Like (quoted : String → String → Prop) : Stmt → Stmt → Prop
  | declare (name : String) {value value' : Option Expr} : Option.Rel (Expr.Like quoted) value value' →
      Stmt.Like quoted (.declare name value) (.declare name value')
  | function {decl decl' : FunctionDecl} : decl.Rel (Stmt.Like quoted) decl' →
      Stmt.Like quoted (.function decl) (.function decl')
  | classDecl (name : String) {fields fields' : List FieldDecl} {methods methods' : List FunctionDecl} :
      List.Forall₂ (FieldDecl.Rel (Expr.Like quoted)) fields fields' →
        List.Forall₂ (FunctionDecl.Rel (Stmt.Like quoted)) methods methods' →
          Stmt.Like quoted (.classDecl ⟨name, fields, methods⟩) (.classDecl ⟨name, fields', methods'⟩)
  | importFile {path path' : String} : quoted path path' →
      Stmt.Like quoted (.importFile path) (.importFile path')
  | ret {value value' : Option Expr} : Option.Rel (Expr.Like quoted) value value' →
      Stmt.Like quoted (.ret value) (.ret value')
  | branch {test test' : Expr} {body body' : List Stmt} {otherwise otherwise' : Option (List Stmt)} :
      Expr.Like quoted test test' → List.Forall₂ (Stmt.Like quoted) body body' →
        Option.Rel (List.Forall₂ (Stmt.Like quoted)) otherwise otherwise' →
          Stmt.Like quoted (.branch test body otherwise) (.branch test' body' otherwise')
  | whileLoop {test test' : Expr} {body body' : List Stmt} : Expr.Like quoted test test' →
      List.Forall₂ (Stmt.Like quoted) body body' →
        Stmt.Like quoted (.whileLoop test body) (.whileLoop test' body')
  | forLoop {start start' : Option Stmt} {test test' update update' : Option Expr} {body body' : List Stmt} :
      Option.Rel (Stmt.Like quoted) start start' → Option.Rel (Expr.Like quoted) test test' →
        Option.Rel (Expr.Like quoted) update update' → List.Forall₂ (Stmt.Like quoted) body body' →
          Stmt.Like quoted (.forLoop start test update body) (.forLoop start' test' update' body')
  | switch {subject subject' : Expr} {cases cases' : List CaseClause}
      {fallback fallback' : Option (List Stmt)} : Expr.Like quoted subject subject' →
        List.Forall₂ (CaseClause.Rel (Expr.Like quoted) (Stmt.Like quoted)) cases cases' →
          Option.Rel (List.Forall₂ (Stmt.Like quoted)) fallback fallback' →
            Stmt.Like quoted (.switch subject cases fallback) (.switch subject' cases' fallback')
  | breakLoop : Stmt.Like quoted .breakLoop .breakLoop
  | continueLoop : Stmt.Like quoted .continueLoop .continueLoop
  | attempt {body body' : List Stmt} {handler handler' : Option CatchClause}
      {cleanup cleanup' : Option (List Stmt)} : List.Forall₂ (Stmt.Like quoted) body body' →
        Option.Rel (CatchClause.Rel (Stmt.Like quoted)) handler handler' →
          Option.Rel (List.Forall₂ (Stmt.Like quoted)) cleanup cleanup' →
            Stmt.Like quoted (.attempt body handler cleanup) (.attempt body' handler' cleanup')
  | expr {value value' : Expr} : Expr.Like quoted value value' →
      Stmt.Like quoted (.expr value) (.expr value')

end

namespace Parser.Pairing

theorem layer_like (w : Pairing) :
    w.Layer (Expr.Like w.quoted) (Expr.Like w.quoted) (Stmt.Like w.quoted) (Stmt.Like w.quoted)
      (Option.Rel (List.Forall₂ (Stmt.Like w.quoted))) where
  name h := by cases h <;> rfl
  target h := by cases h <;> rfl
  paren := id
  ident := .ident
  number := .number
  string := .string
  this := .this
  assign := .assign
  binary op _ _ _ _ := .binary op
  negate := .negate
  conditional := .conditional
  call := .call
  member name := .member name
  index := .index
  construct className _ _ := .construct className
  array := .array
  await := .await
  arrowBlock params _ _ := .arrowBlock params
  arrowValue params _ _ := .arrowValue params
  declare name _ _ := .declare name
  function := .function
  classDecl name _ _ _ _ := .classDecl name
  importFile := .importFile
  ret := .ret
  branch := .branch
  noElse := .none
  elseBlock := .some
  elseBranch test body rest := .some (.cons (.branch test body rest) .nil)
  whileLoop := .whileLoop
  forLoop := .forLoop
  switch := .switch
  breakLoop := .breakLoop
  continueLoop := .continueLoop
  attempt := .attempt
  expr := .expr

variable {w : Pairing} {ts us : List Token}

theorem twins_of_like (like : List.Forall₂ (Token.Like w.quoted) ts us)
    (dots : ∀ (i : Nat) (t u : Token), (ts ++ [w.stop])[i]?.map Token.kind = some (.symbol .dot) →
      (ts ++ [w.stop])[i + 1]? = some t → (us ++ [w.stop'])[i + 1]? = some u → t.NamedAlike u) :
    w.Twins ts us := by
  induction like with
  | nil => exact .stop
  | @cons t u ts us first rest ih =>
    refine .token first ?_ (ih fun i => dots (i + 1))
    intro dot
    have here : (t :: ts ++ [w.stop])[0]?.map Token.kind = some (.symbol .dot) := congrArg some dot
    cases rest with
    | nil => exact dots 0 _ _ here rfl rfl
    | cons => exact dots 0 _ _ here rfl rfl

theorem Twins.place {left left' : List Token} (rests : w.Twins left left') (same : us.length = ts.length)
    (inside : left <:+ ts) (inside' : left' <:+ us) :
    ∃ i : Nat, (ts ++ [w.stop])[i]? = some (left.headD w.stop) ∧
      (us ++ [w.stop'])[i]? = some (left'.headD w.stop') := by
  obtain ⟨used, rfl⟩ := inside
  obtain ⟨used', rfl⟩ := inside'
  have lengths := rests.length_eq
  have even : used'.length = used.length := by
    simp only [List.length_append] at same
    omega
  refine ⟨used.length, ?_, ?_⟩
  · rw [List.append_assoc, List.getElem?_append_right (Nat.le_refl _), Nat.sub_self]
    cases left <;> rfl
  · rw [List.append_assoc, ← even, List.getElem?_append_right (Nat.le_refl _), Nat.sub_self]
    cases left' <;> rfl

theorem program_outcome (twins : w.Twins ts us) :
    (∃ (i : Nat) (t u : Token) (complaint : Complaint),
      (ts ++ [w.stop])[i]? = some t ∧ (us ++ [w.stop'])[i]? = some u ∧
        program.run w.stop ts = .error (.atToken complaint t) ∧
        program.run w.stop' us = .error (.atToken complaint u)) ∨
    ∃ p q left left', program.run w.stop ts = .ok (p, left) ∧ program.run w.stop' us = .ok (q, left') ∧
      List.Forall₂ (Stmt.Like w.quoted) p q := by
  have outcome := parallel_program (fun _ => w.layer_like) twins
  generalize program.run w.stop ts = r at outcome
  generalize program.run w.stop' us = r' at outcome
  cases outcome with
  | error complaint inside inside' rests =>
    obtain ⟨i, here, here'⟩ := rests.place twins.length_eq inside inside'
    exact .inl ⟨i, _, _, complaint, here, here', rfl, rfl⟩
  | ok related _ => exact .inr ⟨_, _, _, _, rfl, rfl, related⟩

end Parser.Pairing

theorem Token.like_eof (quoted : String → String → Prop) (p q : Position) : (eof p).Like quoted (eof q) :=
  ⟨rfl, fun _ => rfl, nofun⟩

theorem Token.Like.namedAlike {quoted : String → String → Prop} {t u : Token} (like : t.Like quoted u)
    (plain : t.kind ≠ .string) : t.NamedAlike u :=
  fun _ => like.text plain

namespace Program

def QuotedAt (tokens others : List Token) (a b : String) : Prop :=
  ∃ (i : Nat) (t u : Token), tokens[i]? = some t ∧ others[i]? = some u ∧ t.kind = .string ∧ t.text = a ∧ u.text = b

theorem like_quotedAt {tokens others : List Token}
    (like : List.Forall₂ (Token.Like fun _ _ => True) tokens others) :
    List.Forall₂ (Token.Like (QuotedAt tokens others)) tokens others := by
  obtain ⟨same, each⟩ := List.forall₂_iff_get.mp like
  refine List.forall₂_iff_get.mpr ⟨same, fun i short short' => ?_⟩
  obtain ⟨kind, text, -⟩ := each i short short'
  refine ⟨kind, text, fun string => ⟨i, _, _, ?_, ?_, string, rfl, rfl⟩⟩
  · exact List.getElem?_eq_getElem short
  · exact List.getElem?_eq_getElem short'

/-- Two texts whose tokens differ in strings only. Behind a dot, a string that is spelled like a keyword
in one is spelled the same in the other. -/
theorem ofTokens_blind {text text' : String} {tokens others : List Token}
    (read : Token.ofText text = .ok tokens) (read' : Token.ofText text' = .ok others)
    (like : List.Forall₂ (Token.Like fun _ _ => True) tokens others)
    (dots : ∀ (i : Nat) (t u : Token), tokens[i]?.map Token.kind = some (.symbol .dot) →
      tokens[i + 1]? = some t → others[i + 1]? = some u → t.kind = .string → t.NamedAlike u) :
    (∃ (i : Nat) (t u : Token) (complaint : Complaint), tokens[i]? = some t ∧ others[i]? = some u ∧
      ofTokens tokens = .error (.atToken complaint t) ∧ ofTokens others = .error (.atToken complaint u)) ∨
    ∃ p q, ofTokens tokens = .ok p ∧ ofTokens others = .ok q ∧
      List.Forall₂ (Stmt.Like (QuotedAt tokens others)) p q := by
  have alike := like_quotedAt like
  generalize QuotedAt tokens others = quoted at alike ⊢
  obtain ⟨ts, rfl, lexemes⟩ := Token.ofText_lexemes read
  obtain ⟨us, rfl, lexemes'⟩ := Token.ofText_lexemes read'
  let w : Parser.Pairing :=
    ⟨quoted, .eof (.behind text.toList), .eof (.behind text'.toList), Token.like_eof quoted _ _⟩
  have before : List.Forall₂ (Token.Like quoted) ts us := by
    have same : ts.length = us.length := by simpa using alike.length_eq
    have taken := List.forall₂_take_append _ _ _ alike
    rwa [← same, List.take_left] at taken
  have twins : w.Twins ts us := by
    apply Parser.Pairing.twins_of_like before
    intro i t u dot next next'
    by_cases string : t.kind = .string
    · exact dots i t u dot next next' string
    · obtain ⟨short, rfl⟩ := List.getElem?_eq_some_iff.mp next
      obtain ⟨short', rfl⟩ := List.getElem?_eq_some_iff.mp next'
      have related : Token.Like quoted _ _ := alike.get short short'
      exact related.namedAlike string
  rw [ofTokens_lexemes lexemes, ofTokens_lexemes lexemes']
  rcases Parser.Pairing.program_outcome twins with
    ⟨i, t, u, complaint, here, here', failed, failed'⟩ | ⟨p, q, left, left', accepted, accepted', related⟩
  · exact .inl ⟨i, t, u, complaint, here, here', congrArg _ failed, congrArg _ failed'⟩
  · exact .inr ⟨p, q, congrArg _ accepted, congrArg _ accepted', related⟩

-- `x."if" = "v";`, with the column of the semicolon
def named (value : String) (column : Nat) : List Token :=
  [⟨.identifier, "x", ⟨1, 1⟩⟩, ⟨.symbol .dot, ".", ⟨1, 2⟩⟩, ⟨.string, "if", ⟨1, 3⟩⟩,
    ⟨.symbol .assign, "=", ⟨1, 8⟩⟩, ⟨.string, value, ⟨1, 10⟩⟩, ⟨.symbol .semicolon, ";", ⟨1, column⟩⟩,
    .eof ⟨1, column + 1⟩]

theorem named_like (value value' : String) (column column' : Nat) :
    List.Forall₂ (Token.Like fun _ _ => True) (named value column) (named value' column') := by
  have same : ∀ {kind : Token.Kind} {text : String} {p q : Position},
      Token.Like (fun _ _ => True) ⟨kind, text, p⟩ ⟨kind, text, q⟩ := ⟨rfl, fun _ => rfl, fun _ => trivial⟩
  have quoted : Token.Like (fun _ _ => True) ⟨.string, value, ⟨1, 10⟩⟩ ⟨.string, value', ⟨1, 10⟩⟩ :=
    ⟨rfl, fun plain => absurd rfl plain, fun _ => trivial⟩
  exact .cons same (.cons same (.cons same (.cons same (.cons quoted (.cons same (.cons same .nil))))))

theorem ofTokens_blind_named :
    Token.ofText "x.\"if\" = \"b\";" = .ok (named "b" 13) ∧
      Token.ofText "x.\"if\" = \"let\";" = .ok (named "let" 15) ∧
      ∃ p q, ofTokens (named "b" 13) = .ok p ∧ ofTokens (named "let" 15) = .ok q ∧
        List.Forall₂ (Stmt.Like (QuotedAt (named "b" 13) (named "let" 15))) p q := by
  have read : Token.ofText "x.\"if\" = \"b\";" = .ok (named "b" 13) := by with_unfolding_all rfl
  have read' : Token.ofText "x.\"if\" = \"let\";" = .ok (named "let" 15) := by with_unfolding_all rfl
  have accepted : ofTokens (named "b" 13) = .ok [.expr (.assign (.member (.ident "x") "if") (.string "b"))] := by
    with_unfolding_all rfl
  have dots : ∀ (i : Nat) (t u : Token), (named "b" 13)[i]?.map Token.kind = some (.symbol .dot) →
      (named "b" 13)[i + 1]? = some t → (named "let" 15)[i + 1]? = some u → t.kind = .string →
        t.NamedAlike u := by
    intro i t u dot next next' string
    rcases i with _ | _ | _ | _ | _ | _ | _ | i
    · cases dot
    · cases next
      cases next'
      exact fun _ => rfl
    all_goals cases dot
  refine ⟨read, read', ?_⟩
  rcases ofTokens_blind read read' (named_like _ _ _ _) dots with ⟨_, _, _, _, -, -, failed, -⟩ | both
  · cases accepted.symm.trans failed
  · exact both

-- `x."n";`
def quotedName (name : String) : List Token :=
  [⟨.identifier, "x", ⟨1, 1⟩⟩, ⟨.symbol .dot, ".", ⟨1, 2⟩⟩, ⟨.string, name, ⟨1, 3⟩⟩,
    ⟨.symbol .semicolon, ";", ⟨1, 7⟩⟩, .eof ⟨1, 8⟩]

theorem keyword_string_named :
    Token.ofText "x.\"if\";" = .ok (quotedName "if") ∧ Token.ofText "x.\"of\";" = .ok (quotedName "of") ∧
      List.Forall₂ (Token.Like fun _ _ => True) (quotedName "if") (quotedName "of") ∧
      ofTokens (quotedName "if") = .ok [.expr (.member (.ident "x") "if")] ∧
      ofTokens (quotedName "of") = .error (.atToken .propertyName ⟨.string, "of", ⟨1, 3⟩⟩) := by
  have same : ∀ {t : Token}, t.Like (fun _ _ => True) t := ⟨rfl, fun _ => rfl, fun _ => trivial⟩
  have quoted : Token.Like (fun _ _ => True) ⟨.string, "if", ⟨1, 3⟩⟩ ⟨.string, "of", ⟨1, 3⟩⟩ :=
    ⟨rfl, fun plain => absurd rfl plain, fun _ => trivial⟩
  refine ⟨by with_unfolding_all rfl, by with_unfolding_all rfl, ?_, by with_unfolding_all rfl,
    by with_unfolding_all rfl⟩
  exact .cons same (.cons same (.cons quoted (.cons same (.cons same .nil))))

end Program

end ScriptCpp
