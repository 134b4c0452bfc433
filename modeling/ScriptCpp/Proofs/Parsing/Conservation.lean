import Mathlib
import ScriptCpp.Proofs.Parsing.Material
import ScriptCpp.Proofs.Parsing.Source
import ScriptCpp.Proofs.Parsing.Takes

set_option autoImplicit false

namespace ScriptCpp

theorem Expr.materialEach_eq (es : List Expr) : Expr.materialEach es = es.flatMap Expr.material := by
  induction es with
  | nil => rfl
  | cons e es ih => rw [Expr.materialEach, ih, List.flatMap_cons]

theorem Stmt.materialEach_eq (body : List Stmt) :
    Stmt.materialEach body = body.flatMap Stmt.material := by
  induction body with
  | nil => rfl
  | cons s body ih => rw [Stmt.materialEach, ih, List.flatMap_cons]

theorem Expr.materialEach_of_names {es : List Expr} {names : List String}
    (all : es.mapM Expr.name? = some names) : Expr.materialEach es = names.map .name := by
  induction es generalizing names with
  | nil =>
    cases all
    rfl
  | cons e es ih =>
    rw [List.mapM_cons] at all
    cases first : e.name? with
    | none => simp [first] at all
    | some text =>
      cases later : es.mapM Expr.name? with
      | none => simp [first, later] at all
      | some rest =>
        obtain rfl : text :: rest = names := by simpa [first, later] using all
        cases e with
        | ident name =>
          cases first
          rw [Expr.materialEach, ih later]
          rfl
        | _ => cases first

namespace Parser

variable {α β σ : Type}

/-- Every success has the material of the tokens it takes. -/
def Conserves (p : Parser α) (material : α → List Material) : Prop :=
  p.Takes fun a used => Keeps used (material a)

def Adds (p : Parser α) (before : List Material) (material : α → List Material) : Prop :=
  p.Takes fun a used => ∃ own, material a = before ++ own ∧ Keeps used own

variable {p : Parser α} {f : α → Parser β} {m : α → List Material} {n : β → List Material}
  {before : List Material}

theorem Adds.conserves (h : p.Adds [] m) : p.Conserves m :=
  h.mono fun _ _ ⟨_, same, keeps⟩ => by rwa [same]

theorem Conserves.adds (h : p.Conserves m) : p.Adds [] m :=
  h.mono fun a _ keeps => ⟨m a, rfl, keeps⟩

theorem Conserves.andThen (first : p.Conserves m) (second : ∀ a, (f a).Adds (before ++ m a) n) :
    (p >>= f).Adds before n := by
  refine first.bind fun a used keeps => (second a).mono fun b more => ?_
  rintro ⟨own, same, kept⟩
  exact ⟨m a ++ own, by rw [same, List.append_assoc], keeps.append kept⟩

theorem Adds.pure {a : α} (same : m a = before) : (Pure.pure a : Parser α).Adds before m :=
  Takes.pure ⟨[], by rw [same, List.append_nil], .nil⟩

theorem Adds.fail {complaint : Complaint} : (fail complaint : Parser α).Adds before m :=
  Takes.fail

theorem Adds.skipped {sign : Symbol} {q : Parser β} (noDot : sign ≠ .dot)
    (marks : sign.isOperator = false) (next : q.Adds before n) :
    (skip >>= fun _ => q).TakesOn (.symbol sign) fun b used =>
      ∃ own, n b = before ++ own ∧ Keeps used own := by
  refine Takes.skip_then (by simp) fun t isSign => next.mono fun b more => ?_
  rintro ⟨own, same, keeps⟩
  exact ⟨own, same, (Keeps.mark isSign noDot marks).append keeps⟩

section Tokens

variable {complaint : Complaint} {sign : Symbol}

theorem conserves_mark (noDot : sign ≠ .dot) (marks : sign.isOperator = false) :
    (expectSymbol sign complaint).Conserves fun _ => [] :=
  Takes.expectSymbol fun _ isSign => .mark isSign noDot marks

theorem conserves_name : (expect .identifier complaint).Conserves fun text => [.name text] :=
  Takes.expect fun _ isName => .name isName

theorem conserves_string : (expect .string complaint).Conserves fun raw => [.quoted raw] :=
  Takes.expect fun _ isString => .string isString

theorem conserves_word {keyword : Keyword} :
    (expect (.keyword keyword) complaint).Conserves fun _ => [] :=
  Takes.expect fun _ isWord => .word isWord

theorem conserves_acceptMark (noDot : sign ≠ .dot) (marks : sign.isOperator = false) :
    (acceptSymbol sign).Conserves fun _ => [] :=
  Takes.accept .nil fun _ isSign => .mark isSign noDot marks

theorem conserves_acceptWord {keyword : Keyword} : (acceptWord keyword).Conserves fun _ => [] :=
  Takes.accept .nil fun _ isWord => .word isWord

end Tokens

theorem conserves_many {stops : Token → Bool} {strict : p.Strict} (item : p.Conserves m) :
    (many stops p @strict).Conserves fun as => as.flatMap m :=
  Takes.many item .nil fun _ _ _ _ first later => first.append later

-- The loop collects the items last first.
theorem conserves_commaSeparated (item : p.Conserves m) :
    (commaSeparated p).Conserves fun as => as.flatMap m := by
  have step : ∀ (items : List α) (done : List Token) (t : Token) (q : Parser (List α)),
      Keeps done (items.reverse.flatMap m) →
      (if t.kind = .symbol .comma then some ((· :: items) <$> p) else none) = some q →
      q.Takes fun items' more => Keeps (done ++ t :: more) (items'.reverse.flatMap m) := by
    intro items done t q kept found
    split at found
    · next isComma =>
      cases found
      refine Takes.map (item.mono fun a more own => ?_)
      have whole := kept.append ((Keeps.mark isComma (by decide) rfl).append own)
      simpa using whole
    · cases found
  refine Takes.bind item fun first used keeps => ?_
  have start : Keeps used ([first].reverse.flatMap m) := by simpa using keeps
  refine Takes.bind (Takes.iterate step start) fun items more kept => Takes.pure ?_
  simpa using kept

structure Conserving (inner : Nested) : Prop where
  statement : inner.statement.Conserves Stmt.material
  assignment : inner.assignment.Conserves Expr.material
  conditional : inner.conditional.Conserves Expr.material
  unary : inner.unary.Conserves Expr.material

namespace Conserving

variable {inner : Nested} (level : Conserving inner)

include level

theorem blockOf (place : BlockPlace) : (blockOf inner place).Conserves Stmt.materialEach := by
  refine ((conserves_mark (by decide) rfl).andThen fun _ => (conserves_many level.statement).andThen
    fun body => (conserves_mark (by decide) rfl).andThen fun _ => Adds.pure ?_).conserves
  simp [Stmt.materialEach_eq]

theorem expressionList (close : Symbol) :
    (expressionList inner close).Conserves Expr.materialEach := by
  refine Takes.sees_then (Takes.on (Takes.pure .nil) _) ?_
  exact (conserves_commaSeparated level.assignment).mono fun es used keeps => by
    rwa [Expr.materialEach_eq]

theorem callArguments : (callArguments inner).Conserves Expr.materialEach := by
  refine ((level.expressionList _).andThen fun args => (conserves_mark (by decide) rfl).andThen
    fun _ => Adds.pure ?_).conserves
  simp

theorem parenthesized : (parenthesized inner).Conserves Expr.material := by
  refine ((level.expressionList _).andThen fun items => (conserves_mark (by decide) rfl).andThen
    fun _ => Takes.sees_then ?_ ?_).conserves
  · split
    · exact Takes.on Adds.fail _
    · next names all =>
      have params := Expr.materialEach_of_names all
      refine Adds.skipped (by decide) rfl (Takes.sees_then (Takes.on ?_ _) ?_)
      · refine (level.blockOf _).andThen fun body => Adds.pure ?_
        simp [params]
      · refine level.assignment.andThen fun value => Adds.pure ?_
        simp [params]
  · split
    · exact Adds.pure (by simp)
    · exact Adds.fail
    · exact Adds.fail

theorem construction : (construction inner).Conserves Expr.material := by
  refine (conserves_name.andThen fun className =>
    (conserves_acceptMark (by decide) rfl).andThen fun called => ?_).conserves
  cases called with
  | false => exact Adds.pure (by simp)
  | true => exact level.callArguments.andThen fun args => Adds.pure (by simp)

theorem arrayElements : (arrayElements inner).Conserves Expr.material := by
  refine ((level.expressionList _).andThen fun elements =>
    (conserves_mark (by decide) rfl).andThen fun _ => Adds.pure ?_).conserves
  simp

theorem primary : (primary inner).Conserves Expr.material := by
  refine Takes.onToken ?_ ?_
  · intro t q found
    split at found
    · next isName =>
      cases found
      exact Takes.pure (.name isName)
    · next isNumber =>
      obtain ⟨value, read, rfl⟩ := Option.map_eq_some_iff.mp found
      exact Takes.pure (.number isNumber read)
    · next isString =>
      cases found
      exact Takes.pure (.string isString)
    · next isThis =>
      cases found
      exact Takes.pure (.word isThis)
    · next isNew =>
      cases found
      exact level.construction.mono fun e used keeps => (Keeps.word isNew).append keeps
    · next isAwait =>
      cases found
      exact Takes.map (level.assignment.mono fun e used keeps => (Keeps.word isAwait).append keeps)
    · next isBracket =>
      cases found
      exact level.arrayElements.mono fun e used keeps =>
        (Keeps.mark isBracket (by decide) rfl).append keeps
    · next isParen =>
      cases found
      exact level.parenthesized.mono fun e used keeps =>
        (Keeps.mark isParen (by decide) rfl).append keeps
    · cases found
  · intro stop ts e rest ends read
    cases read

theorem access {object : Expr} {done : List Token} (kept : Keeps done object.material) {t : Token}
    {q : Parser Expr} (known : access inner object t = some q) :
    q.Takes fun e more => Keeps (done ++ t :: more) e.material := by
  unfold Parser.access at known
  split at known
  · next isDot =>
    cases known
    refine Takes.map (Takes.propertyName fun name noSign named => ?_)
    exact kept.append (Keeps.property isDot (noSign _) named)
  · next isBracket =>
    cases known
    have key : (inner.assignment >>= fun key => expectSymbol .closeBracket .indexClose >>= fun _ =>
        Pure.pure (Expr.index object key)).Adds object.material Expr.material := by
      refine level.assignment.andThen fun key => (conserves_mark (by decide) rfl).andThen fun _ =>
        Adds.pure ?_
      simp
    refine key.mono fun e more => ?_
    rintro ⟨own, same, keeps⟩
    rw [same]
    exact kept.append ((Keeps.mark isBracket (by decide) rfl).append keeps)
  · next isParen =>
    cases known
    refine Takes.map (level.callArguments.mono fun args more keeps => ?_)
    exact kept.append ((Keeps.mark isParen (by decide) rfl).append keeps)
  · cases known

theorem accessChain : (accessChain inner).Conserves Expr.material :=
  Takes.bind level.primary fun _ _ keeps =>
    Takes.iterate (I := fun e used => Keeps used e.material)
      (fun _ _ _ _ kept known => level.access kept known) keeps

theorem unaryOf : (unaryOf inner).Conserves Expr.material := by
  refine Takes.bind (Takes.accept (Q := fun minus used =>
    Keeps used (if minus then [.operator .minus] else [])) .nil fun t isMinus =>
      .operator isMinus rfl) fun minus used keeps => ?_
  cases minus with
  | false => exact level.accessChain.mono fun e more own => keeps.append own
  | true =>
    refine level.unary.bind fun e more own => Takes.pure ?_
    simpa using keeps.append own

end Conserving

def Signed (op? : Symbol → Option BinaryOp) : Prop :=
  ∀ sign op, op? sign = some op → op.sign = sign

theorem conserves_leftChain {op? : Symbol → Option BinaryOp} {operand : Parser Expr}
    (signed : Signed op?) (item : operand.Conserves Expr.material) :
    (leftChain op? operand).Conserves Expr.material := by
  have step : ∀ (left : Expr) (done : List Token) (t : Token) (q : Parser Expr),
      Keeps done left.material → joined op? operand left t = some q →
      q.Takes fun e more => Keeps (done ++ t :: more) e.material := by
    intro left done t q kept known
    unfold joined at known
    split at known
    · next sign isSign =>
      obtain ⟨op, knows, rfl⟩ := Option.map_eq_some_iff.mp known
      have isOp : t.kind = .symbol op.sign := by rw [isSign, signed sign op knows]
      refine Takes.map (item.mono fun right more keeps => ?_)
      exact kept.append ((Keeps.operator isOp op.sign_isOperator).append keeps)
    · cases known
  exact Takes.bind item fun _ _ keeps => Takes.iterate (I := fun (e : Expr) used => Keeps used e.material)
    step keeps

theorem signed_ladder : Signed productOp? ∧ Signed sumOp? ∧ Signed comparisonOp? ∧ Signed andOp? ∧
    Signed orOp? := by
  refine ⟨?_, ?_, ?_, ?_, ?_⟩ <;> intro sign op known <;> cases sign <;> cases known <;> rfl

namespace Conserving

variable {inner : Nested} (level : Conserving inner)

include level

theorem disjunction : (disjunction inner).Conserves Expr.material := by
  obtain ⟨product, sum, comparison, conjunction, choice⟩ := signed_ladder
  exact conserves_leftChain choice <| conserves_leftChain conjunction <|
    conserves_leftChain comparison <| conserves_leftChain sum <|
      conserves_leftChain product level.unaryOf

theorem conditionalOf : (conditionalOf inner).Conserves Expr.material := by
  refine (level.disjunction.andThen fun test => (conserves_acceptMark (by decide) rfl).andThen
    fun asked => ?_).conserves
  cases asked with
  | false => exact Adds.pure (by simp)
  | true =>
    refine level.assignment.andThen fun consequent => (conserves_mark (by decide) rfl).andThen
      fun _ => level.conditional.andThen fun alternate => Adds.pure ?_
    simp

theorem assignmentOf : (assignmentOf inner).Conserves Expr.material := by
  refine (level.conditionalOf.andThen fun target => Takes.sees_then ?_ ?_).conserves
  · split
    · refine Adds.skipped (by decide) rfl (level.assignment.andThen fun value => Adds.pure ?_)
      simp
    · exact Takes.on Adds.fail _
  · exact Adds.pure (by simp)

theorem condition (construct : Construct) : (condition inner construct).Conserves Expr.material := by
  refine ((conserves_mark (by decide) rfl).andThen fun _ => level.assignment.andThen fun test =>
    (conserves_mark (by decide) rfl).andThen fun _ => Adds.pure ?_).conserves
  simp

omit level in
theorem parameterList : parameterList.Conserves fun names => names.map .name := by
  refine ((conserves_mark (by decide) rfl).andThen fun _ =>
    (conserves_acceptMark (by decide) rfl).andThen fun closed => ?_).conserves
  cases closed with
  | true => exact Adds.pure (by simp)
  | false =>
    refine (conserves_commaSeparated conserves_name).andThen fun names =>
      (conserves_mark (by decide) rfl).andThen fun _ => Adds.pure ?_
    simp [List.map_eq_flatMap]

theorem declaration : (declaration inner).Conserves Stmt.material := by
  refine (conserves_name.andThen fun name => (conserves_acceptMark (by decide) rfl).andThen
    fun bare => ?_).conserves
  cases bare with
  | true => exact Adds.pure (by simp)
  | false =>
    refine (conserves_mark (by decide) rfl).andThen fun _ => level.assignment.andThen fun value =>
      (conserves_mark (by decide) rfl).andThen fun _ => Adds.pure ?_
    simp

theorem functionDecl (isAsync : Bool) : (functionDecl inner isAsync).Conserves Stmt.material := by
  refine (conserves_name.andThen fun name => parameterList.andThen fun names =>
    (level.blockOf _).andThen fun body => Adds.pure ?_).conserves
  simp

theorem asyncFunction : (asyncFunction inner).Conserves Stmt.material := by
  refine (conserves_word.andThen fun _ => ?_).conserves
  exact (level.functionDecl true).adds

theorem returnStmt : (returnStmt inner).Conserves Stmt.material := by
  refine ((conserves_acceptMark (by decide) rfl).andThen fun bare => ?_).conserves
  cases bare with
  | true => exact Adds.pure (by simp)
  | false =>
    refine level.assignment.andThen fun value => (conserves_mark (by decide) rfl).andThen fun _ =>
      Adds.pure ?_
    simp

theorem whileLoop : (whileLoop inner).Conserves Stmt.material := by
  refine ((level.condition _).andThen fun test => (level.blockOf _).andThen fun body =>
    Adds.pure ?_).conserves
  simp

theorem optionalBefore (sign : Symbol) :
    (optionalBefore inner sign).Conserves Expr.materialIfAny := by
  refine Takes.sees_then (Takes.on (Takes.pure .nil) _) ?_
  refine (level.assignment.andThen fun value => Adds.pure ?_).conserves
  simp

theorem loopStart : (loopStart inner).Conserves Stmt.materialOfStart := by
  refine ((conserves_acceptMark (by decide) rfl).andThen fun bare => ?_).conserves
  cases bare with
  | true => exact Adds.pure (by simp)
  | false =>
    refine level.statement.andThen fun start => Adds.pure ?_
    simp

theorem forLoop : (forLoop inner).Conserves Stmt.material := by
  refine ((conserves_mark (by decide) rfl).andThen fun _ => level.loopStart.andThen fun start =>
    (level.optionalBefore _).andThen fun test => (conserves_mark (by decide) rfl).andThen fun _ =>
    (level.optionalBefore _).andThen fun update => (conserves_mark (by decide) rfl).andThen fun _ =>
    (level.blockOf _).andThen fun body => Adds.pure ?_).conserves
  simp

omit level in
theorem importStmt : importStmt.Conserves Stmt.material := by
  refine (conserves_string.andThen fun path => (conserves_mark (by decide) rfl).andThen fun _ =>
    Adds.pure ?_).conserves
  simp

omit level in
theorem catchParam : catchParam.Conserves fun param => param.toList.map .name := by
  refine ((conserves_acceptMark (by decide) rfl).andThen fun named => ?_).conserves
  cases named with
  | false => exact Adds.pure (by simp)
  | true =>
    refine conserves_name.andThen fun name => (conserves_mark (by decide) rfl).andThen fun _ =>
      Adds.pure ?_
    simp

theorem catchPart : (catchPart inner).Conserves CatchClause.materialIfAny := by
  refine (conserves_acceptWord.andThen fun catches => ?_).conserves
  cases catches with
  | false => exact Adds.pure (by simp)
  | true =>
    refine catchParam.andThen fun param => (level.blockOf _).andThen fun body => Adds.pure ?_
    simp

theorem finallyPart : (finallyPart inner).Conserves Stmt.materialIfAny := by
  refine (conserves_acceptWord.andThen fun present => ?_).conserves
  cases present with
  | false => exact Adds.pure (by simp)
  | true =>
    refine (level.blockOf _).andThen fun body => Adds.pure ?_
    simp

theorem attempt : (attempt inner).Conserves Stmt.material := by
  refine ((level.blockOf _).andThen fun body => level.catchPart.andThen fun handler =>
    level.finallyPart.andThen fun cleanup => Adds.pure ?_).conserves
  simp

omit level in
theorem closing {s : Stmt} (bare : s.material = []) (complaint : Complaint) :
    (closing s complaint).Conserves Stmt.material := by
  refine ((conserves_mark (by decide) rfl).andThen fun _ => Adds.pure ?_).conserves
  simp [bare]

theorem expressionStmt : (expressionStmt inner).Conserves Stmt.material := by
  refine (level.assignment.andThen fun value => (conserves_mark (by decide) rfl).andThen fun _ =>
    Adds.pure ?_).conserves
  simp

end Conserving

def Arms.material (a : Arms) : List Material :=
  a.arms.reverse.flatMap (fun arm => arm.1.material ++ Stmt.materialEach arm.2) ++
    Stmt.materialIfAny a.final

-- Folding the arms into one another turns their order back.
theorem Arms.material_otherwise (a : Arms) : Stmt.materialIfAny a.otherwise = a.material := by
  obtain ⟨arms, final⟩ := a
  unfold otherwise material
  induction arms generalizing final with
  | nil => simp
  | cons arm arms ih =>
    rw [List.foldl_cons, ih]
    simp

def Member.material : Member → List Material
  | .field decl => decl.material
  | .method decl => decl.material

theorem members_perm (members : List Member) :
    (FieldDecl.materialEach (members.filterMap Member.field?) ++
      FunctionDecl.materialEach (members.filterMap Member.method?)).Perm
        (members.flatMap Member.material) := by
  induction members with
  | nil => simp
  | cons member members ih =>
    cases member with
    | field decl =>
      simpa [List.filterMap_cons, Member.field?, Member.method?, Member.material]
        using ih.append_left _
    | method decl =>
      have moved := List.perm_append_comm_assoc (FieldDecl.materialEach (members.filterMap Member.field?))
        decl.material (FunctionDecl.materialEach (members.filterMap Member.method?))
      simpa [List.filterMap_cons, Member.field?, Member.method?, Member.material]
        using moved.trans (ih.append_left _)

def Clause.material (c : Clause) : List Material :=
  Expr.materialIfAny c.test ++ Stmt.materialEach c.body

theorem clauses_same {clauses : List Clause} (tested : ∀ c ∈ clauses, c.test ≠ none) :
    CaseClause.materialEach (clauses.filterMap Clause.case?) ++
      Stmt.materialIfAny (clauses.filterMap Clause.default?).getLast? =
        clauses.flatMap Clause.material := by
  induction clauses with
  | nil => simp
  | cons c clauses ih =>
    obtain ⟨here, later⟩ := List.forall_mem_cons.mp tested
    obtain ⟨test, body⟩ := c
    cases test with
    | none => exact absurd rfl here
    | some test =>
      rw [List.flatMap_cons, ← ih later]
      simp [Clause.case?, Clause.default?, Clause.material]

theorem clauses_perm (clauses : List Clause) :
    (CaseClause.materialEach (clauses.filterMap Clause.case?) ++
      (clauses.filterMap Clause.default?).flatMap Stmt.materialEach).Perm
        (clauses.flatMap Clause.material) := by
  induction clauses with
  | nil => simp
  | cons c clauses ih =>
    obtain ⟨test, body⟩ := c
    cases test with
    | none =>
      have moved := List.perm_append_comm_assoc
        (CaseClause.materialEach (clauses.filterMap Clause.case?)) (Stmt.materialEach body)
        ((clauses.filterMap Clause.default?).flatMap Stmt.materialEach)
      simpa [List.filterMap_cons, Clause.case?, Clause.default?, Clause.material] using
        moved.trans (ih.append_left _)
    | some test =>
      simpa [Clause.case?, Clause.default?, Clause.material] using
        ih.append_left (test.material ++ Stmt.materialEach body)

theorem last_sublist (bodies : List (List Stmt)) :
    (Stmt.materialIfAny bodies.getLast?).Sublist (bodies.flatMap Stmt.materialEach) := by
  cases last : bodies.getLast? with
  | none => exact List.nil_sublist _
  | some body =>
    obtain ⟨earlier, rfl⟩ := List.getLast?_eq_some_iff.mp last
    simp

-- Of several `default` clauses the tree has the last one only.
theorem clauses_subperm (clauses : List Clause) :
    (CaseClause.materialEach (clauses.filterMap Clause.case?) ++
      Stmt.materialIfAny (clauses.filterMap Clause.default?).getLast?).Subperm
        (clauses.flatMap Clause.material) := by
  have fewer := (last_sublist (clauses.filterMap Clause.default?)).subperm
  have kept := (List.Subperm.refl
    (CaseClause.materialEach (clauses.filterMap Clause.case?))).append fewer
  exact kept.trans (clauses_perm clauses).subperm

namespace Conserving

variable {inner : Nested} (level : Conserving inner)

include level

theorem nextArm {a : Arms} {done : List Token} (kept : Keeps done a.material) {t : Token}
    {q : Parser Arms} (known : nextArm inner a t = some q) :
    q.Takes fun a' more => Keeps (done ++ t :: more) a'.material := by
  unfold Parser.nextArm at known
  split at known
  · next going =>
    cases known
    obtain ⟨isElse, open_⟩ : t.kind = .keyword .else_ ∧ a.final = none := by simpa using going
    have adds : (acceptWord .if_ >>= fun again => if again = true then
          Parser.condition inner .ifWord >>= fun test => Parser.blockOf inner .ifBlock >>= fun body =>
            Pure.pure { a with arms := (test, body) :: a.arms }
        else Parser.blockOf inner .elseBlock >>= fun body => Pure.pure { a with final := some body }).Adds
          a.material Arms.material := by
      refine conserves_acceptWord.andThen fun again => ?_
      cases again with
      | true =>
        refine (level.condition _).andThen fun test => (level.blockOf _).andThen fun body =>
          Adds.pure ?_
        simp [Arms.material, open_]
      | false =>
        refine (level.blockOf _).andThen fun body => Adds.pure ?_
        simp [Arms.material, open_]
    refine adds.mono fun a' more => ?_
    rintro ⟨own, same, keeps⟩
    rw [same]
    exact kept.append ((Keeps.word isElse).append keeps)
  · cases known

theorem branch : (branch inner).Conserves Stmt.material := by
  have start : Keeps [] (⟨[], none⟩ : Arms).material := .nil
  have arms : (iterate (Parser.nextArm inner) ⟨[], none⟩).Conserves Arms.material :=
    Takes.iterate (I := fun (a : Arms) used => Keeps used a.material)
      (fun _ _ _ _ kept known => level.nextArm kept known) start
  refine ((level.condition _).andThen fun test => (level.blockOf _).andThen fun body =>
    arms.andThen fun rest => Adds.pure ?_).conserves
  simp [Arms.material_otherwise]

theorem fieldValue : (fieldValue inner).Conserves Expr.materialIfAny := by
  refine ((conserves_acceptMark (by decide) rfl).andThen fun given => ?_).conserves
  cases given with
  | false => exact Adds.pure (by simp)
  | true => exact level.assignment.andThen fun value => Adds.pure (by simp)

theorem memberNamed (name : String) :
    (memberNamed inner name).Adds [.name name] Member.material := by
  refine Takes.sees_then (Takes.on ?_ _) ?_
  · refine parameterList.andThen fun names => (level.blockOf _).andThen fun body => Adds.pure ?_
    simp [Member.material]
  · refine level.fieldValue.andThen fun value => (conserves_mark (by decide) rfl).andThen fun _ =>
      Adds.pure ?_
    simp [Member.material]

theorem classMember : (classMember inner).Conserves Member.material :=
  (conserves_acceptWord.andThen fun _ => conserves_acceptWord.andThen fun _ =>
    conserves_name.andThen fun name => level.memberNamed name).conserves

-- Fields come before methods in the tree, wherever they stand in the source.
theorem classDecl : (classDecl inner).Takes fun s used =>
    ∃ kept, Keeps used kept ∧ s.material.Perm kept := by
  refine Takes.bind conserves_name fun name used₁ kept₁ =>
    Takes.bind (conserves_mark (by decide) rfl) fun _ used₂ kept₂ =>
    Takes.bind (conserves_many level.classMember) fun members used₃ kept₃ =>
    Takes.bind (conserves_mark (by decide) rfl) fun _ used₄ kept₄ => Takes.pure ?_
  refine ⟨.name name :: members.flatMap Member.material, ?_, (members_perm members).cons _⟩
  simpa using kept₁.append (kept₂.append (kept₃.append kept₄))

theorem clauseBody : (clauseBody inner).Conserves Stmt.materialEach := by
  refine Takes.sees_then (Takes.on (level.blockOf _) _) ?_
  exact (conserves_many level.statement).mono fun body used keeps => by
    rwa [Stmt.materialEach_eq]

theorem caseClause : (caseClause inner).Takes fun c used =>
    Keeps used c.material ∧ c.test ≠ none := by
  refine Takes.bind level.assignment fun test used₁ kept₁ =>
    Takes.bind (conserves_mark (by decide) rfl) fun _ used₂ kept₂ =>
    Takes.bind level.clauseBody fun body used₃ kept₃ => Takes.pure ⟨?_, by simp⟩
  simpa [Clause.material] using kept₁.append (kept₂.append kept₃)

theorem defaultClause : (defaultClause inner).Conserves Clause.material := by
  refine ((conserves_mark (by decide) rfl).andThen fun _ => level.clauseBody.andThen fun body =>
    Adds.pure ?_).conserves
  simp [Clause.material]

theorem clause : (clause inner).Takes fun c used => Keeps used c.material ∧
    (c.test = none → ∃ t ∈ used, t.kind = .keyword .default_) := by
  refine Takes.onToken ?_ Takes.fail
  intro t q found
  split at found
  · next isCase =>
    cases found
    refine level.caseClause.mono fun c used kept => ⟨(Keeps.word isCase).append kept.1, ?_⟩
    exact fun none => absurd none kept.2
  · next isDefault =>
    cases found
    refine level.defaultClause.mono fun c used kept => ⟨(Keeps.word isDefault).append kept, ?_⟩
    exact fun _ => ⟨t, List.mem_cons_self, isDefault⟩
  · cases found

theorem clauses {stops : Token → Bool} :
    (many stops (Parser.clause inner) (strict_clause inner)).Takes fun cs used =>
      Keeps used (cs.flatMap Clause.material) ∧
        ((∃ c ∈ cs, c.test = none) → ∃ t ∈ used, t.kind = .keyword .default_) := by
  refine Takes.many level.clause ⟨.nil, by simp⟩ ?_
  intro c used cs more first later
  refine ⟨first.1.append later.1, ?_⟩
  rintro ⟨d, present, default⟩
  rcases List.mem_cons.mp present with rfl | among
  · obtain ⟨t, here, kind⟩ := first.2 default
    exact ⟨t, List.mem_append_left _ here, kind⟩
  · obtain ⟨t, here, kind⟩ := later.2 ⟨d, among, default⟩
    exact ⟨t, List.mem_append_right _ here, kind⟩

theorem switchStmt : (switchStmt inner).Conserves Stmt.material := by
  refine Takes.bind (level.condition _) fun subject used₁ kept₁ =>
    Takes.bind (conserves_mark (by decide) rfl) fun _ used₂ kept₂ =>
    Takes.bind level.clauses fun cs used₃ kept₃ =>
    Takes.bind (conserves_mark (by decide) rfl) fun _ used₄ kept₄ => Takes.pure ?_
  obtain ⟨kept₃, isDefault⟩ := kept₃
  have whole : Keeps used₃ (CaseClause.materialEach (cs.filterMap Clause.case?) ++
      Stmt.materialIfAny (cs.filterMap Clause.default?).getLast?) := by
    by_cases tested : ∀ c ∈ cs, c.test ≠ none
    · rwa [clauses_same tested]
    · refine kept₃.of_subperm (clauses_subperm cs) (isDefault ?_)
      simpa using tested
  simpa using kept₁.append (kept₂.append (whole.append kept₄))

theorem statementOf : (statementOf inner).Conserves Stmt.material := by
  have worded : ∀ {keyword : Keyword} {t : Token} {q : Parser Stmt}, t.kind = .keyword keyword →
      q.Conserves Stmt.material → q.Takes fun s used => Keeps (t :: used) s.material :=
    fun isWord conserves => conserves.mono fun s used keeps => (Keeps.word isWord).append keeps
  refine Takes.onToken ?_ level.expressionStmt
  intro t q found
  split at found
  · next isWord => cases found; exact worded isWord level.declaration
  · next isWord => cases found; exact worded isWord (level.functionDecl false)
  · next isWord => cases found; exact worded isWord level.asyncFunction
  · next isWord => cases found; exact worded isWord level.returnStmt
  · next isWord => cases found; exact worded isWord level.branch
  · next isWord => cases found; exact worded isWord level.whileLoop
  · next isWord => cases found; exact worded isWord level.forLoop
  · next isClass =>
    cases found
    refine level.classDecl.mono fun s used => ?_
    rintro ⟨kept, keeps, permuted⟩
    exact ((Keeps.word isClass).append keeps).of_perm permuted ⟨t, List.mem_cons_self, isClass⟩
  · next isWord => cases found; exact worded isWord level.switchStmt
  · next isWord => cases found; exact worded isWord (closing (by simp) _)
  · next isWord => cases found; exact worded isWord (closing (by simp) _)
  · next isWord => cases found; exact worded isWord importStmt
  · next isWord => cases found; exact worded isWord level.attempt
  · cases found

end Conserving

theorem conserving_nested (n : Nat) : Conserving (nested n) := by
  induction n with
  | zero => exact ⟨Takes.fail, Takes.fail, Takes.fail, Takes.fail⟩
  | succ n level =>
    exact ⟨level.statementOf, level.assignmentOf, level.conditionalOf, level.unaryOf⟩

theorem program_conserves : program.Conserves Stmt.materialEach :=
  (conserves_many (conserving_nested maxNesting).statement).mono fun body used keeps => by
    rwa [Stmt.materialEach_eq]

-- The lexer gives a sign its own spelling, and that is no keyword.
theorem spelled_lexemes {ts : List Token} {p : Position}
    (lexemes : ∀ t ∈ ts, ∃ raw, Token.IsLexeme t.kind t.text.toList raw) : Spelled (.eof p) ts where
  stop_eof := rfl
  stop_text := show Keyword.ofText? "EOF" = none by decide +kernel
  signs := by
    intro t present sign isSign
    obtain ⟨raw, lexeme⟩ := lexemes t present
    have spelling : t.text = String.ofList sign.spelling := by
      rw [← lexeme.symbol_text isSign, String.ofList_toList]
    rw [spelling]
    cases sign <;> decide +kernel

end Parser

namespace Program

theorem keeps_of_ofText {text : String} {program : Program} (read : ofText text = .ok program) :
    ∃ ts, Token.ofText text = .ok (ts ++ [.eof (.behind text.toList)]) ∧
      Keeps ts (Stmt.materialEach program) := by
  obtain ⟨ts, lexed, parsed⟩ := ofText_eq_ok_iff.mp read
  have lexemes := Token.lexemes_of_ofText lexed
  obtain ⟨used, split, keeps⟩ := Parser.program_conserves (Parser.spelled_lexemes lexemes) parsed
  obtain rfl : ts = used := by simpa using split
  exact ⟨ts, lexed, keeps⟩

/-- The tree of an accepted text has the names, numbers, strings and operators of its tokens. Only a
`default` may drop some of them, and only a `default` or a `class` may move them. -/
theorem ofText_material {text : String} {program : Program} (read : ofText text = .ok program) :
    ∃ tokens, Token.ofText text = .ok tokens ∧
      (Stmt.materialEach program).Subperm (Token.materialOf tokens) ∧
      ((∀ t ∈ tokens, t.kind ≠ .keyword .default_) →
        (Stmt.materialEach program).Perm (Token.materialOf tokens)) ∧
      ((∀ t ∈ tokens, t.kind ≠ .keyword .default_) → (∀ t ∈ tokens, t.kind ≠ .keyword .class_) →
        Stmt.materialEach program = Token.materialOf tokens) := by
  obtain ⟨ts, lexed, keeps⟩ := keeps_of_ofText read
  have whole : Token.materialOf (ts ++ [.eof (.behind text.toList)]) = Token.materialOf ts := by
    rw [keeps.joins]
    simp [Token.materialOf, Token.materialFrom, Token.material, Token.eof]
  refine ⟨_, lexed, ?_, fun noDefault => ?_, fun noDefault noClass => ?_⟩
  all_goals rw [whole]
  · exact keeps.subperm
  · exact keeps.perm fun t present => noDefault t (List.mem_append_left _ present)
  · exact keeps.same (fun t present => noDefault t (List.mem_append_left _ present))
      fun t present => noClass t (List.mem_append_left _ present)

-- `if (a) { f = (n) => n % k; } else if (b.else) { -g("s"); } else { x; }`
def armsText : String :=
  "if (a) \x7b f = (n) => n % k; \x7d else if (b.else) \x7b -g(\"s\"); \x7d else \x7b x; \x7d"

theorem ofText_material_arms : ∃ program, ofText armsText = .ok program ∧
    Stmt.materialEach program = [.name "a", .name "f", .name "n", .name "n", .operator .modulo,
      .name "k", .name "b", .name "else", .operator .minus, .name "g", .quoted "s", .name "x"] := by
  have accepted : (ofText armsText).isOk = true := by decide +kernel
  have lexed : (Token.ofText armsText).map Token.materialOf = .ok [.name "a", .name "f", .name "n",
      .name "n", .operator .modulo, .name "k", .name "b", .name "else", .operator .minus, .name "g",
      .quoted "s", .name "x"] := by decide +kernel
  have unmoved : (Token.ofText armsText).toOption.all (fun tokens => tokens.all fun t =>
      t.kind ≠ .keyword .default_ && t.kind ≠ .keyword .class_) = true := by decide +kernel
  cases read : ofText armsText with
  | error e => simp [read, Except.isOk, Except.toBool] at accepted
  | ok program =>
    obtain ⟨tokens, found, -, -, same⟩ := ofText_material read
    have unmoved : ∀ t ∈ tokens, t.kind ≠ .keyword .default_ ∧ t.kind ≠ .keyword .class_ := by
      simpa [found, Except.toOption] using unmoved
    refine ⟨program, rfl, ?_⟩
    rw [same (fun t present => (unmoved t present).1) fun t present => (unmoved t present).2]
    simpa [found, Except.map] using lexed

end Program

end ScriptCpp
