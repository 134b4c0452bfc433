import Mathlib
import ScriptCpp.Proofs.Parsing.Phrases

set_option autoImplicit false

namespace ScriptCpp

def Stmt.isBranch : Stmt → Bool
  | .branch .. => true
  | _ => false

namespace Parser

variable {α β σ : Type}

def Gives (p : Parser α) (used : List Token) (a : α) : Prop :=
  ∃ stop rest, Spelled stop (used ++ rest) ∧ p.run stop (used ++ rest) = .ok (a, rest)

theorem takes_gives (p : Parser α) : p.Takes fun a used => p.Gives used a := by
  intro stop ts a rest spelled read
  obtain ⟨used, rfl⟩ := p.suffix read
  exact ⟨used, rfl, stop, rest, spelled, read⟩

theorem Takes.and {p : Parser α} {Q R : α → List Token → Prop} (first : p.Takes Q) (second : p.Takes R) :
    p.Takes fun a used => Q a used ∧ R a used := by
  intro stop ts a rest spelled read
  obtain ⟨used, rfl, here⟩ := first spelled read
  obtain ⟨same, split, there⟩ := second spelled read
  obtain rfl := List.append_cancel_right split
  exact ⟨used, rfl, here, there⟩

theorem Takes.of_gives {p : Parser α} {Q : α → List Token → Prop} (h : p.Takes Q) {a : α}
    {used : List Token} (gives : p.Gives used a) : Q a used := by
  obtain ⟨stop, rest, spelled, read⟩ := gives
  obtain ⟨same, split, holds⟩ := h spelled read
  rwa [List.append_cancel_right split]

/-- Every statement in the phrase was read from a part of the tokens. -/
def Sourced (used : List Token) (p : Phrase) : Prop :=
  ∀ s, p.Holds (.stmt s) → s.isBranch = false →
    ∃ n segment, segment <:+: used ∧ (nested n).statement.Gives segment s

namespace Sourced

variable {used more : List Token} {p : Phrase}

theorem mono (h : Sourced used p) (within : used <:+: more) : Sourced more p := by
  intro s occurs single
  obtain ⟨n, segment, part, gives⟩ := h s occurs single
  exact ⟨n, segment, part.trans within, gives⟩

theorem before (h : Sourced used p) : Sourced (used ++ more) p :=
  h.mono (List.prefix_append used more).isInfix

theorem behind (h : Sourced more p) : Sourced (used ++ more) p :=
  h.mono (List.suffix_append used more).isInfix

theorem expr {e : Expr} (each : ∀ c ∈ e.children, Sourced used c) : Sourced used (.expr e) := by
  intro s occurs single
  rcases Relation.ReflTransGen.cases_head occurs with same | ⟨child, step, later⟩
  · cases same
  · exact each child step s later single

theorem stmt {s : Stmt}
    (own : s.isBranch = false →
      ∃ n segment, segment <:+: used ∧ (nested n).statement.Gives segment s)
    (each : ∀ c ∈ s.children, Sourced used c) : Sourced used (.stmt s) := by
  intro t occurs single
  rcases Relation.ReflTransGen.cases_head occurs with same | ⟨child, step, later⟩
  · cases same
    exact own single
  · exact each child step t later single

end Sourced

/-- What the parser adds to phrases that are sourced already, is sourced too. -/
def Traces (p : Parser α) (base : List Phrase) (view : α → List Phrase) : Prop :=
  p.Takes fun a more => ∀ used, (∀ q ∈ base, Sourced used q) → ∀ q ∈ view a, Sourced (used ++ more) q

namespace Traces

variable {p : Parser α} {f : α → Parser β} {base : List Phrase} {m : α → List Phrase}
  {n : β → List Phrase}

theorem sourced (h : p.Traces [] m) : p.Takes fun a used => ∀ q ∈ m a, Sourced used q := by
  apply h.mono
  intro a used traced
  exact traced [] (by simp)

theorem of_sourced (h : p.Takes fun a used => ∀ q ∈ m a, Sourced used q) : p.Traces base m := by
  apply h.mono
  intro a more each used _ q present
  exact (each q present).behind

theorem silent (p : Parser α) : p.Traces base fun _ => [] := by
  apply (takes_gives p).mono
  simp

theorem andThen (first : p.Traces [] m) (second : ∀ a, (f a).Traces (base ++ m a) n) :
    (p >>= f).Traces base n := by
  refine first.sourced.bind fun a taken own => (second a).mono fun b more traced => ?_
  intro used each q present
  rw [← List.append_assoc]
  apply traced _ _ q present
  intro r among
  rcases List.mem_append.mp among with earlier | here
  · exact (each r earlier).before
  · exact (own r here).behind

theorem pure {a : α} (each : ∀ q ∈ m a, q ∈ base) : (Pure.pure a : Parser α).Traces base m := by
  apply Takes.pure
  intro used sourced q present
  rw [List.append_nil]
  exact sourced q (each q present)

theorem fail {complaint : Complaint} : (fail complaint : Parser α).Traces base m := Takes.fail

theorem node {e : Expr} (each : ∀ c ∈ e.children, c ∈ base) :
    (Pure.pure e : Parser Expr).Traces base fun e => [.expr e] := by
  apply Takes.pure
  intro used sourced q present
  rw [List.append_nil, List.mem_singleton.mp present]
  exact Sourced.expr fun c among => sourced c (each c among)

theorem behind {t : Token} (h : p.Traces [] m) :
    p.Takes fun a used => ∀ q ∈ m a, Sourced (t :: used) q := by
  apply h.sourced.mono
  intro a used each q present
  exact (each q present).mono (List.suffix_cons t used).isInfix

theorem skipped {sign : Symbol} {q : Parser β} (next : q.Traces base n) :
    (skip >>= fun _ => q).TakesOn (.symbol sign) fun b more =>
      ∀ used, (∀ q ∈ base, Sourced used q) → ∀ q ∈ n b, Sourced (used ++ more) q := by
  apply Takes.skip_then (by simp)
  intro t _
  apply next.mono
  intro b more traced used each q present
  have behind := traced (used ++ [t]) (fun r among => (each r among).before) q present
  simpa using behind

theorem many {stops : Token → Bool} {strict : p.Strict} (item : p.Traces [] m) :
    (many stops p @strict).Traces [] fun as => as.flatMap m := by
  refine of_sourced (Takes.many item.sourced (by simp) ?_)
  intro a used as more first later q present
  rcases List.mem_append.mp (List.flatMap_cons ▸ present) with here | there
  · exact (first q here).before
  · exact (later q there).behind

theorem commaSeparated (item : p.Traces [] m) :
    (commaSeparated p).Traces [] fun as => as.flatMap m := by
  have step : ∀ (items : List α) (done : List Token) (t : Token) (q : Parser (List α)),
      (∀ r ∈ items.flatMap m, Sourced done r) →
      (if t.kind = .symbol .comma then some ((· :: items) <$> p) else none) = some q →
      q.Takes fun items' more => ∀ r ∈ items'.flatMap m, Sourced (done ++ t :: more) r := by
    intro items done t q kept found
    split at found
    · cases found
      refine Takes.map (item.sourced.mono fun a more own => ?_)
      intro r present
      rcases List.mem_append.mp (List.flatMap_cons ▸ present) with here | there
      · exact (own r here).mono ⟨done ++ [t], [], by simp⟩
      · exact (kept r there).before
    · cases found
  refine of_sourced (Takes.bind item.sourced fun first used own => ?_)
  have start : ∀ r ∈ [first].flatMap m, Sourced used r := by simpa using own
  refine Takes.bind (Takes.iterate step start) fun items more kept => Takes.pure ?_
  simpa using kept

end Traces

structure Tracing (inner : Nested) : Prop where
  statement : inner.statement.Traces [] fun s => [.stmt s]
  assignment : inner.assignment.Traces [] fun e => [.expr e]
  conditional : inner.conditional.Traces [] fun e => [.expr e]
  unary : inner.unary.Traces [] fun e => [.expr e]

namespace Tracing

variable {inner : Nested} (level : Tracing inner)

include level

theorem blockOf (place : BlockPlace) : (blockOf inner place).Traces [] fun body => body.map .stmt := by
  refine (Traces.silent _).andThen fun _ => (Traces.many level.statement).andThen fun body =>
    (Traces.silent _).andThen fun _ => Traces.pure ?_
  simp [List.map_eq_flatMap]

theorem expressionList (close : Symbol) :
    (expressionList inner close).Traces [] fun es => es.map .expr := by
  refine Takes.sees_then (Takes.on (Traces.pure (by simp)) _) ?_
  apply (Traces.commaSeparated level.assignment).mono
  simp [List.map_eq_flatMap]

theorem callArguments : (callArguments inner).Traces [] fun es => es.map .expr := by
  refine (level.expressionList _).andThen fun args => (Traces.silent _).andThen fun _ =>
    Traces.pure ?_
  simp

theorem parenthesized : (parenthesized inner).Traces [] fun e => [.expr e] := by
  refine (level.expressionList _).andThen fun items => (Traces.silent _).andThen fun _ =>
    Takes.sees_then ?_ ?_
  · split
    · exact Takes.on Traces.fail _
    · refine Traces.skipped (Takes.sees_then (Takes.on ?_ _) ?_)
      · exact (level.blockOf _).andThen fun body => Traces.node (by simp [Expr.children])
      · exact level.assignment.andThen fun value => Traces.node (by simp [Expr.children])
  · split
    · exact Traces.pure (by simp)
    · exact Traces.fail
    · exact Traces.fail

theorem construction : (construction inner).Traces [] fun e => [.expr e] := by
  refine (Traces.silent _).andThen fun className => (Traces.silent _).andThen fun called => ?_
  cases called with
  | false => exact Traces.node (by simp [Expr.children])
  | true => exact level.callArguments.andThen fun args => Traces.node (by simp [Expr.children])

theorem arrayElements : (arrayElements inner).Traces [] fun e => [.expr e] := by
  refine (level.expressionList _).andThen fun elements => (Traces.silent _).andThen fun _ =>
    Traces.node ?_
  simp [Expr.children]

theorem primary : (primary inner).Traces [] fun e => [.expr e] := by
  refine Traces.of_sourced (Takes.onToken ?_ ?_)
  · intro t q found
    split at found
    · cases found
      exact Traces.behind (Traces.node (by simp [Expr.children]))
    · obtain ⟨value, -, rfl⟩ := Option.map_eq_some_iff.mp found
      exact Traces.behind (Traces.node (by simp [Expr.children]))
    · cases found
      exact Traces.behind (Traces.node (by simp [Expr.children]))
    · cases found
      exact Traces.behind (Traces.node (by simp [Expr.children]))
    · cases found
      exact level.construction.behind
    · cases found
      exact (level.assignment.andThen fun promise => Traces.node (by simp [Expr.children])).behind
    · cases found
      exact level.arrayElements.behind
    · cases found
      exact level.parenthesized.behind
    · cases found
  · intro stop ts e rest ends read
    cases read

theorem access {object : Expr} {t : Token} {q : Parser Expr} (known : access inner object t = some q) :
    q.Traces [.expr object] fun e => [.expr e] := by
  unfold Parser.access at known
  split at known
  · cases known
    exact (Traces.silent _).andThen fun name => Traces.node (by simp [Expr.children])
  · cases known
    refine level.assignment.andThen fun key => (Traces.silent _).andThen fun _ => Traces.node ?_
    simp [Expr.children]
  · cases known
    exact level.callArguments.andThen fun args => Traces.node (by simp [Expr.children])
  · cases known

end Tracing

namespace Traces

theorem chain {first : Parser Expr} {step : Expr → Token → Option (Parser Expr)}
    (start : first.Traces [] fun e => [.expr e])
    (kept : ∀ e t q, step e t = some q → q.Traces [.expr e] fun e => [.expr e]) :
    (first >>= iterate step).Traces [] fun e => [.expr e] := by
  refine of_sourced (start.sourced.bind fun e used own => ?_)
  refine Takes.iterate (I := fun (e : Expr) done => ∀ q ∈ [Phrase.expr e], Sourced done q) ?_ own
  intro e done t q here known
  apply (kept e t q known).mono
  intro e' more traced r present
  have later := traced (done ++ [t]) (fun r among => (here r among).before) r present
  simpa using later

theorem leftChain {op? : Symbol → Option BinaryOp} {operand : Parser Expr}
    (item : operand.Traces [] fun e => [.expr e]) :
    (leftChain op? operand).Traces [] fun e => [.expr e] := by
  apply chain item
  intro left t q known
  unfold joined at known
  split at known
  · obtain ⟨op, -, rfl⟩ := Option.map_eq_some_iff.mp known
    exact item.andThen fun right => node (by simp [Expr.children])
  · cases known

end Traces

namespace Tracing

variable {inner : Nested} (level : Tracing inner)

include level

theorem accessChain : (accessChain inner).Traces [] fun e => [.expr e] :=
  Traces.chain level.primary fun _ _ _ known => level.access known

theorem unaryOf : (unaryOf inner).Traces [] fun e => [.expr e] := by
  refine (Traces.silent _).andThen fun minus => ?_
  cases minus with
  | false => exact level.accessChain
  | true => exact level.unary.andThen fun operand => Traces.node (by simp [Expr.children])

theorem disjunction : (disjunction inner).Traces [] fun e => [.expr e] :=
  .leftChain <| .leftChain <| .leftChain <| .leftChain <| .leftChain level.unaryOf

theorem conditionalOf : (conditionalOf inner).Traces [] fun e => [.expr e] := by
  refine level.disjunction.andThen fun test => (Traces.silent _).andThen fun asked => ?_
  cases asked with
  | false => exact Traces.pure (by simp)
  | true =>
    refine level.assignment.andThen fun consequent => (Traces.silent _).andThen fun _ =>
      level.conditional.andThen fun alternate => Traces.node ?_
    simp [Expr.children]

theorem assignmentOf : (assignmentOf inner).Traces [] fun e => [.expr e] := by
  refine level.conditionalOf.andThen fun target => Takes.sees_then ?_ ?_
  · split
    · refine Traces.skipped (level.assignment.andThen fun value => Traces.node ?_)
      simp [Expr.children]
    · exact Takes.on Traces.fail _
  · exact Traces.pure (by simp)

theorem condition (construct : Construct) : (condition inner construct).Traces [] fun e => [.expr e] := by
  refine (Traces.silent _).andThen fun _ => level.assignment.andThen fun test =>
    (Traces.silent _).andThen fun _ => Traces.pure ?_
  simp

theorem declaration : (declaration inner).Traces [] Stmt.children := by
  refine (Traces.silent _).andThen fun name => (Traces.silent _).andThen fun bare => ?_
  cases bare with
  | true => exact Traces.pure (by simp [Stmt.children])
  | false =>
    refine (Traces.silent _).andThen fun _ => level.assignment.andThen fun value =>
      (Traces.silent _).andThen fun _ => Traces.pure ?_
    simp [Stmt.children]

theorem functionDecl (isAsync : Bool) : (functionDecl inner isAsync).Traces [] Stmt.children := by
  refine (Traces.silent _).andThen fun name => (Traces.silent _).andThen fun params =>
    (level.blockOf _).andThen fun body => Traces.pure ?_
  simp [Stmt.children, FunctionDecl.children]

theorem asyncFunction : (asyncFunction inner).Traces [] Stmt.children :=
  (Traces.silent _).andThen fun _ => level.functionDecl true

theorem returnStmt : (returnStmt inner).Traces [] Stmt.children := by
  refine (Traces.silent _).andThen fun bare => ?_
  cases bare with
  | true => exact Traces.pure (by simp [Stmt.children])
  | false =>
    refine level.assignment.andThen fun value => (Traces.silent _).andThen fun _ => Traces.pure ?_
    simp [Stmt.children]

theorem whileLoop : (whileLoop inner).Traces [] Stmt.children := by
  refine (level.condition _).andThen fun test => (level.blockOf _).andThen fun body => Traces.pure ?_
  simp [Stmt.children]

theorem optionalBefore (sign : Symbol) :
    (optionalBefore inner sign).Traces [] fun e => e.toList.map .expr := by
  refine Takes.sees_then (Takes.on (Traces.pure (by simp)) _) ?_
  exact level.assignment.andThen fun value => Traces.pure (by simp)

theorem loopStart : (loopStart inner).Traces [] fun s => s.toList.map .stmt := by
  refine (Traces.silent _).andThen fun bare => ?_
  cases bare with
  | true => exact Traces.pure (by simp)
  | false => exact level.statement.andThen fun start => Traces.pure (by simp)

theorem forLoop : (forLoop inner).Traces [] Stmt.children := by
  refine (Traces.silent _).andThen fun _ => level.loopStart.andThen fun start =>
    (level.optionalBefore _).andThen fun test => (Traces.silent _).andThen fun _ =>
    (level.optionalBefore _).andThen fun update => (Traces.silent _).andThen fun _ =>
    (level.blockOf _).andThen fun body => Traces.pure ?_
  simp [Stmt.children]

theorem catchPart : (catchPart inner).Traces [] fun handler =>
    ((handler.map CatchClause.body).getD []).map .stmt := by
  refine (Traces.silent _).andThen fun catches => ?_
  cases catches with
  | false => exact Traces.pure (by simp)
  | true =>
    refine (Traces.silent _).andThen fun param => (level.blockOf _).andThen fun body =>
      Traces.pure ?_
    simp

theorem finallyPart : (finallyPart inner).Traces [] fun body => (body.getD []).map .stmt := by
  refine (Traces.silent _).andThen fun present => ?_
  cases present with
  | false => exact Traces.pure (by simp)
  | true => exact (level.blockOf _).andThen fun body => Traces.pure (by simp)

theorem attempt : (attempt inner).Traces [] Stmt.children := by
  refine (level.blockOf _).andThen fun body => level.catchPart.andThen fun handler =>
    level.finallyPart.andThen fun cleanup => Traces.pure ?_
  simp only [Stmt.children, List.map_append, List.nil_append]
  exact fun q present => present

omit level in
theorem closing {s : Stmt} (bare : s.children = []) (complaint : Complaint) :
    (closing s complaint).Traces [] Stmt.children :=
  (Traces.silent _).andThen fun _ => Traces.pure (by simp [bare])

omit level in
theorem importStmt : importStmt.Traces [] Stmt.children := by
  refine (Traces.silent _).andThen fun path => (Traces.silent _).andThen fun _ => Traces.pure ?_
  simp [Stmt.children]

theorem expressionStmt : (expressionStmt inner).Traces [] Stmt.children := by
  refine level.assignment.andThen fun value => (Traces.silent _).andThen fun _ => Traces.pure ?_
  simp [Stmt.children]

end Tracing

def Arms.phrases (a : Arms) : List Phrase :=
  a.arms.flatMap (fun arm => .expr arm.1 :: arm.2.map .stmt) ++ (a.final.getD []).map .stmt

-- The branches that the arms are folded into were not read as such.
theorem Arms.otherwise_sourced {a : Arms} {used : List Token} (each : ∀ q ∈ a.phrases, Sourced used q) :
    ∀ q ∈ (a.otherwise.getD []).map Phrase.stmt, Sourced used q := by
  obtain ⟨arms, final⟩ := a
  unfold otherwise
  induction arms generalizing final with
  | nil => simpa [Arms.phrases] using each
  | cons arm arms ih =>
    obtain ⟨test, body⟩ := arm
    apply ih
    have parts : ∀ c ∈ (Stmt.branch test body final).children, Sourced used c := by
      intro c present
      apply each
      simp only [Stmt.children, Arms.phrases, List.map_append, List.mem_cons, List.mem_append,
        List.flatMap_cons] at present ⊢
      tauto
    have folded : Sourced used (.stmt (.branch test body final)) := Sourced.stmt (by simp [Stmt.isBranch]) parts
    intro q present
    rcases List.mem_append.mp present with earlier | last
    · apply each
      simp only [Arms.phrases, List.flatMap_cons, List.mem_append]
      exact .inl (.inr earlier)
    · rw [List.mem_singleton.mp last]
      exact folded

def Member.children : Member → List Phrase
  | .field decl => decl.children
  | .method decl => decl.children

theorem members_children {members : List Member} {q : Phrase}
    (present : q ∈ (members.filterMap Member.field?).flatMap FieldDecl.children ++
      (members.filterMap Member.method?).flatMap FunctionDecl.children) :
    q ∈ members.flatMap Member.children := by
  simp only [List.mem_append, List.mem_flatMap, List.mem_filterMap] at present
  rw [List.mem_flatMap]
  rcases present with ⟨decl, ⟨member, among, own⟩, inside⟩ | ⟨decl, ⟨member, among, own⟩, inside⟩
  · cases member with
    | field => cases own; exact ⟨_, among, inside⟩
    | method => cases own
  · cases member with
    | field => cases own
    | method => cases own; exact ⟨_, among, inside⟩

def Clause.children (c : Clause) : List Phrase := c.test.toList.map .expr ++ c.body.map .stmt

theorem clauses_children {clauses : List Clause} {q : Phrase}
    (present : q ∈ (clauses.filterMap Clause.case?).flatMap CaseClause.children ++
      (((clauses.filterMap Clause.default?).getLast?).getD []).map .stmt) :
    q ∈ clauses.flatMap Clause.children := by
  rw [List.mem_flatMap]
  rcases List.mem_append.mp present with case | default
  · obtain ⟨clause, among, inside⟩ := List.mem_flatMap.mp case
    obtain ⟨c, listed, own⟩ := List.mem_filterMap.mp among
    obtain ⟨test, tested, rfl⟩ := Option.map_eq_some_iff.mp own
    refine ⟨c, listed, ?_⟩
    simpa [Clause.children, CaseClause.children, tested] using inside
  · cases last : (clauses.filterMap Clause.default?).getLast? with
    | none => simp [last] at default
    | some body =>
      obtain ⟨c, listed, own⟩ := List.mem_filterMap.mp (List.mem_of_getLast? last)
      refine ⟨c, listed, List.mem_append_right _ ?_⟩
      unfold Clause.default? at own
      split at own
      · cases own
        simpa [last] using default
      · cases own

namespace Tracing

variable {inner : Nested} (level : Tracing inner)

include level

theorem nextArm {a : Arms} {t : Token} {q : Parser Arms} (known : nextArm inner a t = some q) :
    q.Traces a.phrases Arms.phrases := by
  unfold Parser.nextArm at known
  split at known
  · next going =>
    cases known
    obtain ⟨-, open_⟩ : t.kind = .keyword .else_ ∧ a.final = none := by simpa using going
    refine (Traces.silent _).andThen fun again => ?_
    cases again with
    | true =>
      refine (level.condition _).andThen fun test => (level.blockOf _).andThen fun body =>
        Traces.pure ?_
      intro q present
      simp only [Arms.phrases, List.flatMap_cons, List.mem_append, List.mem_cons] at present ⊢
      tauto
    | false =>
      refine (level.blockOf _).andThen fun body => Traces.pure ?_
      simp [Arms.phrases, open_]
  · cases known

theorem arms : (iterate (Parser.nextArm inner) ⟨[], none⟩).Traces [] Arms.phrases := by
  apply Traces.of_sourced
  have start : ∀ q ∈ (⟨[], none⟩ : Arms).phrases, Sourced [] q := by simp [Arms.phrases]
  refine Takes.iterate (I := fun (a : Arms) done => ∀ q ∈ a.phrases, Sourced done q) ?_ start
  intro a done t q here known
  apply (level.nextArm known).mono
  intro a' more traced r present
  have later := traced (done ++ [t]) (fun r among => (here r among).before) r present
  simpa using later

theorem branch : (branch inner).Traces [] Stmt.children := by
  refine (level.condition _).andThen fun test => (level.blockOf _).andThen fun body =>
    level.arms.andThen fun arms => Takes.pure ?_
  intro used sourced q present
  rw [List.append_nil]
  have chained : ∀ q ∈ (arms.otherwise.getD []).map Phrase.stmt, Sourced used q :=
    Arms.otherwise_sourced fun q among => sourced q (List.mem_append_right _ among)
  simp only [Stmt.children, List.map_append, List.mem_cons, List.mem_append] at present
  rcases present with rfl | own | chain
  · exact sourced _ (by simp)
  · exact sourced q (by simp [List.mem_map.mp own])
  · exact chained q chain

theorem fieldValue : (fieldValue inner).Traces [] fun e => e.toList.map .expr := by
  refine (Traces.silent _).andThen fun given => ?_
  cases given with
  | false => exact Traces.pure (by simp)
  | true => exact level.assignment.andThen fun value => Traces.pure (by simp)

theorem memberNamed (name : String) : (memberNamed inner name).Traces [] Member.children := by
  refine Takes.sees_then (Takes.on ?_ _) ?_
  · refine (Traces.silent _).andThen fun params => (level.blockOf _).andThen fun body =>
      Traces.pure ?_
    simp [Member.children, FunctionDecl.children]
  · refine level.fieldValue.andThen fun value => (Traces.silent _).andThen fun _ => Traces.pure ?_
    simp [Member.children, FieldDecl.children]

theorem classMember : (classMember inner).Traces [] Member.children :=
  (Traces.silent _).andThen fun _ => (Traces.silent _).andThen fun _ =>
    (Traces.silent _).andThen fun name => level.memberNamed name

theorem classDecl : (classDecl inner).Traces [] Stmt.children := by
  refine (Traces.silent _).andThen fun name => (Traces.silent _).andThen fun _ =>
    (Traces.many level.classMember).andThen fun members => (Traces.silent _).andThen fun _ =>
    Traces.pure ?_
  intro q present
  have among := members_children present
  simpa using among

theorem clauseBody : (clauseBody inner).Traces [] fun body => body.map .stmt := by
  refine Takes.sees_then (Takes.on (level.blockOf _) _) ?_
  apply (Traces.many level.statement).mono
  simp [List.map_eq_flatMap]

theorem clause : (clause inner).Traces [] Clause.children := by
  refine Traces.of_sourced (Takes.onToken ?_ Takes.fail)
  intro t q found
  split at found
  · cases found
    apply Traces.behind
    refine level.assignment.andThen fun test => (Traces.silent _).andThen fun _ =>
      level.clauseBody.andThen fun body => Traces.pure ?_
    simp [Clause.children]
  · cases found
    apply Traces.behind
    refine (Traces.silent _).andThen fun _ => level.clauseBody.andThen fun body => Traces.pure ?_
    simp [Clause.children]
  · cases found

theorem switchStmt : (switchStmt inner).Traces [] Stmt.children := by
  refine (level.condition _).andThen fun subject => (Traces.silent _).andThen fun _ =>
    (Traces.many level.clause).andThen fun clauses => (Traces.silent _).andThen fun _ =>
    Traces.pure ?_
  intro q present
  rcases List.mem_cons.mp present with rfl | inside
  · simp
  · have among := clauses_children inside
    simp [among]

theorem statementOf : (statementOf inner).Traces [] Stmt.children := by
  refine Traces.of_sourced (Takes.onToken ?_ level.expressionStmt.sourced)
  intro t q found
  split at found
  · cases found; exact level.declaration.behind
  · cases found; exact (level.functionDecl false).behind
  · cases found; exact level.asyncFunction.behind
  · cases found; exact level.returnStmt.behind
  · cases found; exact level.branch.behind
  · cases found; exact level.whileLoop.behind
  · cases found; exact level.forLoop.behind
  · cases found; exact level.classDecl.behind
  · cases found; exact level.switchStmt.behind
  · cases found; exact (closing rfl _).behind
  · cases found; exact (closing rfl _).behind
  · cases found
    exact importStmt.behind
  · cases found; exact level.attempt.behind
  · cases found

end Tracing

theorem tracing_nested (n : Nat) : Tracing (nested n) := by
  induction n with
  | zero => exact ⟨Traces.fail, Traces.fail, Traces.fail, Traces.fail⟩
  | succ n level =>
    refine ⟨?_, level.assignmentOf, level.conditionalOf, level.unaryOf⟩
    apply Traces.of_sourced
    apply ((takes_gives (nested (n + 1)).statement).and level.statementOf.sourced).mono
    intro s used read q present
    rw [List.mem_singleton.mp present]
    exact Sourced.stmt (fun _ => ⟨n + 1, used, List.infix_refl used, read.1⟩) read.2

end Parser

namespace Program

theorem statement_sourced {text : String} {program : Program} (read : ofText text = .ok program) :
    ∃ ts, Token.ofText text = .ok (ts ++ [.eof (.behind text.toList)]) ∧
      ∀ s ∈ program, Parser.Sourced ts (.stmt s) := by
  obtain ⟨ts, lexed, parsed⟩ := ofText_eq_ok_iff.mp read
  have lexemes := Token.lexemes_of_ofText lexed
  have traced : Parser.program.Traces [] fun body => body.flatMap fun s => [.stmt s] :=
    .many (Parser.tracing_nested Parser.maxNesting).statement
  obtain ⟨used, split, sourced⟩ := traced.sourced (Parser.spelled_lexemes lexemes) parsed
  obtain rfl : ts = used := by simpa using split
  refine ⟨ts, lexed, fun s present => sourced _ ?_⟩
  rw [List.mem_flatMap]
  exact ⟨s, present, List.mem_singleton_self _⟩

end Program

end ScriptCpp
