import Mathlib
import ScriptCpp.Proofs.Emission.Composition
import ScriptCpp.Proofs.Parsing.Provenance

set_option autoImplicit false

namespace ScriptCpp

def Stmt.isSwitch : Stmt → Bool
  | .switch .. => true
  | _ => false

namespace Parser

inductive Clause.Written : List Token → Clause → Prop where
  | case {n : Nat} {word colon : Token} {label body : List Token} {test : Expr} {block : List Stmt}
      (isCase : word.kind = .keyword .case_) (tested : (nested n).assignment.Gives label test)
      (isColon : colon.kind = .symbol .colon) (listed : (clauseBody (nested n)).Gives body block) :
      Written (word :: (label ++ colon :: body)) ⟨some test, block⟩
  | default {n : Nat} {word colon : Token} {body : List Token} {block : List Stmt}
      (isDefault : word.kind = .keyword .default_) (isColon : colon.kind = .symbol .colon)
      (listed : (clauseBody (nested n)).Gives body block) :
      Written (word :: colon :: body) ⟨none, block⟩

/-- A switch as it stands in a source: its subject and, between braces, its clauses in order. -/
inductive SwitchWritten : List Token → Expr → List Clause → Prop where
  | intro {n : Nat} {word opening closing : Token} {head : List Token} {parts : List (List Token)}
      {subject : Expr} {clauses : List Clause} (isSwitch : word.kind = .keyword .switch_)
      (asked : (condition (nested n) .switchWord).Gives head subject)
      (opens : opening.kind = .symbol .openBrace) (listed : List.Forall₂ Clause.Written parts clauses)
      (closes : closing.kind = .symbol .closeBrace) :
      SwitchWritten (word :: (head ++ opening :: (parts.flatten ++ [closing]))) subject clauses

theorem takes_symbol (sign : Symbol) (complaint : Complaint) : (expectSymbol sign complaint).Takes
    fun _ used => ∃ t : Token, used = [t] ∧ t.kind = .symbol sign :=
  Takes.expectSymbol fun t isSign => ⟨t, rfl, isSign⟩

theorem clause_written (n : Nat) : (clause (nested n)).Takes fun c used => c.Written used := by
  refine Takes.onToken ?_ Takes.fail
  intro t q found
  split at found
  · next isCase =>
    cases found
    refine (takes_gives _).bind fun test label tested => (takes_symbol _ _).bind fun _ used₂ colon =>
      (takes_gives _).bind fun block body listed => Takes.pure ?_
    obtain ⟨colon, rfl, isColon⟩ := colon
    simpa using Clause.Written.case isCase tested isColon listed
  · next isDefault =>
    cases found
    refine (takes_symbol _ _).bind fun _ used₁ colon => (takes_gives _).bind fun block body listed =>
      Takes.pure ?_
    obtain ⟨colon, rfl, isColon⟩ := colon
    simpa using Clause.Written.default isDefault isColon listed
  · cases found

theorem switch_written (n : Nat) {word : Token} (isSwitch : word.kind = .keyword .switch_) :
    (switchStmt (nested n)).Takes fun s used => ∃ subject clauses,
      SwitchWritten (word :: used) subject clauses ∧ s = .switch subject
        (clauses.filterMap Clause.case?) (clauses.filterMap Clause.default?).getLast? := by
  have listed : ∀ {stops : Token → Bool}, (many stops (clause (nested n)) (strict_clause (nested n))).Takes
      fun clauses used => ∃ parts, used = parts.flatten ∧ List.Forall₂ Clause.Written parts clauses := by
    intro stops
    refine Takes.many (clause_written n) ⟨[], rfl, .nil⟩ ?_
    rintro c used cs more written ⟨parts, rfl, others⟩
    exact ⟨used :: parts, by simp, .cons written others⟩
  refine (takes_gives _).bind fun subject head asked => (takes_symbol _ _).bind fun _ used₂ opening =>
    listed.bind fun clauses used₃ parts => (takes_symbol _ _).bind fun _ used₄ closing => Takes.pure ?_
  obtain ⟨opening, rfl, opens⟩ := opening
  obtain ⟨parts, rfl, written⟩ := parts
  obtain ⟨closing, rfl, closes⟩ := closing
  refine ⟨subject, clauses, ?_, rfl⟩
  simpa using SwitchWritten.intro isSwitch asked opens written closes

section Shape

variable {α : Type} {inner : Nested}

def Unswitched (p : Parser Stmt) : Prop := p.Takes fun s _ => s.isSwitch = false

theorem Unswitched.last {p : Parser α} {f : α → Parser Stmt} (each : ∀ a, (f a).Unswitched) :
    (p >>= f).Unswitched :=
  (takes_gives p).bind fun a _ _ => each a

theorem Unswitched.pure {s : Stmt} (other : s.isSwitch = false) : (Pure.pure s : Parser Stmt).Unswitched :=
  Takes.pure other

theorem unswitched_declaration : (declaration inner).Unswitched := by
  refine .last fun name => .last fun bare => ?_
  cases bare with
  | true => exact .pure rfl
  | false => exact .last fun _ => .last fun value => .last fun _ => .pure rfl

theorem unswitched_functionDecl (isAsync : Bool) : (functionDecl inner isAsync).Unswitched :=
  .last fun _ => .last fun _ => .last fun _ => .pure rfl

theorem unswitched_returnStmt : (returnStmt inner).Unswitched := by
  refine .last fun bare => ?_
  cases bare with
  | true => exact .pure rfl
  | false => exact .last fun value => .last fun _ => .pure rfl

theorem unswitched_closing {s : Stmt} (other : s.isSwitch = false) (complaint : Complaint) :
    (closing s complaint).Unswitched :=
  .last fun _ => .pure other

theorem statementOf_switch (n : Nat) : (statementOf (nested n)).Takes fun s used =>
    s.isSwitch = true → ∃ subject clauses, SwitchWritten used subject clauses ∧ s = .switch subject
      (clauses.filterMap Clause.case?) (clauses.filterMap Clause.default?).getLast? := by
  -- Of the parsers of statements only one gives a `switch`.
  have other : ∀ {q : Parser Stmt} {t : Token}, q.Unswitched → q.Takes fun s used =>
      s.isSwitch = true → ∃ subject clauses, SwitchWritten (t :: used) subject clauses ∧
        s = .switch subject (clauses.filterMap Clause.case?)
          (clauses.filterMap Clause.default?).getLast? := by
    intro q t unswitched
    apply unswitched.mono
    intro s used plain isSwitch
    rw [plain] at isSwitch
    cases isSwitch
  refine Takes.onToken ?_ ?_
  · intro t q found
    split at found
    · cases found; exact other unswitched_declaration
    · cases found; exact other (unswitched_functionDecl false)
    · cases found; exact other (.last fun _ => unswitched_functionDecl true)
    · cases found; exact other unswitched_returnStmt
    · cases found; exact other (.last fun _ => .last fun _ => .last fun _ => .pure rfl)
    · cases found; exact other (.last fun _ => .last fun _ => .pure rfl)
    · cases found
      exact other (.last fun _ => .last fun _ => .last fun _ => .last fun _ => .last fun _ =>
        .last fun _ => .last fun _ => .pure rfl)
    · cases found; exact other (.last fun _ => .last fun _ => .last fun _ => .last fun _ => .pure rfl)
    · next isSwitch =>
      cases found
      exact (switch_written n isSwitch).mono fun s used written _ => written
    · cases found; exact other (unswitched_closing rfl _)
    · cases found; exact other (unswitched_closing rfl _)
    · cases found; exact other (.last fun _ => .last fun _ => .pure rfl)
    · cases found; exact other (.last fun _ => .last fun _ => .last fun _ => .pure rfl)
    · cases found
  · have plain : (expressionStmt (nested n)).Unswitched := .last fun _ => unswitched_closing rfl _
    apply plain.mono
    intro s used plain isSwitch
    rw [plain] at isSwitch
    cases isSwitch

theorem written_of_gives {n : Nat} {used : List Token} {subject : Expr} {cases : List CaseClause}
    {fallback : Option (List Stmt)}
    (gives : (nested n).statement.Gives used (.switch subject cases fallback)) :
    ∃ clauses, SwitchWritten used subject clauses ∧ cases = clauses.filterMap Clause.case? ∧
      fallback = (clauses.filterMap Clause.default?).getLast? := by
  cases n with
  | zero =>
    obtain ⟨stop, rest, -, read⟩ := gives
    cases read
  | succ n =>
    obtain ⟨subject', clauses, written, same⟩ := (statementOf_switch n).of_gives gives rfl
    cases same
    exact ⟨clauses, written, rfl, rfl⟩

end Shape

end Parser

namespace Emission

variable (features : Features) (depth : Nat)

def labelText (test : Option Expr) : Emitted String :=
  test.elim (.ok "default:") fun test => do
    let text ← expr features depth test
    return "case " ++ text ++ ":"

def clauseText (c : Parser.Clause) : Emitted String := do
  let label ← labelText features depth c.test
  let body ← stmts features (depth + 1) c.body
  return blockText depth label body

/-- The clauses that are written, in that order. -/
def settled (clauses : List Parser.Clause) : List Parser.Clause :=
  clauses.filter (·.test.isSome) ++ (clauses.filter (·.test.isNone)).getLast?.toList

theorem clauseText_case (test : Expr) (body : List Stmt) :
    clauseText features depth ⟨some test, body⟩ = do
      let test ← expr features depth test
      let body ← stmts features (depth + 1) body
      return blockText depth ("case " ++ test ++ ":") body := by
  simp only [clauseText, labelText, Option.elim, bind_assoc, pure_bind]

theorem clauseText_default (body : List Stmt) : clauseText features depth ⟨none, body⟩ = do
    let body ← stmts features (depth + 1) body
    return blockText depth "default:" body := rfl

theorem clauses_eq_mapM (cs : List Parser.Clause) :
    (Scribe.clauses (cs.filterMap Parser.Clause.case?)).outcome features depth =
      String.join <$> (cs.filter (·.test.isSome)).mapM (clauseText features depth) := by
  induction cs with
  | nil => rfl
  | cons c cs ih =>
    obtain ⟨test, body⟩ := c
    cases test with
    | none => exact ih
    | some test =>
      have first : (Scribe.clauses ((⟨some test, body⟩ :: cs).filterMap Parser.Clause.case?)).outcome
          features depth = (do
            let label ← expr features depth test
            let block ← stmts features (depth + 1) body
            let later ← (Scribe.clauses (cs.filterMap Parser.Clause.case?)).outcome features depth
            return blockText depth ("case " ++ label ++ ":") block ++ later) := by
        refine (expr_bind test _).trans (congrArg (_ >>= ·) (funext fun label => ?_))
        refine (braced_bind body _ _).trans (congrArg (_ >>= ·) (funext fun block => ?_))
        exact Scribe.outcome_bind (Scribe.clauses_restore _) _
      rw [first, ih, List.filter_cons_of_pos rfl, List.mapM_cons, clauseText_case]
      cases expr features depth test with
      | error e => rfl
      | ok text =>
        cases stmts features (depth + 1) body with
        | error e => rfl
        | ok block => exact (join_cons_map (blockText depth ("case " ++ text ++ ":") block) _).symm

theorem defaults_eq_map (cs : List Parser.Clause) :
    cs.filterMap Parser.Clause.default? = (cs.filter (·.test.isNone)).map Parser.Clause.body := by
  induction cs with
  | nil => rfl
  | cons c cs ih =>
    obtain ⟨test, body⟩ := c
    cases test with
    | none => exact congrArg (body :: ·) ih
    | some test => exact ih

theorem fallback_eq_mapM (cs : List Parser.Clause) :
    (Scribe.defaultClause (cs.filterMap Parser.Clause.default?).getLast?).outcome features depth =
      String.join <$> (cs.filter (·.test.isNone)).getLast?.toList.mapM (clauseText features depth) := by
  rw [defaults_eq_map, List.getLast?_map]
  cases last : (cs.filter (·.test.isNone)).getLast? with
  | none => rfl
  | some c =>
    obtain ⟨test, body⟩ := c
    have default : test = none := by
      simpa using (List.mem_filter.mp (List.mem_of_getLast? last)).2
    subst default
    rw [Option.map_some, Option.toList_some, List.mapM_cons, clauseText_default]
    refine (Scribe.outcome_braced (Scribe.stmts_restore body) "default:").trans ?_
    rw [← stmts]
    cases stmts features (depth + 1) body with
    | error e => rfl
    | ok block => simp [Except.map]

theorem switch_eq (subject : Expr) (cs : List Parser.Clause) :
    stmt features depth (.switch subject (cs.filterMap Parser.Clause.case?)
      (cs.filterMap Parser.Clause.default?).getLast?) = do
        let head ← expr features depth subject
        let blocks ← (settled cs).mapM (clauseText features (depth + 1))
        return blockText depth ("switch (" ++ head ++ ")") (String.join blocks) := by
  have inside : (Scribe.clauses (cs.filterMap Parser.Clause.case?) >>= fun before =>
      Scribe.defaultClause (cs.filterMap Parser.Clause.default?).getLast? >>= fun last =>
        pure (before ++ last)).outcome features (depth + 1) =
      String.join <$> (settled cs).mapM (clauseText features (depth + 1)) := by
    rw [Scribe.outcome_bind (Scribe.clauses_restore _), clauses_eq_mapM, settled, List.mapM_append]
    cases (cs.filter (·.test.isSome)).mapM (clauseText features (depth + 1)) with
    | error e => rfl
    | ok tested =>
      refine (Scribe.outcome_bind (Scribe.fallback_restores _) _).trans ?_
      rw [fallback_eq_mapM]
      cases (cs.filter (·.test.isNone)).getLast?.toList.mapM (clauseText features (depth + 1)) with
      | error e => rfl
      | ok last => exact congrArg Except.ok String.join_append.symm
  refine (expr_bind subject _).trans (congrArg (_ >>= ·) (funext fun head => ?_))
  refine (Scribe.outcome_braced (.bind (Scribe.clauses_restore _) fun _ =>
    .bind (Scribe.fallback_restores _) fun _ => .pure _) _).trans ?_
  rw [inside]
  cases (settled cs).mapM (clauseText features (depth + 1)) with
  | error e => rfl
  | ok blocks => rfl

-- What is written ends with its only `default`, if there is one.
theorem last_of_settled {cs before after : List Parser.Clause} {c : Parser.Clause}
    (split : settled cs = before ++ c :: after) (isDefault : c.test = none) : after = [] := by
  have tested : c ∉ cs.filter (·.test.isSome) := by
    intro among
    simp [isDefault] at among
  rcases List.eq_nil_or_concat after with none | ⟨inner, last, rfl⟩
  · exact none
  · unfold settled at split
    cases found : (cs.filter (·.test.isNone)).getLast? with
    | none =>
      rw [found, Option.toList_none, List.append_nil] at split
      rw [split] at tested
      simp at tested
    | some d =>
      rw [found, Option.toList_some, List.concat_eq_append, ← List.cons_append, ← List.append_assoc] at split
      rw [(List.append_inj' split rfl).1] at tested
      simp at tested

theorem settled_eq_iff {cs : List Parser.Clause} : settled cs = cs ↔
    ∀ before c after, cs = before ++ c :: after → c.test = none → after = [] := by
  constructor
  · intro same before c after split
    exact last_of_settled (same.trans split)
  · intro isLast
    induction cs with
    | nil => rfl
    | cons c cs ih =>
      obtain ⟨test, body⟩ := c
      cases test with
      | none =>
        have alone : cs = [] := isLast [] _ cs rfl rfl
        rw [alone]
        rfl
      | some test =>
        have rest : settled cs = cs := by
          apply ih
          intro before c after split
          exact isLast (⟨some test, body⟩ :: before) c after (by rw [split, List.cons_append])
        exact congrArg (⟨some test, body⟩ :: ·) rest

end Emission

namespace Program

open Emission

/-- Each switch of a program that was read, at any level, stands in the source with its clauses in some
order. It is written with a label and a block for each clause, in that order and each with its own
statements, exactly if no clause follows a `default`; else the cases come first, and then the last
`default`. -/
theorem switch_clauses {text : String} {program : Program} (read : ofText text = .ok program) {s : Stmt}
    (present : s ∈ program) {subject : Expr} {cases : List CaseClause} {fallback : Option (List Stmt)}
    (occurs : (Phrase.stmt s).Holds (.stmt (.switch subject cases fallback))) :
    ∃ tokens segment clauses, Token.ofText text = .ok tokens ∧ segment <:+: tokens ∧
      Parser.SwitchWritten segment subject clauses ∧
      (∀ features depth, stmt features depth (.switch subject cases fallback) = do
        let head ← expr features depth subject
        let blocks ← (settled clauses).mapM (clauseText features (depth + 1))
        return blockText depth ("switch (" ++ head ++ ")") (String.join blocks)) ∧
      (settled clauses = clauses ↔
        ∀ before c after, clauses = before ++ c :: after → c.test = none → after = []) := by
  obtain ⟨ts, lexed, sourced⟩ := statement_sourced read
  obtain ⟨n, segment, within, gives⟩ := sourced s present _ occurs rfl
  obtain ⟨clauses, written, rfl, rfl⟩ := Parser.written_of_gives gives
  refine ⟨_, segment, clauses, lexed, ?_, written, ?_, settled_eq_iff⟩
  · exact within.trans (List.prefix_append ts _).isInfix
  · intro features depth
    exact switch_eq features depth subject clauses

def casesFirst : String :=
  "    switch (x) \x7b\n        case 1: \x7b\n            std::cout << 1 << std::endl;\n        \x7d\n" ++
    "        default: \x7b\n            std::cout << 0 << std::endl;\n        \x7d\n    \x7d\n"

-- `switch (x) { case 1: print(1); default: print(0); }`
def defaultLast : String := "switch (x) \x7b case 1: print(1); default: print(0); \x7d"

theorem switch_clauses_last : ∃ tokens segment subject clauses, Token.ofText defaultLast = .ok tokens ∧
    segment <:+: tokens ∧ Parser.SwitchWritten segment subject clauses ∧
    (do
      let head ← expr ⟨false, false⟩ 1 subject
      let blocks ← (settled clauses).mapM (clauseText ⟨false, false⟩ 2)
      return blockText 1 ("switch (" ++ head ++ ")") (String.join blocks)) =
        .ok casesFirst := by
  have written : (ofText defaultLast).map (fun program =>
      program.map fun s => (s.isSwitch, stmt ⟨false, false⟩ 1 s)) = .ok [(true, .ok casesFirst)] := by
    decide +kernel
  cases read : ofText defaultLast with
  | error e => simp [read, Except.map] at written
  | ok program =>
    simp only [read, Except.map, Except.ok.injEq] at written
    obtain ⟨s, rest, rfl, first, -⟩ := List.map_eq_cons_iff.mp written
    rw [Prod.mk.injEq] at first
    cases s with
    | switch subject cases fallback =>
      obtain ⟨tokens, segment, clauses, lexed, within, source, emitted, -⟩ :=
        switch_clauses read List.mem_cons_self .refl
      exact ⟨tokens, segment, subject, clauses, lexed, within, source, (emitted _ _).symm.trans first.2⟩
    | _ => cases first.1

-- `switch (x) { default: print(0); case 1: print(1); }`
def defaultFirst : String := "switch (x) \x7b default: print(0); case 1: print(1); \x7d"

theorem switch_default_moved :
    (Token.ofText defaultFirst).map (fun tokens => (tokens.map Token.kind).filter fun kind =>
      kind = .keyword .case_ || kind = .keyword .default_) =
        .ok [.keyword .default_, .keyword .case_] ∧
    ∃ program, ofText defaultFirst = .ok program ∧
      emit ⟨false, false⟩ program = .ok (layout ⟨false, false⟩ [] [casesFirst]) := by
  constructor
  · decide +kernel
  · have written : (ofText defaultFirst).map (fun program =>
        (program.declarations.mapM (alone ⟨false, false⟩), program.entry.mapM (alone ⟨false, false⟩))) =
          .ok (.ok [], .ok [casesFirst]) := by decide +kernel
    cases read : ofText defaultFirst with
    | error e => simp [read, Except.map] at written
    | ok program =>
      simp only [read, Except.map, Except.ok.injEq, Prod.mk.injEq] at written
      refine ⟨program, rfl, ?_⟩
      rw [emit_eq_layout, written.1, written.2]
      rfl

end Program

end ScriptCpp
