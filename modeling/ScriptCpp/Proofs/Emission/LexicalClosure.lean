import Mathlib
import ScriptCpp.Proofs.Emission.ClosedText
import ScriptCpp.Proofs.Emission.Composition

set_option autoImplicit false

namespace ScriptCpp

open Cpp

namespace Emission

-- The literals and comments of a part, in order.
def Part.inert (features : Features) : Part → List Segment
  | .optional e => Expr.inertIfAny features e
  | .declared _ value => Expr.inertIfAny features value
  | .start s => Stmt.inertOfStart features s
  | .stmt s => s.inert features
  | .stmts body => Stmt.inertEach features body
  | .clauses cases => CaseClause.inertEach features cases
  | .fallback body => Stmt.inertIfAny features body
  | .handler clause => CatchClause.inertIfAny features clause
  | .cleanup body => Stmt.inertOfCleanup features body
  | .fields held => FieldDecl.inertEach features held
  | .methods offered => FunctionDecl.inertEach features offered

-- The brackets that a part closes and opens again: a handler starts with the end of the block before it.
def Part.around : Part → List Char
  | .handler _ => ['\x7b']
  | .optional _ | .declared _ _ | .start _ | .stmt _ | .stmts _ | .clauses _ | .fallback _ => []
  | .cleanup _ | .fields _ | .methods _ => []

section Relations

variable (features : Features)

def ExprClosed (e : Expr) (a : Draft) : Prop := ∀ depth, Closed (a depth) (e.inert features)

def PartScans (p : Part) (a : Draft) : Prop :=
  ∀ depth, Scans (a depth) (p.inert features) p.around p.around

end Relations

variable {features : Features} {callee : Expr} {args : List Expr} {ps : List (Nat → Piece)}

theorem piecesClosed (each : List.Forall₂ (PieceOf (ExprClosed features)) args ps) (depth : Nat) :
    PiecesClosed (ps.map (· depth)) (args.map (Expr.inert features)) := by
  rw [PiecesClosed, List.forall₂_map_left_iff, List.forall₂_map_right_iff]
  refine each.flip.imp ?_
  rintro p e ⟨a, closed, rfl⟩
  exact closed depth

theorem inertList_eq_map (es : List Expr) : Expr.inertList features es = es.map (Expr.inert features) := by
  induction es with
  | nil => rfl
  | cons e es ih => rw [Expr.inertList, List.map_cons, ih]

theorem closed_list (each : List.Forall₂ (PieceOf (ExprClosed features)) args ps) (depth : Nat) :
    Closed (commas ((ps.map (· depth)).map Piece.text)) (Expr.inertList features args).flatten := by
  rw [inertList_eq_map]
  exact closed_commas (piecesClosed each depth).texts

theorem closed_head {kind : FormHead} {head : Nat → Piece} (depth : Nat) :
    HeadOf (ExprClosed features) ⟨callee, args⟩ kind head →
      Closed (head depth).text (match kind with
        | .none => []
        | .callee => callee.inert features
        | .receiver => callee.receiverInert features) := by
  intro text
  cases text with
  | none => exact Closed.nil
  | callee own =>
    obtain ⟨a, closed, rfl⟩ := own
    exact closed depth
  | receiver called own =>
    obtain ⟨a, closed, rfl⟩ := own
    cases callee with
    | member | index =>
      cases called
      exact closed depth
    | _ => cases called

section Laws

variable {M : Material → Prop} (fine : ∀ m, M m → m.Fine)

include fine

theorem exprLaws_closed : ExprLaws features M (ExprClosed features) (PartScans features) where
  assign first second depth := ((first depth).fix (by decide)).text (second depth)
  binary op _ _ _ _ first second depth :=
    closed_binary op (closed_operand (first depth)) (closed_operand (second depth))
  negate closed depth :=
    ((Scans.fixed (t := ['(']) (by decide)).text (closed_group (closed depth))).fix (by decide)
  conditional first second third depth := closed_conditional (first depth) (second depth) (third depth)
  plainCall {callee args a ps} plain own each depth := by
    rw [Expr.inert, plain]
    have opened : Scans (a depth ++ "(") (callee.inert features) [] ['('] := (own depth).fix (by decide)
    exact (opened.text (closed_list each depth)).fix (by decide)
  formCall {callee args form head ps} found _ sound text each depth := by
    rw [Expr.inert, found, inertList_eq_map]
    simp only [SpecialForm.used_map]
    refine SpecialForm.closes_of_find? found ⟨(SpecialForm.mem_table_of_find? found).2,
      closed_methodText fun m own => fine m (sound m own), closed_head depth text, fun none => by simp [none], piecesClosed each depth, ?_⟩
    rw [List.length_map, each.length_eq]
  member named closed depth := closed_memberText (fine _ named) (closed depth)
  index first second depth := closed_indexText (first depth) (second depth)
  server depth := by
    rw [Expr.inert, if_pos rfl]
    exact (Scans.fixed (by decide) : Closed "std::make_shared<httplib::Server>()" [])
  construct {className args ps} other named each depth := by
    rw [Expr.inert, if_neg other]
    have head : Scans ("std::make_shared<" ++ className ++ ">(") [] [] ['('] :=
      ((Scans.fixed (t := []) (by decide)).word (closed_name (fine _ named))).fix (by decide)
    exact (head.text (closed_list each depth)).fix (by decide)
  array {elements ps} each depth := by
    have head : Scans ("std::vector<" ++ elementType elements ++ ">\x7b") [] [] ['\x7b'] :=
      ((Scans.fixed (t := []) (by decide)).word (closed_elementType elements)).fix (by decide)
    exact (head.text (closed_list each depth)).fix (by decide)
  ident named _ := closed_reference (fine _ named)
  number _ _ := closed_number _
  string body _ := closed_string (fine _ body)
  this _ := (Scans.fixed (by decide) : Closed "this" [])
  await closed depth := ((Scans.fixed (t := ['(']) (by decide)).text (closed depth)).fix (by decide)
  arrowBlock listed closed depth :=
    closed_arrowText (fun m own => fine m (listed m own)) (closed (depth + 1))
  arrowValue listed closed depth :=
    closed_arrowText (fun m own => fine m (listed m own)) (closed_returned (closed (depth + 1)))

theorem stmtLaws_scans : StmtLaws M (ExprClosed features) (PartScans features) where
  empty {p} none depth := by
    cases p with
    | declared | stmt | handler => cases none
    | optional e | start e | fallback e | cleanup e =>
      cases e with
      | none => exact Closed.nil
      | some e => cases none
    | stmts es | clauses es | fields es | methods es =>
      cases es with
      | nil => exact Closed.nil
      | cons e es => cases none
  given closed := closed
  uninitialized named _ := (Scans.fixed (s := []) (t := []) (by decide)).word (closed_binding (fine _ named))
  initialized {name e a} named closed depth := by
    have head : Closed ("auto " ++ binding name ++ " = ") [] :=
      ((Scans.fixed (t := []) (by decide)).word (closed_binding (fine _ named))).fix (by decide)
    exact head.append (closed depth)
  startDeclare closed := closed
  startExpr closed := closed
  declare closed depth := closed_ended (closed depth)
  function named listed closed depth :=
    closed_lambda (fine _ named) (fun m own => fine m (listed m own)) (closed (depth + 1))
  classDecl named held offered depth :=
    closed_class (fine _ named) (held (depth + 1)) (offered (depth + 1))
  importFile body _ := closed_import (fine _ body)
  bareReturn _ := scans_line (Scans.fixed (by decide))
  ret closed depth := closed_returned (closed depth)
  branch {_ _ a b} asked inner depth := by
    have whole : Scans
        (line depth ("if (" ++ a depth ++ ") \x7b") ++ b (depth + 1) ++ line depth "\x7d") _ [] [] :=
      (scans_branch (asked depth) (inner (depth + 1))).silent (closing_scans depth)
    simpa [Part.inert, Part.around] using whole
  branchElse asked inner rest depth :=
    (scans_branch (asked depth) (inner (depth + 1))).append (scans_else (rest (depth + 1)))
  whileLoop asked inner depth :=
    closed_blockText (closed_headed (by decide) (asked depth)) (inner (depth + 1))
  forLoop started asked stepped inner depth :=
    closed_blockText (closed_forHead (started depth) (asked depth) (stepped depth)) (inner (depth + 1))
  switch asked cases last depth := closed_blockText (closed_headed (by decide) (asked depth))
    (Closed.append (cases (depth + 1)) (last (depth + 1)))
  breakLoop _ := scans_line (Scans.fixed (by decide))
  continueLoop _ := scans_line (Scans.fixed (by decide))
  attempt tried caught last depth := by
    have opened : Scans (line depth "try \x7b") [] [] ['\x7b'] := scans_line (Scans.fixed (by decide))
    exact (((opened.text (tried (depth + 1))).append (caught depth)).silent (closing_scans depth)).text
      (last depth)
  expr closed depth := closed_ended (closed depth)
  stmts first later depth := Closed.append (first depth) (later depth)
  clauses {test body rest a b c} asked inner later depth := by
    have head : Closed ("case " ++ a depth ++ ":") (test.inert features) :=
      ((Scans.fixed (t := []) (by decide)).text (asked depth)).fix (by decide)
    exact (closed_blockText head (inner (depth + 1))).append (later depth)
  fallback closed depth := closed_blockText (p := []) (Scans.fixed (by decide)) (closed (depth + 1))
  rethrow depth := (catchAll_scans depth).word (scans_line (Scans.fixed (by decide)))
  catchAll closed depth := (catchAll_scans depth).text (closed (depth + 1))
  catchNamed {param body a} named closed depth := by
    have caught : Scans (line depth "\x7d catch (const std::exception& _e) \x7b") [] ['\x7b'] ['\x7b'] :=
      scans_line (Scans.fixed (by decide))
    have bound : Closed ("std::string " ++ binding param ++ " = _e.what();") [] :=
      ((Scans.fixed (t := []) (by decide)).word (closed_binding (fine _ named))).fix (by decide)
    exact (caught.word (scans_line bound)).text (closed (depth + 1))
  cleanup closed depth := closed_cleanup (closed (depth + 1))
  bareField {name rest a} named later depth := by
    have here : Closed ("int " ++ name ++ ";") [] :=
      ((Scans.fixed (t := []) (by decide)).word (closed_name (fine _ named))).fix (by decide)
    exact Closed.append (scans_line here) (later depth)
  field named sound closed later depth := Closed.append
    (closed_field (fine _ named) (fun m own => fine m (sound m own)) (closed depth)) (later depth)
  methods named listed closed later depth := Closed.append
    (closed_function (closed_name (fine _ named)) (fun m own => fine m (listed m own)) (closed (depth + 1)))
    (later depth)

end Laws

end Emission

namespace Program

open Emission

end Program

end ScriptCpp
