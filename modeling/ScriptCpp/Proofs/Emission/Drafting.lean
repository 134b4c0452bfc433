import Mathlib
import ScriptCpp.Proofs.Emission.CallDraft
import ScriptCpp.Proofs.Emission.Outcome

set_option autoImplicit false

namespace ScriptCpp

namespace Emission

variable {features : Features} {v : Vocabulary features}

-- The text of an expression stands inside a line, that of a statement is made of whole lines.
def PartDrafted (v : Vocabulary features) (p : Part) (a : Draft) : Prop :=
  match p.isInline with
  | true => Inline v a
  | false => Lined v a

section Calls

variable {callee : Expr} {args : List Expr} {ps : List (Nat → Piece)}

theorem placed_of_pieceOf {e : Expr} {p : Nat → Piece} (written : PieceOf (fun _ => Inline v) e p) :
    Placed v p := by
  obtain ⟨a, text, rfl⟩ := written
  exact ⟨text, isLoose e, fun _ => rfl⟩

theorem all_placed (each : List.Forall₂ (PieceOf fun _ => Inline v) args ps) : ∀ p ∈ ps, Placed v p := by
  induction each with
  | nil => simp
  | cons here _ ih => exact List.forall_mem_cons.mpr ⟨placed_of_pieceOf here, ih⟩

theorem inline_list (each : List.Forall₂ (PieceOf fun _ => Inline v) args ps) :
    Inline v fun depth => commas ((ps.map (· depth)).map Piece.text) :=
  inline_mapped (by decide) fun p among => (all_placed each p among).inline

theorem placed_head {site : CallSite} {kind : FormHead} {head : Nat → Piece}
    (text : HeadOf (fun _ => Inline v) site kind head) : Placed v head := by
  cases text with
  | none => exact ⟨Inline.fixed (by decide), false, fun _ => rfl⟩
  | callee own => exact placed_of_pieceOf own
  | receiver _ own => exact placed_of_pieceOf own

theorem inline_methodText (sound : AllSound v callee.material) :
    Inline v fun _ => (⟨callee, args⟩ : CallSite).methodText := by
  unfold CallSite.methodText CallSite.method?
  cases callee with
  | member object name =>
    rw [Expr.material, allSound_append] at sound
    exact inline_name (sound.2 _ (List.mem_singleton_self _))
  | _ => exact Inline.fixed (s := "") (by decide)

end Calls

theorem exprLaws_inline : ExprLaws features (Material.Sound v) (fun _ => Inline v) (PartDrafted v) where
  assign first second := (first.apart (by decide)).text second
  binary op _ _ _ _ first second := inline_binary op (inline_operand first) (inline_operand second)
  negate text := ((Leading.fixed (by decide)).text (inline_group text)).fix (by decide)
  conditional first second third := inline_conditional first second third
  plainCall _ own each := ((own.apart (by decide)).text (inline_list each)).fix (by decide)
  formCall found _ sound text each := SpecialForm.drafted_of_find? found
    ⟨(SpecialForm.mem_table_of_find? found).2, inline_methodText sound, placed_head text, all_placed each⟩
  member named text := inline_memberText named text
  index first second := inline_indexText first second
  server := Inline.fixed (by decide)
  construct {className args ps} _ named each := by
    have head : Leading v fun _ => "std::make_shared<" ++ className ++ ">(" :=
      ((Leading.fixed (by decide)).text (inline_name named)).apart (by decide)
    exact (head.text (inline_list each)).fix (by decide)
  array {elements ps} each := by
    have head : Leading v fun _ => "std::vector<" ++ elementType elements ++ ">\x7b" :=
      ((Leading.fixed (by decide)).text (inline_elementType elements)).apart (by decide)
    exact (head.text (inline_list each)).fix (by decide)
  ident named := inline_reference named
  number _ := inline_number _
  string sound := ((Leading.fixed (by decide)).text (inline_quoted sound)).fix (by decide)
  this := Inline.fixed (by decide)
  await text := ((Leading.fixed (by decide)).text text).fix (by decide)
  arrowBlock named body := inline_arrowText named body
  arrowValue named text := by
    have whole := inline_arrowText named (lined_returned text)
    exact whole

theorem stmtLaws_lined : StmtLaws (Material.Sound v) (fun _ => Inline v) (PartDrafted v) where
  empty {p} none := by
    cases p with
    | optional | start => exact Inline.fixed (by decide)
    | declared | stmt | handler => cases none
    | stmts | clauses | fallback | cleanup | fields | methods => exact Lined.nil
  given text := text
  uninitialized named := (Leading.fixed (by decide)).text (inline_binding named)
  initialized named text := ((inline_typed named).apart (by decide)).text text
  startDeclare text := text
  startExpr text := text
  declare text := lined_ended text
  function named listed body := lined_lambda named listed body
  classDecl named held offered := lined_class named held offered
  importFile sound := lined_import sound
  bareReturn := lined_fixed (by decide)
  ret text := lined_returned text
  branch asked inner := (lined_branch asked inner).append (lined_fixed (by decide))
  branchElse {_ _ _ _ _ c} asked inner rest := by
    have last : Lined v fun depth =>
        line depth "\x7d else \x7b" ++ c (depth + 1) ++ line depth "\x7d" :=
      ((lined_fixed (by decide)).append (Lined.deeper 1 rest)).append (lined_fixed (by decide))
    exact (lined_branch asked inner).append last
  whileLoop asked inner := lined_blockText (inline_headed (by decide) asked) inner
  forLoop started asked stepped inner := lined_blockText (inline_forHead started asked stepped) inner
  switch asked cases last := lined_blockText (inline_headed (by decide) asked) (Lined.append cases last)
  breakLoop := lined_fixed (by decide)
  continueLoop := lined_fixed (by decide)
  attempt tried caught last := ((((lined_fixed (by decide)).append (Lined.deeper 1 tried)).append
    caught).append (lined_fixed (by decide))).append last
  expr text := lined_ended text
  stmts first later := Lined.append first later
  clauses {test body rest a b c} asked inner later := by
    have head : Inline v fun depth => "case " ++ a depth ++ ":" :=
      ((Leading.fixed (by decide)).text asked).fix (by decide)
    exact (lined_blockText head inner).append later
  fallback body := lined_blockText (Inline.fixed (by decide)) body
  rethrow := (lined_fixed (by decide)).append ((lined_fixed (by decide)).deeper 1)
  catchAll body := (lined_fixed (by decide)).append (Lined.deeper 1 body)
  catchNamed {param body a} named text := by
    have bound : Inline v fun _ => "std::string " ++ binding param ++ " = _e.what();" :=
      ((Leading.fixed (by decide)).text (inline_binding named)).fix (by decide)
    exact ((lined_fixed (by decide)).append (bound.line.deeper 1)).append (Lined.deeper 1 text)
  cleanup body := (((lined_fixed (by decide)).append ((lined_fixed (by decide)).deeper 1)).append
    (Lined.deeper 1 body)).append (lined_fixed (by decide))
  bareField {name rest a} named later := by
    have here : Inline v fun _ => "int " ++ name ++ ";" :=
      ((Leading.fixed (by decide)).text (inline_name named)).fix (by decide)
    exact here.line.append later
  field named sound text later := (lined_field named sound text).append later
  methods named listed body later := (lined_function (inline_name named) listed body).append later

theorem draftLaws (v : Vocabulary features) :
    Laws features (Material.Sound v) (fun _ => Inline v) (fun _ => Inline v) (PartDrafted v) :=
  ⟨exprLaws_inline, stmtLaws_lined, fun text => text⟩

end Emission

end ScriptCpp
