import Mathlib
import ScriptCpp.Proofs.Emission.Composition
import ScriptCpp.Proofs.Emission.EmittedNames

set_option autoImplicit false

namespace ScriptCpp

open Cpp

namespace Emission

-- The names that a part mentions, in order.
def Part.mentions (features : Features) : Part → List Mention
  | .optional e => Expr.mentionsIfAny features e
  | .declared name value => .bound name :: Expr.mentionsIfAny features value
  | .start s => Stmt.mentionsOfStart features s
  | .stmt s => s.mentions features
  | .stmts body => Stmt.mentionsEach features body
  | .clauses cases => CaseClause.mentionsEach features cases
  | .fallback body => Stmt.mentionsIfAny features body
  | .handler clause => CatchClause.mentionsIfAny features clause
  | .cleanup body => Stmt.mentionsIfAny features body
  | .fields held => FieldDecl.mentionsEach features held
  | .methods offered => FunctionDecl.mentionsOfMethods features offered

section Relations

variable (features : Features)

def ExprNames (e : Expr) (a : Draft) : Prop := ∀ depth, Names features true (a depth) (e.mentions features)

def PartNames (p : Part) (a : Draft) : Prop :=
  ∀ depth, Names features p.isInline (a depth) (p.mentions features)

end Relations

variable {features : Features} {callee : Expr} {args : List Expr} {ps : List (Nat → Piece)}

theorem mentionsList_eq_map (es : List Expr) :
    Expr.mentionsList features es = es.map (Expr.mentions features) := by
  induction es with
  | nil => rfl
  | cons e es ih => rw [Expr.mentionsList, List.map_cons, ih]

theorem piecesName (each : List.Forall₂ (PieceOf (ExprNames features)) args ps) (depth : Nat) :
    PiecesName features (ps.map (· depth)) (args.map (Expr.mentions features)) := by
  rw [PiecesName, List.forall₂_map_left_iff, List.forall₂_map_right_iff]
  refine each.flip.imp ?_
  rintro p e ⟨a, named, rfl⟩
  exact named depth

theorem names_list (each : List.Forall₂ (PieceOf (ExprNames features)) args ps) (depth : Nat) :
    Names features true (commas ((ps.map (· depth)).map Piece.text))
      (Expr.mentionsList features args).flatten := by
  rw [mentionsList_eq_map]
  exact names_commas (piecesName each depth).texts

theorem names_head {kind : FormHead} {head : Nat → Piece} (depth : Nat) :
    HeadOf (ExprNames features) ⟨callee, args⟩ kind head →
      Names features true (head depth).text (match kind with
        | .none => []
        | .callee => callee.mentions features
        | .receiver => callee.receiverMentions features) := by
  intro text
  cases text with
  | none => exact Names.nil.loose
  | callee own =>
    obtain ⟨a, named, rfl⟩ := own
    exact named depth
  | receiver called own =>
    obtain ⟨a, named, rfl⟩ := own
    cases callee with
    | member | index =>
      cases called
      exact named depth
    | _ => cases called

theorem exprLaws_names : ExprLaws features Material.Proper (ExprNames features) (PartNames features) where
  assign first second depth := ((first depth).fix (by decide)).text (second depth)
  binary op _ _ _ _ first second depth :=
    names_binary op (names_operand (first depth)) (names_operand (second depth))
  negate named depth := (Names.surrounded (by decide) (names_group (named depth)) (by decide)).loose
  conditional first second third depth := names_conditional (first depth) (second depth) (third depth)
  plainCall {callee args a ps} plain own each depth := by
    rw [Expr.mentions, plain]
    exact ((((own depth).fix (by decide)).text (names_list each depth)).fix (by decide)).loose
  formCall {callee args form head ps} found _ proper text each depth := by
    rw [Expr.mentions, found, mentionsList_eq_map]
    simp only [SpecialForm.used_map]
    refine SpecialForm.keepsNames_of_find? found ⟨(SpecialForm.mem_table_of_find? found).2,
      isName_method proper, names_head depth text, fun none => by simp [none], piecesName each depth, ?_⟩
    rw [List.length_map, each.length_eq]
  member proper named depth := names_memberText proper.2 (named depth)
  index first second depth := names_indexText (first depth) (second depth)
  server depth := by
    rw [Expr.mentions, if_pos rfl]
    exact (.word (by decide) : Names features true "std::make_shared<httplib::Server>()" [])
  construct {className args ps} other proper each depth := by
    rw [Expr.mentions, if_neg other]
    have head : Names features false ("std::make_shared<" ++ className ++ ">(") [.label className] :=
      .surrounded (by decide) (.label proper.2) (by decide)
    exact ((head.text (names_list each depth)).fix (by decide)).loose
  array {elements ps} each depth := by
    have head : Names features false ("std::vector<" ++ elementType elements ++ ">\x7b") [] :=
      .surrounded (by decide) (names_elementType elements) (by decide)
    exact ((head.text (names_list each depth)).fix (by decide)).loose
  ident proper _ := names_reference proper.2
  number _ _ := .number _
  string proper _ := (names_string proper.1).loose
  this _ := (.word (by decide) : Names features true "this" [])
  await named depth := (Names.surrounded (by decide) (named depth) (by decide)).loose
  arrowBlock proper named depth := names_arrowText (AllProper.isName proper) (named (depth + 1))
  arrowValue proper named depth :=
    names_arrowText (AllProper.isName proper) (names_returned (named (depth + 1)))

theorem stmtLaws_names : StmtLaws Material.Proper (ExprNames features) (PartNames features) where
  empty {p} none depth := by
    cases p with
    | declared | stmt | handler => cases none
    | optional e | start e =>
      cases e with
      | none => exact Names.nil.loose
      | some e => cases none
    | fallback e | cleanup e =>
      cases e with
      | none => exact .nil
      | some e => cases none
    | stmts es | clauses es | fields es | methods es =>
      cases es with
      | nil => exact .nil
      | cons e es => cases none
  given named := named
  uninitialized proper _ := .bound (by decide) proper.2
  initialized {name e a} proper named depth := by
    have bound : Names features true ("auto " ++ binding name) [.bound name] := .bound (by decide) proper.2
    exact (bound.fix (by decide)).text (named depth)
  startDeclare named := named
  startExpr named := named
  declare named depth := names_ended (named depth)
  function proper listed named depth := names_lambda proper.2 (AllProper.isName listed) (named (depth + 1))
  classDecl proper held offered depth := names_class proper.2 (held (depth + 1)) (offered (depth + 1))
  importFile proper _ := names_import proper.1
  bareReturn _ := names_line (.fixed (by decide))
  ret named depth := names_returned (named depth)
  branch {_ _ a b} asked inner depth := by
    have whole : Names features false
        (line depth ("if (" ++ a depth ++ ") \x7b") ++ b (depth + 1) ++ line depth "\x7d") _ :=
      (names_branch (asked depth) (inner (depth + 1))).silent (names_line (.fixed (by decide)))
    simpa [Part.mentions, Part.isInline] using whole
  branchElse asked inner rest depth :=
    (names_branch (asked depth) (inner (depth + 1))).text (names_else (rest (depth + 1)))
  whileLoop asked inner depth :=
    names_blockText (.surrounded (by decide) (asked depth) (by decide)) (inner (depth + 1))
  forLoop started asked stepped inner depth :=
    names_blockText (names_forHead (started depth) (asked depth) (stepped depth)) (inner (depth + 1))
  switch asked cases last depth := names_blockText (.surrounded (by decide) (asked depth) (by decide))
    (Names.text (cases (depth + 1)) (last (depth + 1)))
  breakLoop _ := names_line (.fixed (by decide))
  continueLoop _ := names_line (.fixed (by decide))
  attempt tried caught last depth := by
    have opened : Names features false (line depth "try \x7b") [] := names_line (.fixed (by decide))
    have closing : Names features false (line depth "\x7d") [] := names_line (.fixed (by decide))
    exact (((opened.text (tried (depth + 1))).text (caught depth)).silent closing).text (last depth)
  expr named depth := names_ended (named depth)
  stmts first later depth := Names.text (first depth) (later depth)
  clauses {test body rest a b c} asked inner later depth := by
    have head : Names features false ("case " ++ a depth ++ ":") (test.mentions features) :=
      .surrounded (by decide) (asked depth) (by decide)
    exact (names_blockText head (inner (depth + 1))).text (later depth)
  fallback named depth := by
    have head : Names features false "default:" [] := .fixed (by decide)
    exact names_blockText head (named (depth + 1))
  rethrow depth := (names_catchAll depth).text (names_line (.fixed (by decide)))
  catchAll named depth := (names_catchAll depth).text (named (depth + 1))
  catchNamed proper named depth := names_caught proper.2 (named (depth + 1))
  cleanup named depth := names_cleanup (named (depth + 1))
  bareField {name rest a} proper later depth := by
    have here : Names features false (line depth ("int " ++ name ++ ";")) [.label name] :=
      names_line (.surrounded (by decide) (.label proper.2) (by decide))
    exact here.text (later depth)
  field proper inside named later depth :=
    (names_field proper.2 inside (named depth)).text (later depth)
  methods {name _ _ _ _ _ _} proper listed named later depth := by
    have headed : Names features true ("auto " ++ name) [.label name] :=
      (Names.fixed (by decide) : Names features false "auto " []).text (.label proper.2)
    exact (names_function headed (AllProper.isName listed) (named (depth + 1))).text (later depth)

theorem nameLaws : Laws features Material.Proper (ExprNames features) (ExprNames features)
    (PartNames features) :=
  ⟨exprLaws_names, stmtLaws_names, fun named => named⟩

theorem names_alone {s : Stmt} {text : String}
    (told : AloneOf Material.Proper (PartNames features) s text) :
    Names features false text (s.mentions features) := by
  cases told with
  | entry _ named => exact named 1
  | classDecl named => exact Names.fix (named 0) (by decide)
  | function proper listed named =>
    exact (names_function (.bound (by decide) proper.2) (AllProper.isName listed) (named 1)).fix (by decide)

theorem names_joined {body : List Stmt} {texts : List String}
    (told : List.Forall₂ (AloneOf Material.Proper (PartNames features)) body texts) :
    Names features false (String.join texts) (body.flatMap (Stmt.mentions features)) := by
  induction told with
  | nil => exact .nil
  | cons here _ ih =>
    rw [String.join_cons, List.flatMap_cons]
    exact (names_alone here).text ih

theorem names_mainOpening (features : Features) : Names features false (mainOpening features) [] := by
  have head : Names features false "int main(int argc, char *argv[]) \x7b\n" [] := .fixed (by decide)
  refine head.text ?_
  split
  · have first : Names features false (line 1 "QApplication app(argc, argv);") [] :=
      names_line (.fixed (by decide))
    exact first.text (names_line (.fixed (by decide)))
  · exact names_line (.fixed (by decide))

theorem names_mainClosing (features : Features) : Names features false (mainClosing features) [] := by
  have last : Names features false
      (line 1 (if features.gui then "return app.exec();" else "return 0;")) [] := by
    split
    · exact names_line (.fixed (by decide))
    · exact names_line (.fixed (by decide))
  exact last.fix (by decide)

theorem binding_eq_of_ne {x y : String} (first : x ≠ "riri_main") (second : y ≠ "riri_main")
    (same : binding x = binding y) : x = y := by
  unfold binding at same
  split at same
  · next main =>
    split at same
    · next alsoMain => rw [main, alsoMain]
    · exact absurd same.symm second
  · split at same
    · exact absurd same first
    · exact same

theorem binding_ne_main (x : String) : binding x ≠ "main" := by
  unfold binding
  split
  · decide
  · next other => exact other

end Emission

namespace Program

open Emission

def mentions (features : Features) (program : Program) : List Mention :=
  (program.declarations ++ program.entry).flatMap (Stmt.mentions features)

theorem names_of_emit {features : Features} {program : Program} {output : String}
    (proper : AllProper (Stmt.materialEach program)) (emitted : emit features program = .ok output) :
    ∃ rest, output = prelude features ++ rest ∧
      Names features false rest (program.mentions features) := by
  obtain ⟨units, texts, rfl, first, second⟩ := aloneOf_of_emit nameLaws proper emitted
  refine ⟨"\n" ++ String.join units ++
    (mainOpening features ++ String.join texts ++ mainClosing features), ?_, ?_⟩
  · simp only [layout, String.append_assoc]
  · have entry : Names features false
        (mainOpening features ++ String.join texts ++ mainClosing features) _ :=
      ((names_mainOpening features).text (names_joined second)).silent (names_mainClosing features)
    have apart : Names features false "\n" [] := .fixed (by decide)
    rw [mentions, List.flatMap_append]
    exact (apart.text (names_joined first)).text entry

/-- Behind the support text, the identifiers of an output are those that the program mentions, each in
its one spelling, and own words. Every parameter is bound in front of what is inside of its function,
unless a server leaves it out. Names are spelled apart from each other and from the entry point; nothing
is said here of a name that is already spelled like a renamed one. -/
theorem emit_names_consistent {text output : String} {features : Features} {program : Program}
    (read : ofText text = .ok program) (emitted : emit features program = .ok output) :
    ∃ rest words, output = prelude features ++ rest ∧ identifiers? rest.toList = some words ∧
      Worded features (program.mentions features) words ∧
      (∀ isArrow params inside, Mention.Occurs (.scope isArrow params inside) (program.mentions features) →
        ∀ param ∈ params, Mention.keeps features isArrow param = true →
          ∃ before type behind after, ∃ others : List String, type ∈ typeWords ∧
            words = before ++ type :: binding param :: (behind ++ after) ∧
            Worded features (others.map .bound ++ inside) behind) ∧
      (∀ x y, x ≠ "riri_main" → y ≠ "riri_main" → binding x = binding y → x = y) ∧
      ∀ x, binding x ≠ "main" := by
  have proper : AllProper (Stmt.materialEach program) := fun m present =>
    ⟨allFine_of_ofText read m present, legible_of_ofText read m present⟩
  obtain ⟨rest, split, ⟨segs, scanned, worded⟩, -⟩ := names_of_emit proper emitted
  have listed : identifiers? rest.toList = some (identifiers segs) := by
    rw [identifiers?, segments?_of_reads scanned]
    rfl
  refine ⟨rest, identifiers segs, split, listed, worded, ?_, ?_, binding_ne_main⟩
  · exact fun isArrow params inside occurs param present kept => worded.param_bound occurs present kept
  · exact fun x y first second => binding_eq_of_ne first second

-- `func main(next) { try { f(next); } catch (main) { print(main); } } let g = (req, next) => main(req);`
def renamed : Program :=
  [.function ⟨"main", ["next"], [.attempt [.expr (.call (.ident "f") [.ident "next"])]
      (some ⟨some "main", [.expr (.call (.ident "print") [.ident "main"])]⟩) none], false⟩,
    .declare "g" (some (.arrowValue ["req", "next"] (.call (.ident "main") [.ident "req"])))]

def renamedText : String :=
  "func main(next) \x7b try \x7b f(next); \x7d catch (main) \x7b print(main); \x7d \x7d " ++
    "let g = (req, next) => main(req);"

def renamedMentions : List Mention :=
  [.bound "main", .scope false ["next"] [.used "f", .used "next", .scope false ["main"] [.used "main"]],
    .bound "g", .scope true ["req", "next"] [.used "main", .used "req"]]

theorem emit_names_consistent_renamed : ∃ output rest words,
    ofText renamedText = .ok renamed ∧ emit ⟨false, true⟩ renamed = .ok output ∧
      output = prelude ⟨false, true⟩ ++ rest ∧ identifiers? rest.toList = some words ∧
      Worded ⟨false, true⟩ renamedMentions words ∧
      ∃ before type after, type ∈ typeWords ∧ words = before ++ type :: "next" :: after := by
  have read : ofText renamedText = .ok renamed := by with_unfolding_all rfl
  have accepted : (emit ⟨false, true⟩ renamed).isOk = true := by decide +kernel
  cases emitted : emit ⟨false, true⟩ renamed with
  | error e => simp [emitted, Except.isOk, Except.toBool] at accepted
  | ok output =>
    obtain ⟨rest, words, split, scanned, worded, bound, -, -⟩ := emit_names_consistent read emitted
    have told : mentions ⟨false, true⟩ renamed = renamedMentions := by rfl
    rw [told] at worded bound
    obtain ⟨before, type, behind, after, -, ok, whole, -⟩ :=
      bound false ["next"] _ (.later (.here _)) "next" (List.mem_singleton_self _) rfl
    exact ⟨output, rest, words, read, rfl, split, scanned, worded, before, type, behind ++ after, ok, whole⟩

-- `app.use((req, res, next) => { next(); });`
def middleware : Stmt :=
  .expr (.call (.member (.ident "app") "use")
    [.arrowBlock ["req", "res", "next"] [.expr (.call (.ident "next") [])]])

def middlewareText : String :=
  "    (app)->set_pre_routing_handler([&](const httplib::Request& req, httplib::Response& res) \x7b\n" ++
    "        next();\n        return httplib::Server::HandlerResponse::Unhandled;\n    \x7d);\n"

-- `let x; xs.pop(x);`
def surplus : Program := [.declare "x" none, .expr (.call (.member (.ident "xs") "pop") [.ident "x"])]

theorem next_unbound :
    (ofText "app.use((req, res, next) => \x7b next(); \x7d);" = .ok [middleware] ∧
      emit ⟨false, true⟩ [middleware] = .ok (layout ⟨false, true⟩ [] [middlewareText]) ∧
      identifiers? middlewareText.toList = some ["app", "set_pre_routing_handler", "const", "httplib",
        "Request", "req", "httplib", "Response", "res", "next", "return", "httplib", "Server",
        "HandlerResponse", "Unhandled"]) ∧
    ofText "let x; xs.pop(x);" = .ok surplus ∧
      emit ⟨false, false⟩ surplus =
        .ok (layout ⟨false, false⟩ [] ["    int x;\n", "    _riri_pop(xs);\n"]) := by
  have inside : declarations [middleware] = [] ∧ entry [middleware] = [middleware] := ⟨rfl, rfl⟩
  have told : alone ⟨false, true⟩ middleware = .ok middlewareText := by decide +kernel
  refine ⟨⟨by with_unfolding_all rfl, ?_, by decide +kernel⟩, by with_unfolding_all rfl, ?_⟩
  · rw [emit_eq_layout, inside.1, inside.2, List.mapM_nil, List.mapM_cons, told]
    rfl
  · rw [emit_eq_layout]
    rfl

end Program

end ScriptCpp
