import Mathlib
import ScriptCpp.Proofs.Emission.FormExposure
import ScriptCpp.Proofs.Emission.LexicalClosure

set_option autoImplicit false

namespace ScriptCpp

open Cpp

namespace Emission

section Texts

variable {features : Features} {depth : Nat} {exposed other last : Bool} {a b c name : String}
  {texts : List String} {object : Expr}

theorem chain_group {e : Expr} (h : Chain (e.exposed features) a) :
    Chain (e.groupedExposed features) (group e a) :=
  (chain_grouped h : Chain _ (piece e a).grouped)

theorem chain_operand {parent : Nat} {right : Bool} {e : Expr} (h : Chain exposed a) :
    ∃ other, Chain other (operand parent right e a) := by
  unfold operand
  split
  · exact ⟨_, .compact h.parenthesized⟩
  · exact ⟨_, h⟩

theorem chain_binary (op : BinaryOp) (left : Chain exposed a) (right : Chain other b) :
    Chain true (a ++ " " ++ op.symbol ++ " " ++ b) :=
  left.concat (List.mem_append_left _ (symbol_mem_dyadicSigns op)) right

theorem chain_assign (target : Chain exposed a) (value : Chain other b) :
    Chain true (a ++ " = " ++ b) := by
  have equals : "=".toList ∈ joints := by decide
  have split : " = " = " " ++ "=" ++ " " := by decide
  rw [split]
  simpa only [String.append_assoc] using target.concat equals value

theorem compact_negate (h : Chain exposed a) : Compact ("(-" ++ a ++ ")") := by
  obtain ⟨x, stands, -⟩ := h.negated
  have split : "(-" = "(" ++ "-" := by decide
  rw [split]
  exact (by simpa only [String.append_assoc] using stands.parenthesized :
    Stands ('.' :: endings) 10 ("(" ++ "-" ++ a ++ ")") x).compact (by omega)

theorem compact_conditional (test : Chain exposed a) (consequent : Chain other b)
    (alternate : Chain last c) : Compact ("(" ++ a ++ " ? " ++ b ++ " : " ++ c ++ ")") := by
  obtain ⟨x, asked, -⟩ := test.stands
  obtain ⟨y, yes, -⟩ := consequent.stands
  obtain ⟨z, no, -⟩ := alternate.stands
  obtain ⟨w, whole⟩ := asked.choose yes no
  have grouped : Stands ('.' :: endings) 10 ("(" ++ (a ++ " ? " ++ b ++ " : " ++ c) ++ ")") w :=
    whole.parenthesized
  simp only [String.append_assoc] at grouped ⊢
  exact grouped.compact (by omega)

theorem chain_memberText (named : IsName name) (h : Chain (object.exposed features) a) :
    Chain ((Expr.member object name).exposed features) (memberText features object name a) := by
  have target := chain_group h
  have behind {text : String} (point : pointed features object name = true)
      (chain : Chain (object.groupedExposed features) text) :
      Chain ((Expr.member object name).exposed features) text := by
    rwa [Expr.exposed, point, Bool.true_and]
  simp only [memberText]
  split
  · next params =>
    exact behind (by simp_all [pointed]) (chain_field "path_params" _ target (by decide) (by decide))
  · split
    · next query =>
      exact behind (by simp_all [pointed]) (chain_field "params" _ target (by decide) (by decide))
    · next params query =>
      cases shape : ReceiverShape.ofAccess features object name with
      | value =>
        refine behind (by simp [pointed, shape]) ?_
        dsimp only
        split
        · exact chain_method "size" _ target (by decide) (by decide)
        · exact chain_dot target named
      | reference | unknown =>
        have away : (Expr.member object name).exposed features = false := by
          simp_all [pointed]
        rw [away]
        exact .compact (compact_pointer h.readable named)

theorem chain_indexText (h : Chain (object.exposed features) a) (key : Readable b) (chosen : Expr) :
    Chain ((Expr.index object chosen).exposed features) (indexText features object a b) := by
  have target := chain_group h
  have helper (name before : String) (path : IsPath name.toList) (split : before = name ++ "(")
      (found : lookedUp features object = true) :
      Chain ((Expr.index object chosen).exposed features)
        (before ++ group object a ++ ", " ++ b ++ ")") := by
    have whole := compact_wrapped name path split
      (List.forall_mem_cons.mpr ⟨target.readable, List.forall_mem_singleton.mpr key⟩)
    rw [commas_cons, commas_singleton] at whole
    rw [Expr.exposed, found, Bool.not_true, Bool.false_and]
    exact .compact (by simpa only [String.append_assoc] using whole)
  simp only [indexText]
  split
  · next params => exact helper "_riri_get_param" _ (by decide) (by decide) (by simp_all [lookedUp])
  · split
    · next query => exact helper "_riri_get_query" _ (by decide) (by decide) (by simp_all [lookedUp])
    · next params query =>
      have plain : lookedUp features object = false := by
        simp_all [lookedUp]
      rw [Expr.exposed, plain, Bool.not_false, Bool.true_and]
      exact target.index key

theorem compact_construct (inner : IsPath name.toList) (each : ∀ text ∈ texts, Readable text) :
    Compact ("std::make_shared<" ++ name ++ ">(" ++ commas texts ++ ")") := by
  have path : IsPath "std::make_shared".toList := by decide
  have known : "std::make_shared".toList ∈ templates := by decide
  have callee : Compact ("std::make_shared" ++ "<" ++ name ++ ">") :=
    (Stands.template known path inner).compact (by omega)
  obtain ⟨xs, lists⟩ := lists_of_readable each
  have opening : "std::make_shared<" = "std::make_shared" ++ "<" := by decide
  have closing : ">(" = ">" ++ "(" := by decide
  rw [opening, closing]
  simpa only [String.append_assoc] using callee.call lists

theorem compact_server : Compact "std::make_shared<httplib::Server>()" := by
  have path : IsPath "httplib::Server".toList := by decide
  have same : "std::make_shared<httplib::Server>()" =
      "std::make_shared<" ++ "httplib::Server" ++ ">(" ++ commas [] ++ ")" := by decide
  rw [same]
  exact compact_construct path (List.forall_mem_nil Readable)

theorem compact_await (h : Chain exposed a) : Compact ("await_result(" ++ a ++ ")") := by
  have whole := compact_wrapped "await_result" (by decide) rfl
    (List.forall_mem_singleton.mpr h.readable)
  rwa [commas_singleton] at whole

theorem compact_array {type : String} (path : IsPath type.toList)
    (each : ∀ text ∈ texts, Readable text) :
    Compact ("std::vector<" ++ type ++ ">\x7b" ++ commas texts ++ "\x7d") := by
  have known : "std::vector".toList ∈ templates := by decide
  obtain ⟨xs, lists⟩ := lists_of_readable each
  have whole : Compact ("std::vector" ++ "<" ++ type ++ ">" ++ "\x7b" ++ commas texts ++ "\x7d") :=
    (Stands.build known (by decide) path lists).compact (by omega)
  have opening : "std::vector<" = "std::vector" ++ "<" := by decide
  have closing : ">\x7b" = ">" ++ "\x7b" := by decide
  rw [opening, closing]
  simpa only [String.append_assoc] using whole

theorem compact_number {value : Binary64} (unsigned : value.Unsigned) : Compact value.text := by
  rcases unsigned with ⟨significand, exponent, rfl⟩ | rfl
  · obtain ⟨c, cs, spelled, digit, others⟩ := (Binary64.shortest significand exponent).text_chars
    refine .inl ⟨c, cs, by simpa [Binary64.text] using spelled, digit, fun d among => ?_⟩
    rcases others d among with digit | rfl
    · simp [isNumberPart, Token.isNamePart, Char.isAlphanum, digit]
    · rfl
  · exact (Stands.word (by decide)).compact (by omega)

theorem compact_arrowText {params : List String} {p : List Segment} (fine : AllFine (params.map .name))
    (body : Closed a p) : Compact (arrowText features depth params a) := by
  have newline : Closed "\n" [] := Scans.fixed (by decide)
  have inner : Closed (a ++ unhandled features params (depth + 1)) p :=
    body.word (closed_unhandled features params (depth + 1))
  have inside := (newline.append inner).word (closed_indentation depth)
  have given : Closed (arrowParameters features params) [] := closed_arrowParameters fine
  obtain ⟨x, stands⟩ : ∃ x, Stands ('.' :: endings) 10 _ x := Stands.lambda given inside
  have split : ") \x7b\n" = ") \x7b" ++ "\n" := by decide
  unfold arrowText
  rw [split]
  simp only [String.append_assoc] at stands ⊢
  exact stands.compact (by omega)

end Texts

theorem methodText_parts {callee : Expr} (args : List Expr) (proper : AllProper callee.material) :
    ∀ c ∈ (⟨callee, args⟩ : CallSite).methodText.toList, Token.isNamePart c = true := by
  unfold CallSite.methodText CallSite.method?
  cases callee with
  | member object name =>
    rw [Expr.material, allProper_append] at proper
    exact (proper.2 _ (List.mem_singleton_self _)).1
  | _ => exact List.forall_mem_nil _

theorem isPath_elementType (elements : List Expr) : IsPath (elementType elements).toList := by
  unfold elementType
  split <;> decide

-- A chain of compact texts is also closed; the texts in an arrow function are only that.
def ExprChains (features : Features) (e : Expr) (a : Draft) : Prop :=
  ExprClosed features e a ∧ ∀ depth, Chain (e.exposed features) (a depth)

section Calls

variable {features : Features} {callee : Expr} {args : List Expr} {ps : List (Nat → Piece)}

theorem ExprChains.pieces (each : List.Forall₂ (PieceOf (ExprChains features)) args ps) :
    List.Forall₂ (PieceOf (ExprClosed features)) args ps :=
  each.imp fun _ _ written => written.imp fun _ chains => chains.1

theorem ExprChains.head {site : CallSite} {kind : FormHead} {head : Nat → Piece}
    (text : HeadOf (ExprChains features) site kind head) : HeadOf (ExprClosed features) site kind head :=
  text.imp fun _ _ chains => chains.1

theorem all_chain (each : List.Forall₂ (PieceOf (ExprChains features)) args ps) (depth : Nat) :
    ∀ piece ∈ ps.map (· depth), ∃ exposed, Chain exposed piece.text := by
  induction each with
  | nil => simp
  | cons here _ ih =>
    obtain ⟨a, chains, rfl⟩ := here
    exact List.forall_mem_cons.mpr ⟨⟨_, chains.2 depth⟩, ih⟩

theorem chain_head {kind : FormHead} {head : Nat → Piece} (depth : Nat)
    (text : HeadOf (ExprChains features) ⟨callee, args⟩ kind head) :
    (kind = .callee → Chain (callee.exposed features) (head depth).text) ∧
      (kind = .receiver → Readable (head depth).text ∧
        Chain (callee.receiverExposed features) (head depth).grouped) := by
  cases text with
  | none => simp
  | callee own =>
    obtain ⟨a, chains, rfl⟩ := own
    exact ⟨fun _ => chains.2 depth, by simp⟩
  | receiver called own =>
    obtain ⟨a, chains, rfl⟩ := own
    refine ⟨by simp, fun _ => ⟨(chains.2 depth).readable, ?_⟩⟩
    cases callee with
    | member | index =>
      cases called
      exact chain_group (chains.2 depth)
    | _ => cases called

end Calls

theorem exprLaws_chains {features : Features} :
    ExprLaws features Material.Proper (ExprChains features) (PartScans features) := by
  have closed : ExprLaws features Material.Proper (ExprClosed features) (PartScans features) :=
    exprLaws_closed fun _ proper => proper.1
  exact {
    assign := fun first second =>
      ⟨closed.assign first.1 second.1, fun depth => chain_assign (first.2 depth) (second.2 depth)⟩
    binary := fun op _ _ _ _ first second => ⟨closed.binary op first.1 second.1, fun depth => by
      obtain ⟨_, l⟩ := chain_operand (first.2 depth)
      obtain ⟨_, r⟩ := chain_operand (second.2 depth)
      exact chain_binary op l r⟩
    negate := fun inner =>
      ⟨closed.negate inner.1, fun depth => .compact (compact_negate (chain_group (inner.2 depth)))⟩
    conditional := fun first second third => ⟨closed.conditional first.1 second.1 third.1, fun depth =>
      .compact (compact_conditional (first.2 depth) (second.2 depth) (third.2 depth))⟩
    plainCall := fun plain own each =>
      ⟨closed.plainCall plain own.1 (ExprChains.pieces each), fun depth => by
        rw [Expr.exposed, plain]
        exact (own.2 depth).call (readable_texts (all_chain each depth))⟩
    formCall := fun found enough proper text each =>
      ⟨closed.formCall found enough proper (ExprChains.head text) (ExprChains.pieces each), fun depth => by
        rw [Expr.exposed, found]
        obtain ⟨own, object⟩ := chain_head depth text
        refine SpecialForm.chains_of_find? found ⟨(SpecialForm.mem_table_of_find? found).2,
          methodText_parts _ proper, own, object, all_chain each depth, enough, ?_⟩
        rw [List.length_map, each.length_eq]⟩
    member := fun proper inner =>
      ⟨closed.member proper inner.1, fun depth => chain_memberText proper.2 (inner.2 depth)⟩
    index := fun first second => ⟨closed.index first.1 second.1, fun depth =>
      chain_indexText (first.2 depth) (second.2 depth).readable _⟩
    server := ⟨closed.server, fun _ => .compact compact_server⟩
    construct := fun other proper each =>
      ⟨closed.construct other proper (ExprChains.pieces each), fun depth => .compact
        (compact_construct (IsName.isPath proper.2) (readable_texts (all_chain each depth)))⟩
    array := fun each => ⟨closed.array (ExprChains.pieces each), fun depth => .compact
      (compact_array (isPath_elementType _) (readable_texts (all_chain each depth)))⟩
    ident := fun proper => ⟨closed.ident proper, fun _ =>
      .compact ((Stands.word (isName_reference proper.2).isPath).compact (by omega))⟩
    number := fun proper => ⟨closed.number proper, fun _ => .compact (compact_number (proper.2 _ rfl))⟩
    string := fun proper => ⟨closed.string proper, fun _ => .compact (compact_string proper.1)⟩
    this := ⟨closed.this, fun _ => .compact
      ((Stands.word (by decide : IsPath "this".toList)).compact (by omega))⟩
    await := fun inner => ⟨closed.await inner.1, fun depth => .compact (compact_await (inner.2 depth))⟩
    arrowBlock := fun listed body => ⟨closed.arrowBlock listed body, fun depth => .compact
      (compact_arrowText (fun m own => (listed m own).1) (body (depth + 1)))⟩
    arrowValue := fun listed inner => ⟨closed.arrowValue listed inner.1, fun depth => .compact
      (compact_arrowText (fun m own => (listed m own).1) (closed_returned (inner.1 (depth + 1))))⟩ }

theorem exprChains_laws {features : Features} : Laws features Material.Proper (ExprChains features)
    (ExprClosed features) (PartScans features) :=
  ⟨exprLaws_chains, stmtLaws_scans fun _ proper => proper.1, fun chains => chains.1⟩

theorem expr_chain {features : Features} {depth : Nat} {e : Expr} {text : String}
    (proper : AllProper e.material) (written : expr features depth e = .ok text) :
    Chain (e.exposed features) text := by
  obtain ⟨a, chains, rfl⟩ := (expr_settled exprChains_laws e proper).of_outcome written
  exact chains.2 depth

end Emission

end ScriptCpp
