import Mathlib
import ScriptCpp.Proofs.Binary64.Printing
import ScriptCpp.Proofs.Emission.FormText
import ScriptCpp.Proofs.Emission.Settling
import ScriptCpp.Proofs.Parsing.Fine

set_option autoImplicit false

namespace ScriptCpp

open Cpp

namespace Emission

section Texts

variable {text a b : String} {p q r : List Segment} {s t : List Char} {depth : Nat}

theorem closed_name (fine : Material.Fine (.name text)) : Closed text [] :=
  Closed.plain fun c present => isPlain_of (p := Token.isNamePart) (by decide) (fine c present)

theorem closed_binding (fine : Material.Fine (.name text)) : Closed (binding text) [] := by
  unfold binding
  split
  · exact Scans.fixed (by decide)
  · exact closed_name fine

theorem closed_reference (fine : Material.Fine (.name text)) : Closed (reference text) [] := by
  unfold reference
  split
  · exact Scans.fixed (by decide)
  · exact closed_binding fine

theorem closed_indentation (depth : Nat) : Closed (indentation depth) [] := by
  induction depth with
  | zero => exact Closed.nil
  | succ depth ih => exact (Scans.fixed (by decide) : Closed "    " []).append ih

theorem scans_line (h : Scans text p s t) : Scans (line depth text) p s t := by
  have indented := ((closed_indentation depth).frame s).append h
  exact indented.word (Scans.fixed (by decide))

theorem closing_scans (depth : Nat) : Scans (line depth "\x7d") [] ['\x7b'] [] :=
  scans_line (Scans.fixed (by decide))

theorem closed_blockText (head : Closed a p) (body : Closed b q) :
    Closed (blockText depth a b) (p ++ q) := by
  have opened : Scans (a ++ " \x7b") p [] ['\x7b'] := head.fix (by decide)
  exact ((scans_line opened).text body).silent (closing_scans depth)

theorem closed_number (value : Binary64) : Closed value.text [] := by
  cases value with
  | nan => exact Scans.fixed (by decide)
  | infinite negative => cases negative <;> exact Scans.fixed (by decide)
  | finite negative m e =>
    obtain ⟨c, cs, spelled, first, others⟩ := (Binary64.shortest m e).text_chars
    have digits : Closed (Binary64.shortest m e).text [] := by
      refine Closed.plain fun d present => isPlain_of (p := fun d => d.isDigit || d == '.') (by decide) ?_
      rw [spelled] at present
      rcases List.mem_cons.mp present with rfl | later
      · simp [first]
      · simpa using others d later
    cases negative with
    | true => exact (Scans.fixed (by decide) : Closed "-" []).append digits
    | false => exact Closed.nil.append digits

theorem closed_group {e : Expr} (h : Closed text p) : Closed (group e text) p :=
  closed_piece_grouped h

theorem closed_operand {parent : Nat} {right : Bool} {e : Expr} (h : Closed text p) :
    Closed (operand parent right e text) p := by
  unfold operand
  split
  · exact h.parenthesized
  · exact h

theorem closed_indexText {features : Features} {object : Expr} (h : Closed a p) (key : Closed b q) :
    Closed (indexText features object a b) (p ++ q) := by
  have target : Closed (group object a) p := closed_group h
  have helper : ∀ name, turns name [] ['('] = true →
      Closed (name ++ group object a ++ ", " ++ b ++ ")") (p ++ q) := fun name ok =>
    ((((Scans.fixed ok).text target).fix (u := ['(']) (by decide)).text key).fix (by decide)
  simp only [indexText]
  split
  · exact helper "_riri_get_param(" (by decide)
  · split
    · exact helper "_riri_get_query(" (by decide)
    · exact ((target.fix (u := ['[']) (by decide)).text key).fix (by decide)

theorem closed_memberText {features : Features} {object : Expr} (fine : Material.Fine (.name b))
    (h : Closed a p) : Closed (memberText features object b a) p := by
  have target : Closed (group object a) p := closed_group h
  have pointer : Closed ("(" ++ a ++ ")->" ++ b) p :=
    (((Scans.fixed (t := ['(']) (by decide)).text h).fix (by decide)).word (closed_name fine)
  simp only [memberText]
  split
  · exact target.fix (by decide)
  · split
    · exact target.fix (by decide)
    · split
      · split
        · exact target.fix (by decide)
        · exact (target.fix (by decide)).word (closed_name fine)
      · exact pointer
      · exact pointer

theorem closed_commas_silent {texts : List String} (each : ∀ text ∈ texts, Closed text []) :
    Closed (commas texts) [] := by
  have silent : List.Forall₂ Closed texts (texts.map fun _ => []) := by
    rw [List.forall₂_map_right_iff, List.forall₂_same]
    exact each
  simpa using closed_commas silent

theorem closed_parameters {params : List String} (fine : AllFine (params.map .name)) :
    Closed (parameters params) [] := by
  refine closed_commas_silent fun text present => ?_
  obtain ⟨name, among, rfl⟩ := List.mem_map.mp present
  exact (Scans.fixed (by decide) : Closed "auto " []).word
    (closed_binding (fine _ (List.mem_map_of_mem among)))

theorem closed_arrowParameters {features : Features} {params : List String}
    (fine : AllFine (params.map .name)) : Closed (arrowParameters features params) [] := by
  refine closed_commas_silent fun text present => ?_
  obtain ⟨name, among, rfl⟩ := List.mem_map.mp present
  have own := closed_binding (fine _ (List.mem_map_of_mem (List.mem_of_mem_filter among)))
  split
  · exact Scans.fixed (by decide)
  · split
    · exact Scans.fixed (by decide)
    · exact (Scans.fixed (by decide) : Closed "auto " []).word own

theorem closed_unhandled (features : Features) (params : List String) (depth : Nat) :
    Closed (unhandled features params depth) [] := by
  unfold unhandled
  split
  · exact scans_line (Scans.fixed (by decide))
  · exact Closed.nil

theorem closed_arrowText {features : Features} {params : List String}
    (fine : AllFine (params.map .name)) (body : Closed text p) :
    Closed (arrowText features depth params text) p := by
  have opened : Scans ("[&](" ++ arrowParameters features params ++ ") \x7b\n") [] [] ['\x7b'] :=
    ((Scans.fixed (t := ['(']) (by decide)).word (closed_arrowParameters fine)).fix
      (by decide)
  have whole : Closed (text ++ unhandled features params (depth + 1)) p :=
    body.word (closed_unhandled features params (depth + 1))
  exact ((opened.text whole).word (closed_indentation depth)).fix (by decide)

theorem closed_elementType (elements : List Expr) : Closed (elementType elements) [] := by
  unfold elementType
  split
  · exact Scans.fixed (by decide)
  · exact Scans.fixed (by decide)

theorem closed_fieldType {e : Expr} (fine : AllFine e.material) : Closed (fieldType e) [] := by
  unfold fieldType
  split
  · exact Scans.fixed (by decide)
  · exact ((Scans.fixed (t := []) (by decide)).word (closed_elementType _)).fix (by decide)
  · next className args =>
    rw [Expr.material, allFine_cons] at fine
    split
    · exact Scans.fixed (by decide)
    · exact ((Scans.fixed (t := []) (by decide)).word (closed_name fine.1)).fix (by decide)
  · exact Scans.fixed (by decide)
  · exact Scans.fixed (by decide)
  · split
    · split
      · exact Scans.fixed (by decide)
      · exact Scans.fixed (by decide)
    · exact Scans.fixed (by decide)

end Texts

theorem closed_methodText {callee : Expr} {args : List Expr} (fine : AllFine callee.material) :
    Closed (⟨callee, args⟩ : CallSite).methodText [] := by
  unfold CallSite.methodText CallSite.method?
  cases callee with
  | member object name =>
    rw [Expr.material, allFine_append] at fine
    exact closed_name (fine.2 _ (List.mem_singleton_self _))
  | _ => exact Closed.nil

section Operators

variable {a b c : String} {p q r : List Segment}

-- A slash is quiet only together with the blanks around it.
theorem closed_binary (op : BinaryOp) (left : Closed a p) (right : Closed b q) :
    Closed (a ++ " " ++ op.symbol ++ " " ++ b) (p ++ q) := by
  have sign : Closed (" " ++ (op.symbol ++ " ")) [] := by
    cases op <;> exact Scans.fixed (by decide)
  have whole : Closed (a ++ (" " ++ (op.symbol ++ " ")) ++ b) (p ++ q) := (left.word sign).text right
  simpa only [String.append_assoc] using whole

theorem closed_conditional (test : Closed a p) (consequent : Closed b q) (alternate : Closed c r) :
    Closed ("(" ++ a ++ " ? " ++ b ++ " : " ++ c ++ ")") (p ++ q ++ r) := by
  have asked : Scans ("(" ++ a ++ " ? ") p [] ['('] :=
    ((Scans.fixed (t := ['(']) (by decide)).text test).fix (by decide)
  have either : Scans ("(" ++ a ++ " ? " ++ b ++ " : ") (p ++ q) [] ['('] :=
    (asked.text consequent).fix (by decide)
  exact (either.text alternate).fix (by decide)

end Operators

section Statements

variable {depth : Nat} {p q r : List Segment}

theorem closed_comment {text : String} (inline : '\n' ∉ text.toList) :
    Closed (line depth ("//" ++ text)) [.comment text.toList] := by
  have whole := (closed_indentation depth).append (Closed.comment inline)
  simpa only [line, String.append_assoc, List.nil_append] using whole

theorem closed_import {path : String} (closed : Token.StringBody path.toList) :
    Closed (line depth ("// import \"" ++ path ++ "\""))
      [.comment (" import \"" ++ path ++ "\"").toList] := by
  have parts : "// import \"" = "//" ++ " import \"" := by decide
  have inline : '\n' ∉ (" import \"" ++ path ++ "\"").toList := by
    have own := closed.inline
    simp [String.toList_append, own]
  have joined : "// import \"" ++ path ++ "\"" = "//" ++ (" import \"" ++ path ++ "\"") := by
    rw [parts, String.append_assoc, String.append_assoc, String.append_assoc]
  rw [joined]
  exact closed_comment inline

theorem scans_branch {test body : String} (asked : Closed test p) (inner : Closed body q) :
    Scans (line depth ("if (" ++ test ++ ") \x7b") ++ body) (p ++ q) [] ['\x7b'] := by
  have head : Scans ("if (" ++ test ++ ") \x7b") p [] ['\x7b'] :=
    ((Scans.fixed (t := ['(']) (by decide)).text asked).fix (by decide)
  exact (scans_line head).text inner

theorem scans_else {body : String} (inner : Closed body p) :
    Scans (line depth "\x7d else \x7b" ++ body ++ line depth "\x7d") p ['\x7b'] [] := by
  have reopened : Scans (line depth "\x7d else \x7b") [] ['\x7b'] ['\x7b'] :=
    scans_line (Scans.fixed (by decide))
  exact (reopened.text inner).silent (closing_scans depth)

theorem closed_returned {text : String} (h : Closed text p) :
    Closed (line depth ("return " ++ text ++ ";")) p :=
  scans_line (((Scans.fixed (t := []) (by decide)).text h).fix (by decide))

theorem closed_ended {text : String} (h : Closed text p) : Closed (line depth (text ++ ";")) p :=
  scans_line (h.fix (by decide))

theorem closed_headed {head text : String} (ok : turns head [] ['('] = true) (h : Closed text p) :
    Closed (head ++ text ++ ")") p :=
  ((Scans.fixed ok).text h).fix (by decide)

theorem closed_function {name text : String} {params : List String} (named : Closed name [])
    (fine : AllFine (params.map .name)) (closed : Closed text p) :
    Closed (blockText depth ("auto " ++ name ++ "(" ++ parameters params ++ ")") text) p := by
  have called : Scans ("auto " ++ name ++ "(") [] [] ['('] :=
    ((Scans.fixed (t := []) (by decide)).word named).fix (by decide)
  have head : Closed ("auto " ++ name ++ "(" ++ parameters params ++ ")") [] :=
    (called.word (closed_parameters fine)).fix (by decide)
  exact closed_blockText head closed

theorem closed_lambda {name text : String} {params : List String}
    (named : Material.Fine (.name name)) (fine : AllFine (params.map .name)) (closed : Closed text p) :
    Closed (line depth ("auto " ++ binding name ++ " = [&](" ++ parameters params ++ ") \x7b") ++
      text ++ line depth "\x7d;") p := by
  have called : Scans ("auto " ++ binding name ++ " = [&](") [] [] ['('] :=
    ((Scans.fixed (t := []) (by decide)).word (closed_binding named)).fix (by decide)
  have head : Scans ("auto " ++ binding name ++ " = [&](" ++ parameters params ++ ") \x7b")
      [] [] ['\x7b'] := (called.word (closed_parameters fine)).fix (by decide)
  have closing : Scans (line depth "\x7d;") [] ['\x7b'] [] := scans_line (Scans.fixed (by decide))
  exact ((scans_line head).text closed).silent closing

theorem closed_field {name text : String} {value : Expr} (named : Material.Fine (.name name))
    (fine : AllFine value.material) (closed : Closed text p) :
    Closed (line depth (fieldType value ++ " " ++ name ++ " = " ++ text ++ ";")) p := by
  have head : Closed (fieldType value ++ " " ++ name) [] :=
    (Scans.fix (u := []) (closed_fieldType fine) (by decide)).word (closed_name named)
  have given : Closed (fieldType value ++ " " ++ name ++ " = " ++ text) p :=
    (Scans.fix (u := []) head (by decide)).text closed
  exact scans_line (given.fix (by decide))

theorem catchAll_scans (depth : Nat) :
    Scans (line depth "\x7d catch (...) \x7b") [] ['\x7b'] ['\x7b'] :=
  scans_line (Scans.fixed (by decide))

theorem closed_cleanup {text : String} (closed : Closed text p) :
    Closed (line depth "\x7b" ++ line (depth + 1) "// finally" ++ text ++ line depth "\x7d")
      ([.comment " finally".toList] ++ p) := by
  have opened : Scans (line depth "\x7b") [] [] ['\x7b'] := scans_line (Scans.fixed (by decide))
  have parts : "// finally" = "//" ++ " finally" := by decide
  have marked : Closed (line (depth + 1) "// finally") [.comment " finally".toList] := by
    rw [parts]
    exact closed_comment (by decide)
  exact ((opened.text marked).text closed).silent (closing_scans depth)

theorem closed_class {name fields methods : String} (named : Material.Fine (.name name))
    (held : Closed fields p) (offered : Closed methods q) :
    Closed (line depth ("struct " ++ name ++ " \x7b") ++ (fields ++ methods) ++ line depth "\x7d;")
      (p ++ q) := by
  have head : Scans ("struct " ++ name ++ " \x7b") [] [] ['\x7b'] :=
    ((Scans.fixed (t := []) (by decide)).word (closed_name named)).fix (by decide)
  have closing : Scans (line depth "\x7d;") [] ['\x7b'] [] := scans_line (Scans.fixed (by decide))
  exact ((scans_line head).text (held.append offered)).silent closing

theorem closed_forHead {start test update : String} (started : Closed start p) (asked : Closed test q)
    (stepped : Closed update r) :
    Closed ("for (" ++ start ++ "; " ++ test ++ "; " ++ update ++ ")") (p ++ q ++ r) := by
  have head : Scans ("for (" ++ start ++ "; ") p [] ['('] :=
    ((Scans.fixed (t := ['(']) (by decide)).text started).fix (by decide)
  have clauses : Scans ("for (" ++ start ++ "; " ++ test ++ "; ") (p ++ q) [] ['('] :=
    (head.text asked).fix (by decide)
  exact (clauses.text stepped).fix (by decide)

end Statements

end Emission

end ScriptCpp
