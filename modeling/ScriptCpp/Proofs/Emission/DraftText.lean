import Mathlib
import ScriptCpp.Proofs.Binary64.Printing
import ScriptCpp.Proofs.Emission.Draft
import ScriptCpp.Proofs.Emission.Settling
import ScriptCpp.Proofs.Lexing.Seam
import ScriptCpp.Proofs.Parsing.Fine

set_option autoImplicit false

namespace ScriptCpp

open Cpp

namespace Material

def text : Material → String
  | .name text => text
  | .quoted raw => raw
  | .numeral _ | .operator _ => ""

def Sound {features : Features} (v : Vocabulary features) (m : Material) : Prop :=
  m.Fine ∧ WordsIn v.allows m.text

end Material

def AllSound {features : Features} (v : Vocabulary features) (ms : List Material) : Prop :=
  ∀ m ∈ ms, m.Sound v

section Material

variable {features : Features} {v : Vocabulary features} {m : Material} {ms ns : List Material}

theorem allSound_append : AllSound v (ms ++ ns) ↔ AllSound v ms ∧ AllSound v ns :=
  List.forall_mem_append

theorem allSound_cons : AllSound v (m :: ms) ↔ m.Sound v ∧ AllSound v ms :=
  List.forall_mem_cons

end Material

namespace Emission

variable {features : Features} {v : Vocabulary features}

section Texts

variable {a b c : Nat → String} {name : String} {params : List String}

theorem inline_name (sound : Material.Sound v (.name name)) : Inline v fun _ => name := by
  apply Inline.constant
  · intro newline
    exact absurd (sound.1 '\n' newline) (by decide)
  · exact sound.2

theorem inline_quoted (sound : Material.Sound v (.quoted name)) : Inline v fun _ => name :=
  Inline.constant sound.1.inline sound.2

theorem inline_helper (known : name ∈ Prelude.helpers features) : Inline v fun _ => name := by
  have spelled := (Prelude.helper_spelled (.inl known)).2
  apply Inline.constant
  · intro newline
    exact absurd (spelled '\n' newline) (by decide)
  · intro w word
    rw [word.eq_of_all spelled]
    exact v.helper name known

theorem inline_binding (sound : Material.Sound v (.name name)) : Inline v fun _ => binding name := by
  unfold binding
  split
  · exact Inline.fixed (by decide)
  · exact inline_name sound

theorem inline_reference (sound : Material.Sound v (.name name)) :
    Inline v fun _ => reference name := by
  unfold reference
  split
  · exact Inline.fixed (by decide)
  · exact inline_binding sound

theorem inline_number (value : Binary64) : Inline v fun _ => value.text := by
  apply Inline.fixed
  cases value with
  | nan => decide
  | infinite negative => cases negative <;> decide
  | finite negative m e =>
    obtain ⟨c, cs, spelled, first, others⟩ := (Binary64.shortest m e).text_chars
    have chars : ∀ d ∈ (Binary64.finite negative m e).text.toList, d ≠ '\n' ∧ d ≠ '_' := by
      have digit : ∀ d : Char, d.isDigit = true → d ≠ '\n' ∧ d ≠ '_' := by
        rintro d isDigit
        constructor
        · rintro rfl
          exact absurd isDigit (by decide)
        · rintro rfl
          exact absurd isDigit (by decide)
      have magnitude : ∀ d ∈ (Binary64.shortest m e).text.toList, d ≠ '\n' ∧ d ≠ '_' := by
        rw [spelled]
        intro d present
        rcases List.mem_cons.mp present with rfl | later
        · exact digit d first
        · rcases others d later with isDigit | rfl
          · exact digit d isDigit
          · decide
      intro d present
      cases negative with
      | true =>
        rcases List.mem_append.mp (String.toList_append ▸ present) with sign | own
        · obtain rfl : d = '-' := by simpa using sign
          decide
        · exact magnitude d own
      | false => exact magnitude d (by simpa [Binary64.text] using present)
    apply isPlain_iff.mpr
    constructor
    · intro newline
      exact (chars '\n' newline).1 rfl
    · intro marked
      exact (chars '_' (marked.subset (by decide))).2 rfl

theorem Inline.parenthesized (h : Inline v a) : Inline v fun depth => "(" ++ a depth ++ ")" :=
  ((Leading.fixed (by decide)).text h).fix (by decide)

theorem inline_group {e : Expr} (h : Inline v a) : Inline v fun depth => group e (a depth) := by
  cases loose : isLoose e with
  | true =>
    simp only [group, piece, Piece.grouped, loose]
    exact h.parenthesized
  | false =>
    simp only [group, piece, Piece.grouped, loose]
    exact h

theorem inline_operand {parent : Nat} {right : Bool} {e : Expr} (h : Inline v a) :
    Inline v fun depth => operand parent right e (a depth) := by
  unfold operand
  split
  · exact h.parenthesized
  · exact h

theorem inline_binary (op : BinaryOp) (left : Inline v a) (right : Inline v b) :
    Inline v fun depth => a depth ++ " " ++ op.symbol ++ " " ++ b depth := by
  have sign : parts (" " ++ (op.symbol ++ " ")) = true := by cases op <;> decide
  have whole := (left.apart sign).text right
  simpa only [String.append_assoc] using whole

theorem inline_conditional (test : Inline v a) (consequent : Inline v b) (alternate : Inline v c) :
    Inline v fun depth => "(" ++ a depth ++ " ? " ++ b depth ++ " : " ++ c depth ++ ")" := by
  have asked := ((Leading.fixed (s := "(") (by decide)).text test).apart (s := " ? ") (by decide)
  have either := (asked.text consequent).apart (s := " : ") (by decide)
  exact (either.text alternate).fix (by decide)

theorem inline_intercalate {s : String} (ok : parts s = true) {texts : List (Nat → String)}
    (each : ∀ t ∈ texts, Inline v t) :
    Inline v fun depth => s.intercalate (texts.map fun t => t depth) := by
  induction texts with
  | nil => exact Inline.fixed (by decide)
  | cons t texts ih =>
    obtain ⟨first, later⟩ := List.forall_mem_cons.mp each
    cases texts with
    | nil => simpa [String.intercalate_singleton] using first
    | cons u texts =>
      simp only [List.map_cons, String.intercalate_cons_cons]
      exact (first.apart ok).text (ih later)

theorem inline_commas {texts : List (Nat → String)} (each : ∀ t ∈ texts, Inline v t) :
    Inline v fun depth => commas (texts.map fun t => t depth) :=
  inline_intercalate (by decide) each

theorem inline_listed {texts : List String} (each : ∀ text ∈ texts, Inline v fun _ => text) :
    Inline v fun _ => commas texts := by
  have fixed : ∀ t ∈ texts.map (fun text (_ : Nat) => text), Inline v t := by
    intro t present
    obtain ⟨text, among, rfl⟩ := List.mem_map.mp present
    exact each text among
  simpa [Function.comp_def] using inline_commas fixed

theorem inline_typed (sound : Material.Sound v (.name name)) :
    Inline v fun _ => "auto " ++ binding name :=
  (Leading.fixed (by decide)).text (inline_binding sound)

theorem inline_parameters (sound : AllSound v (params.map .name)) :
    Inline v fun _ => parameters params := by
  apply inline_listed
  intro text present
  obtain ⟨name, among, rfl⟩ := List.mem_map.mp present
  exact inline_typed (sound _ (List.mem_map_of_mem among))

theorem inline_arrowParameters (sound : AllSound v (params.map .name)) :
    Inline v fun _ => arrowParameters features params := by
  apply inline_listed
  intro text present
  obtain ⟨name, among, rfl⟩ := List.mem_map.mp present
  have own := inline_typed (sound _ (List.mem_map_of_mem (List.mem_of_mem_filter among)))
  split
  · exact Inline.fixed (by decide)
  · split
    · exact Inline.fixed (by decide)
    · exact own

-- A key with a helper of its own needs the server's part of the support text.
theorem inline_indexText {object : Expr} (target : Inline v a) (key : Inline v b) :
    Inline v fun depth => indexText features object (a depth) (b depth) := by
  have grouped : Inline v fun depth => group object (a depth) := inline_group target
  have asked : ∀ helper, helper ∈ Prelude.helpers features → Inline v fun depth =>
      helper ++ "(" ++ group object (a depth) ++ ", " ++ b depth ++ ")" := by
    intro helper known
    have opened := ((inline_helper known).apart (s := "(") (by decide)).text grouped
    exact ((opened.apart (s := ", ") (by decide)).text key).fix (by decide)
  simp only [indexText]
  split
  · next served =>
    have http : features.http = true := (Bool.and_eq_true_iff.mp served).1
    exact asked "_riri_get_param" (by simp [Prelude.helpers, Prelude.requestNames, http])
  · split
    · next served =>
      have http : features.http = true := (Bool.and_eq_true_iff.mp served).1
      exact asked "_riri_get_query" (by simp [Prelude.helpers, Prelude.requestNames, http])
    · exact ((grouped.apart (by decide)).text key).fix (by decide)

theorem inline_memberText {object : Expr} (sound : Material.Sound v (.name name)) (h : Inline v a) :
    Inline v fun depth => memberText features object name (a depth) := by
  have target : Inline v fun depth => group object (a depth) := inline_group h
  have pointer : Inline v fun depth => "(" ++ a depth ++ ")->" ++ name :=
    (((Leading.fixed (by decide)).text h).apart (by decide)).text (inline_name sound)
  simp only [memberText]
  split
  · exact target.fix (by decide)
  · split
    · exact target.fix (by decide)
    · split
      · split
        · exact target.fix (by decide)
        · exact (target.apart (by decide)).text (inline_name sound)
      · exact pointer
      · exact pointer

theorem inline_elementType (elements : List Expr) : Inline v fun _ => elementType elements := by
  unfold elementType
  split
  · exact Inline.fixed (by decide)
  · exact Inline.fixed (by decide)

theorem inline_fieldType {e : Expr} (sound : AllSound v e.material) :
    Inline v fun _ => fieldType e := by
  unfold fieldType
  split
  · exact Inline.fixed (by decide)
  · exact ((Leading.fixed (by decide)).text (inline_elementType _)).fix (by decide)
  · next className args =>
    rw [Expr.material, allSound_cons] at sound
    split
    · exact Inline.fixed (by decide)
    · exact ((Leading.fixed (by decide)).text (inline_name sound.1)).fix (by decide)
  · exact Inline.fixed (by decide)
  · exact Inline.fixed (by decide)
  · split
    · split
      · exact Inline.fixed (by decide)
      · exact Inline.fixed (by decide)
    · exact Inline.fixed (by decide)

theorem lined_unhandled (params : List String) : Lined v (unhandled features params) := by
  unfold unhandled
  split
  · exact (Inline.fixed (by decide)).line
  · exact Lined.nil

-- The body of an arrow function is indented one step more than the line it starts in.
theorem inline_arrowText (sound : AllSound v (params.map .name)) (body : Lined v a) :
    Inline v fun depth => arrowText features depth params (a (depth + 1)) := by
  have opened : Leading v fun _ => "[&](" ++ arrowParameters features params ++ ") \x7b" :=
    ((Leading.fixed (by decide)).text (inline_arrowParameters sound)).apart (by decide)
  have inside := ((body.append (lined_unhandled params)).deeper 1).within
  have whole := (opened.text inside).fix (s := "\x7d") (by decide)
  have broken : ") \x7b\n" = ") \x7b" ++ "\n" := by decide
  simpa only [arrowText, broken, String.append_assoc] using whole

end Texts

section Lines

variable {a b : Nat → String} {name : String} {params : List String}

theorem lined_fixed {s : String} (ok : isPlain s = true) : Lined v fun depth => line depth s :=
  (Inline.fixed ok).line

theorem lined_blockText (head : Inline v a) (body : Lined v b) :
    Lined v fun depth => blockText depth (a depth) (b (depth + 1)) :=
  ((head.fix (by decide)).line.append (body.deeper 1)).append (lined_fixed (by decide))

theorem lined_import (sound : Material.Sound v (.quoted name)) :
    Lined v fun depth => line depth ("// import \"" ++ name ++ "\"") :=
  (((Leading.fixed (by decide)).text (inline_quoted sound)).fix (by decide)).line

theorem lined_returned (h : Inline v a) :
    Lined v fun depth => line depth ("return " ++ a depth ++ ";") :=
  (((Leading.fixed (by decide)).text h).fix (by decide)).line

theorem inline_headed {head : String} (ok : leads head = true) (h : Inline v a) :
    Inline v fun depth => head ++ a depth ++ ")" :=
  ((Leading.fixed ok).text h).fix (by decide)

theorem lined_function (named : Inline v fun _ => name) (sound : AllSound v (params.map .name))
    (body : Lined v a) :
    Lined v fun depth =>
      blockText depth ("auto " ++ name ++ "(" ++ parameters params ++ ")") (a (depth + 1)) := by
  have called : Leading v fun _ => "auto " ++ name ++ "(" :=
    ((Leading.fixed (by decide)).text named).apart (by decide)
  have head : Inline v fun _ => "auto " ++ name ++ "(" ++ parameters params ++ ")" :=
    (called.text (inline_parameters sound)).fix (by decide)
  exact lined_blockText head body

theorem lined_lambda (named : Material.Sound v (.name name)) (sound : AllSound v (params.map .name))
    (body : Lined v a) :
    Lined v fun depth =>
      line depth ("auto " ++ binding name ++ " = [&](" ++ parameters params ++ ") \x7b") ++
        a (depth + 1) ++ line depth "\x7d;" := by
  have called : Leading v fun _ => "auto " ++ binding name ++ " = [&](" :=
    (inline_typed named).apart (by decide)
  have head : Inline v fun _ => "auto " ++ binding name ++ " = [&](" ++ parameters params ++ ") \x7b" :=
    (called.text (inline_parameters sound)).fix (by decide)
  exact (head.line.append (body.deeper 1)).append (lined_fixed (by decide))

theorem lined_field {value : Expr} (named : Material.Sound v (.name name))
    (sound : AllSound v value.material) (h : Inline v a) :
    Lined v fun depth => line depth (fieldType value ++ " " ++ name ++ " = " ++ a depth ++ ";") := by
  have head : Inline v fun _ => fieldType value ++ " " ++ name :=
    ((inline_fieldType sound).apart (by decide)).text (inline_name named)
  exact (((head.apart (by decide)).text h).fix (by decide)).line

theorem lined_ended (h : Inline v a) : Lined v fun depth => line depth (a depth ++ ";") :=
  (h.fix (by decide)).line

theorem lined_branch {test body : Nat → String} (asked : Inline v test) (inner : Lined v body) :
    Lined v fun depth => line depth ("if (" ++ test depth ++ ") \x7b") ++ body (depth + 1) := by
  have head : Inline v fun depth => "if (" ++ test depth ++ ") \x7b" :=
    ((Leading.fixed (by decide)).text asked).fix (by decide)
  exact head.line.append (inner.deeper 1)

theorem inline_forHead {start test update : Nat → String} (started : Inline v start)
    (asked : Inline v test) (stepped : Inline v update) :
    Inline v fun depth => "for (" ++ start depth ++ "; " ++ test depth ++ "; " ++ update depth ++ ")" := by
  have head : Leading v fun depth => "for (" ++ start depth ++ "; " :=
    ((Leading.fixed (by decide)).text started).apart (by decide)
  have clauses : Leading v fun depth => "for (" ++ start depth ++ "; " ++ test depth ++ "; " :=
    (head.text asked).apart (by decide)
  exact (clauses.text stepped).fix (by decide)

theorem lined_class (named : Material.Sound v (.name name)) (held : Lined v a) (offered : Lined v b) :
    Lined v fun depth => line depth ("struct " ++ name ++ " \x7b") ++ (a (depth + 1) ++ b (depth + 1)) ++
      line depth "\x7d;" := by
  have head : Inline v fun _ => "struct " ++ name ++ " \x7b" :=
    ((Leading.fixed (by decide)).text (inline_name named)).fix (by decide)
  exact (head.line.append ((held.append offered).deeper 1)).append (lined_fixed (by decide))

end Lines

end Emission

end ScriptCpp
