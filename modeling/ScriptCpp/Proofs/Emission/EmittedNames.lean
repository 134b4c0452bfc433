import Mathlib
import ScriptCpp.Proofs.Emission.FormNames
import ScriptCpp.Proofs.Emission.Settling
import ScriptCpp.Proofs.Parsing.Legible

set_option autoImplicit false

namespace ScriptCpp

open Cpp

namespace Emission

theorem filter_keeps_function (features : Features) (params : List String) :
    params.filter (Mention.keeps features false) = params := by
  simp [Mention.keeps]

theorem Names.enclose {features : Features} {o isArrow : Bool} {text : String} {params : List String}
    {ms inside : List Mention} (h : Names features o text
      (ms ++ ((params.filter (Mention.keeps features isArrow)).map .bound ++ inside))) :
    Names features o text (ms ++ [.scope isArrow params inside]) := by
  obtain ⟨⟨segs, read, worded⟩, ends⟩ := h
  exact ⟨⟨segs, read, worded.enclose⟩, ends⟩

section Texts

variable {features : Features} {o : Bool} {a b text : String} {ms ns : List Mention} {depth : Nat}
  {params : List String}

theorem names_reference (named : IsName a) :
    Names features true (reference a) (if a = "null" then [] else [.used a]) := by
  unfold reference
  split
  · exact .word (by decide)
  · exact .used named

theorem names_indentation (depth : Nat) : Names features false (indentation depth) [] := by
  induction depth with
  | zero => exact .nil
  | succ depth ih => exact (Names.fixed (by decide) : Names features false "    " []).text ih

theorem names_line (h : Names features o text ms) : Names features false (line depth text) ms :=
  ((names_indentation depth).text h).fix (by decide)

theorem names_blockText (head : Names features o a ms) (body : Names features false b ns) :
    Names features false (blockText depth a b) (ms ++ ns) := by
  have opened : Names features false (line depth (a ++ " \x7b")) ms := names_line (head.fix (by decide))
  exact (opened.text body).silent (names_line (.fixed (by decide)))

theorem names_group {e : Expr} (h : Names features o text ms) : Names features true (group e text) ms :=
  names_grouped h

theorem names_operand {parent : Nat} {right : Bool} {e : Expr} (h : Names features o text ms) :
    Names features true (operand parent right e text) ms := by
  unfold operand
  split
  · exact h.parenthesized.loose
  · exact h.loose

theorem names_indexText {object : Expr} (h : Names features o a ms) (key : Names features true b ns) :
    Names features true (indexText features object a b) (ms ++ ns) := by
  have target : Names features true (group object a) ms := names_group h
  have helper : ∀ sign, leadText sign = true →
      Names features true (sign ++ group object a ++ ", " ++ b ++ ")") (ms ++ ns) := fun sign ok =>
    (((Names.surrounded ok target (by decide)).text key).fix (by decide)).loose
  simp only [indexText]
  split
  · exact helper "_riri_get_param(" (by decide)
  · split
    · exact helper "_riri_get_query(" (by decide)
    · exact (((target.fix (by decide)).text key).fix (by decide)).loose

theorem names_memberText {object : Expr} (named : IsName b) (h : Names features o a ms) :
    Names features true (memberText features object b a) (ms ++ accessed features b) := by
  have target : Names features true (group object a) ms := names_group h
  have other : ∀ sign, accessed features b = [] → ownText sign = true →
      startsWord sign.toList = false →
      Names features true (group object a ++ sign) (ms ++ accessed features b) := by
    intro sign silent ok starts
    rw [silent, List.append_nil]
    exact target.finish ok starts
  simp only [memberText]
  split
  · next params => exact other ".path_params" (by simp_all [accessed]) (by decide) (by decide)
  · next notParams =>
    split
    · next query => exact other ".params" (by simp_all [accessed]) (by decide) (by decide)
    · next notQuery =>
      have kept : b ≠ "length" → accessed features b = [.label b] := by
        intro long
        simp_all [accessed]
      by_cases long : b = "length"
      · have shape : ReceiverShape.ofAccess features object b = .value := by
          simp [ReceiverShape.ofAccess, ReceiverShape.valueMembers, long]
        rw [shape]
        dsimp only
        rw [if_pos long]
        exact other ".size()" (by simp [accessed, long]) (by decide) (by decide)
      · rw [kept long]
        have pointer : Names features true ("(" ++ a ++ ")->" ++ b) (ms ++ [.label b]) :=
          (Names.surrounded (by decide) h (by decide)).text (.label named)
        split
        · rw [if_neg long]
          exact (target.fix (by decide)).text (.label named)
        · exact pointer
        · exact pointer

theorem names_each {f : String → String} (each : ∀ p ∈ params, Names features true (f p) [.bound p]) :
    Names features true (commas (params.map f)) (params.map .bound) := by
  have listed : List.Forall₂ (Names features true) (params.map f) (params.map fun p => [.bound p]) := by
    rw [List.forall₂_map_left_iff, List.forall₂_map_right_iff, List.forall₂_same]
    exact each
  have whole := names_commas listed
  rwa [← List.flatMap_def, ← List.map_eq_flatMap] at whole

theorem names_parameters (named : ∀ p ∈ params, IsName p) :
    Names features true (parameters params) (params.map .bound) :=
  names_each fun p present => .bound (by decide) (named p present)

theorem names_arrowParameters (named : ∀ p ∈ params, IsName p) :
    Names features true (arrowParameters features params)
      ((params.filter (Mention.keeps features true)).map .bound) := by
  have same : (params.filter fun p => !(features.http && p = "next")) =
      params.filter (Mention.keeps features true) :=
    List.filter_congr fun p _ => by simp [Mention.keeps]
  unfold arrowParameters
  rw [same]
  refine names_each fun p present => ?_
  have word := named p (List.mem_of_mem_filter present)
  split
  · next request =>
    obtain rfl : p = "req" := by simp_all
    exact (.bound (by decide) word : Names features true ("const httplib::Request& " ++ binding "req") _)
  · split
    · next response =>
      obtain rfl : p = "res" := by simp_all
      exact (.bound (by decide) word : Names features true ("httplib::Response& " ++ binding "res") _)
    · exact .bound (by decide) word

theorem names_unhandled (params : List String) (depth : Nat) :
    Names features false (unhandled features params depth) [] := by
  unfold unhandled
  split
  · exact names_line (.fixed (by decide))
  · exact .nil

theorem names_arrowText (named : ∀ p ∈ params, IsName p) (body : Names features false text ms) :
    Names features true (arrowText features depth params text) [.scope true params ms] := by
  have opened : Names features false ("[&](" ++ arrowParameters features params ++ ") \x7b\n")
      ((params.filter (Mention.keeps features true)).map .bound) :=
    .surrounded (by decide) (names_arrowParameters named) (by decide)
  have inside := (opened.text (body.silent (names_unhandled params (depth + 1)))).silent
    (names_indentation depth)
  have whole : Names features true (arrowText features depth params text)
      ([] ++ ((params.filter (Mention.keeps features true)).map .bound ++ ms)) :=
    (inside.fix (by decide)).loose
  exact whole.enclose

theorem names_elementType (elements : List Expr) : Names features true (elementType elements) [] := by
  unfold elementType
  split
  · exact .word (by decide)
  · exact .word (by decide)

theorem names_fieldType {e : Expr} (proper : AllProper e.material) :
    Names features true (fieldType e) (typed e) := by
  unfold fieldType
  split
  · exact .word (by decide)
  · exact (Names.surrounded (by decide) (names_elementType _) (by decide)).loose
  · next className args =>
    rw [Expr.material, allProper_cons] at proper
    rw [typed]
    split
    · exact .word (by decide)
    · exact (Names.surrounded (by decide) (.label proper.1.2) (by decide)).loose
  · exact .word (by decide)
  · exact .word (by decide)
  · next notConstruct _ _ =>
    have none : typed e = [] := by
      cases e with
      | construct className args => exact absurd rfl (notConstruct className args)
      | _ => rfl
    rw [none]
    split
    · split
      · exact .word (by decide)
      · exact .word (by decide)
    · exact .word (by decide)

end Texts

theorem isName_method {callee : Expr} {args : List Expr} (proper : AllProper callee.material) :
    ∀ name, (⟨callee, args⟩ : CallSite).method? = some name → IsName name := by
  intro name found
  cases callee with
  | member object method =>
    obtain rfl : method = name := Option.some.inj found
    exact ((allProper_append.mp proper).2 _ (List.mem_singleton_self _)).2
  | _ => cases found

section Operators

variable {features : Features} {a b c : String} {ms ns os : List Mention}

-- A slash is quiet only together with the blanks around it.
theorem names_binary (op : BinaryOp) (left : Names features true a ms) (right : Names features true b ns) :
    Names features true (a ++ " " ++ op.symbol ++ " " ++ b) (ms ++ ns) := by
  have sign : gapText (" " ++ (op.symbol ++ " ")) = true := by cases op <;> decide
  have whole := (left.fix sign).text right
  simpa only [String.append_assoc] using whole

theorem names_conditional (test : Names features true a ms) (consequent : Names features true b ns)
    (alternate : Names features true c os) :
    Names features true ("(" ++ a ++ " ? " ++ b ++ " : " ++ c ++ ")") (ms ++ ns ++ os) := by
  have asked : Names features false ("(" ++ a ++ " ? ") ms :=
    .surrounded (by decide) test (by decide)
  have either : Names features false ("(" ++ a ++ " ? " ++ b ++ " : ") (ms ++ ns) :=
    (asked.text consequent).fix (by decide)
  exact ((either.text alternate).fix (by decide)).loose

end Operators

section Statements

variable {features : Features} {o : Bool} {depth : Nat} {ms ns os : List Mention} {name text : String}
  {params : List String}

theorem names_comment (inline : '\n' ∉ text.toList) :
    Names features false (line depth ("//" ++ text)) [] := by
  have whole : Names features false (indentation depth ++ ("//" ++ text ++ "\n")) [] :=
    (names_indentation depth).text (.comment inline)
  simpa only [line, String.append_assoc] using whole

theorem names_import {path : String} (closed : Token.StringBody path.toList) :
    Names features false (line depth ("// import \"" ++ path ++ "\"")) [] := by
  have parts : "// import \"" = "//" ++ " import \"" := by decide
  have inline : '\n' ∉ (" import \"" ++ path ++ "\"").toList := by
    have own := closed.inline
    simp [String.toList_append, own]
  have joined : "// import \"" ++ path ++ "\"" = "//" ++ (" import \"" ++ path ++ "\"") := by
    rw [parts, String.append_assoc, String.append_assoc, String.append_assoc]
  rw [joined]
  exact names_comment inline

theorem names_branch {body : String} (test : Names features true text ms)
    (inner : Names features false body ns) :
    Names features false (line depth ("if (" ++ text ++ ") \x7b") ++ body) (ms ++ ns) := by
  have head : Names features false (line depth ("if (" ++ text ++ ") \x7b")) ms :=
    names_line (.surrounded (by decide) test (by decide))
  exact head.text inner

theorem names_else (inner : Names features false text ms) :
    Names features false (line depth "\x7d else \x7b" ++ text ++ line depth "\x7d") ms := by
  have opened : Names features false (line depth "\x7d else \x7b") [] := names_line (.fixed (by decide))
  exact (opened.text inner).silent (names_line (.fixed (by decide)))

theorem names_ended (h : Names features true text ms) :
    Names features false (line depth (text ++ ";")) ms :=
  names_line (h.fix (by decide))

theorem names_returned (h : Names features true text ms) :
    Names features false (line depth ("return " ++ text ++ ";")) ms :=
  names_line (.surrounded (by decide) h (by decide))

-- The name of a function is bound or, for a method, a label; its parameters are bound behind it.
theorem names_function {headed : String} {own : Mention} (named : Names features true headed [own])
    (given : ∀ p ∈ params, IsName p) (inner : Names features false text ms) :
    Names features false (blockText depth (headed ++ "(" ++ parameters params ++ ")") text)
      [own, .scope false params ms] := by
  have head : Names features false (headed ++ "(" ++ parameters params ++ ")")
      ([own] ++ params.map .bound) :=
    ((named.fix (by decide)).text (names_parameters given)).fix (by decide)
  have whole : Names features false
      (blockText depth (headed ++ "(" ++ parameters params ++ ")") text)
      ([own] ++ ((params.filter (Mention.keeps features false)).map .bound ++ ms)) := by
    rw [filter_keeps_function, ← List.append_assoc]
    exact names_blockText head inner
  exact whole.enclose

theorem names_lambda (named : IsName name) (given : ∀ p ∈ params, IsName p)
    (inner : Names features false text ms) :
    Names features false
      (line depth ("auto " ++ binding name ++ " = [&](" ++ parameters params ++ ") \x7b") ++
        text ++ line depth "\x7d;") [.bound name, .scope false params ms] := by
  have bound : Names features true ("auto " ++ binding name) [.bound name] :=
    .bound (by decide) named
  have head : Names features false
      (line depth ("auto " ++ binding name ++ " = [&](" ++ parameters params ++ ") \x7b"))
      ([.bound name] ++ params.map .bound) :=
    names_line (((bound.fix (by decide)).text (names_parameters given)).fix (by decide))
  have whole : Names features false
      (line depth ("auto " ++ binding name ++ " = [&](" ++ parameters params ++ ") \x7b") ++
        text ++ line depth "\x7d;")
      ([.bound name] ++ ((params.filter (Mention.keeps features false)).map .bound ++ ms)) := by
    rw [filter_keeps_function, ← List.append_assoc]
    exact (head.text inner).silent (names_line (.fixed (by decide)))
  exact whole.enclose

theorem names_caught (named : IsName name) (inner : Names features false text ms) :
    Names features false (line depth "\x7d catch (const std::exception& _e) \x7b" ++
      line (depth + 1) ("std::string " ++ binding name ++ " = _e.what();") ++ text)
      [.scope false [name] ms] := by
  have caught : Names features false (line depth "\x7d catch (const std::exception& _e) \x7b") [] :=
    names_line (.fixed (by decide))
  have bound : Names features true ("std::string " ++ binding name) [.bound name] :=
    .bound (by decide) named
  have whole : Names features false (line depth "\x7d catch (const std::exception& _e) \x7b" ++
      line (depth + 1) ("std::string " ++ binding name ++ " = _e.what();") ++ text)
      ([] ++ (([name].filter (Mention.keeps features false)).map .bound ++ ms)) := by
    rw [filter_keeps_function]
    exact (caught.text (names_line (bound.fix (by decide)))).text inner
  exact whole.enclose

theorem names_field {value : Expr} (named : IsName name) (proper : AllProper value.material)
    (given : Names features true text ms) :
    Names features false (line depth (fieldType value ++ " " ++ name ++ " = " ++ text ++ ";"))
      (typed value ++ .label name :: ms) := by
  have head : Names features true (fieldType value ++ " " ++ name) (typed value ++ [.label name]) :=
    ((names_fieldType proper).fix (by decide)).text (.label named)
  have whole : Names features false
      (line depth (fieldType value ++ " " ++ name ++ " = " ++ text ++ ";"))
      (typed value ++ [.label name] ++ ms) :=
    names_line (((head.fix (by decide)).text given).fix (by decide))
  rwa [List.append_assoc] at whole

theorem names_catchAll (depth : Nat) : Names features false (line depth "\x7d catch (...) \x7b") [] :=
  names_line (.fixed (by decide))

theorem names_cleanup (inner : Names features false text ms) :
    Names features false (line depth "\x7b" ++ line (depth + 1) "// finally" ++ text ++ line depth "\x7d")
      ms := by
  have opened : Names features false (line depth "\x7b") [] := names_line (.fixed (by decide))
  have parts : "// finally" = "//" ++ " finally" := by decide
  have marked : Names features false (line (depth + 1) "// finally") [] := by
    rw [parts]
    exact names_comment (by decide)
  exact ((opened.text marked).text inner).silent (names_line (.fixed (by decide)))

theorem names_class {fields methods : String} (named : IsName name)
    (held : Names features false fields ms) (offered : Names features false methods ns) :
    Names features false
      (line depth ("struct " ++ name ++ " \x7b") ++ (fields ++ methods) ++ line depth "\x7d;")
      (.label name :: (ms ++ ns)) := by
  have head : Names features false (line depth ("struct " ++ name ++ " \x7b")) [.label name] :=
    names_line (.surrounded (by decide) (.label named) (by decide))
  have closing : Names features false (line depth "\x7d;") [] := names_line (.fixed (by decide))
  exact (head.text (held.text offered)).silent closing

theorem names_forHead {start test update : String} (started : Names features true start ms)
    (asked : Names features true test ns) (stepped : Names features true update os) :
    Names features false ("for (" ++ start ++ "; " ++ test ++ "; " ++ update ++ ")") (ms ++ ns ++ os) := by
  have head : Names features false ("for (" ++ start ++ "; ") ms :=
    .surrounded (by decide) started (by decide)
  have clauses : Names features false ("for (" ++ start ++ "; " ++ test ++ "; ") (ms ++ ns) :=
    (head.text asked).fix (by decide)
  exact (clauses.text stepped).fix (by decide)

end Statements

end Emission

end ScriptCpp
