import Mathlib
import ScriptCpp.Proofs.Emission.Exposure

set_option autoImplicit false

namespace ScriptCpp

open Cpp

namespace SpecialForm

open Emission

theorem compact_random : Compact "((double)std::rand() / (RAND_MAX))" := by
  have path : IsPath "std::rand".toList := by decide
  have bound : Compact "RAND_MAX" := (Stands.word (by decide)).compact (by omega)
  have slash : "/".toList ∈ joints := by decide
  obtain ⟨xs, none⟩ := lists_of_readable (List.forall_mem_nil Readable)
  have cast : Stands endings 8 ("(double)" ++ "std::rand" ++ "(" ++ commas [] ++ ")") _ :=
    .cast path none
  obtain ⟨y, most⟩ := (Chain.compact bound).parenthesized.stands
  obtain ⟨z, quotient, -⟩ := cast.join slash (most.loosen (by omega))
  have same : "((double)std::rand() / (RAND_MAX))" =
      "(" ++ ("(double)" ++ "std::rand" ++ "(" ++ commas [] ++ ")" ++ " " ++ "/" ++ " " ++
        ("(" ++ "RAND_MAX" ++ ")")) ++ ")" := by decide
  rw [same]
  exact quotient.parenthesized.compact (by omega)

theorem chains_mathForms : ∀ form ∈ mathForms, form.Chains := by
  simp only [mathForms, List.forall_mem_cons]
  refine ⟨?_, ?_, by simp⟩
  · intro features site head args callee receiver fits
    rw [exposes_closed (by decide)]
    exact .compact compact_random
  · intro features site head args callee receiver fits
    exact fits.called (by decide) (isPath_append (by decide) fits.method)

-- Between two arguments stands a blank of its own.
theorem chain_between {texts : List String} {text : String}
    (each : ∀ part ∈ text :: texts, ∃ exposed, Chain exposed part) :
    ∃ exposed, Chain exposed (" << \" \" << ".intercalate (text :: texts)) := by
  induction texts generalizing text with
  | nil => simpa using each
  | cons next texts ih =>
    obtain ⟨⟨exposed, here⟩, later⟩ := List.forall_mem_cons.mp each
    obtain ⟨other, rest⟩ := ih later
    have shift : "<<".toList ∈ joints := by decide
    have blank : Compact ("\"" ++ " " ++ "\"") :=
      (Stands.literal (stringBody_of_all (by decide))).compact (by omega)
    have whole := (here.concat shift (.compact blank)).concat shift rest
    have split : " << \" \" << " =
        " " ++ "<<" ++ " " ++ ("\"" ++ " " ++ "\"") ++ " " ++ "<<" ++ " " := by
      decide
    refine ⟨true, ?_⟩
    have cons : " << \" \" << ".intercalate (text :: next :: texts) =
        text ++ " << \" \" << " ++ " << \" \" << ".intercalate (next :: texts) := by simp
    rw [cons]
    generalize " << \" \" << ".intercalate (next :: texts) = others at whole
    rw [split]
    simpa only [String.append_assoc] using whole

theorem chain_print {args : List Piece} (each : ∀ piece ∈ args, ∃ exposed, Chain exposed piece.text) :
    Chain true (if args.isEmpty then "std::cout << std::endl"
      else "std::cout << " ++ " << \" \" << ".intercalate (args.map Piece.grouped) ++ " << std::endl") := by
  have shift : "<<".toList ∈ joints := by decide
  have stream : Compact "std::cout" := (Stands.word (by decide)).compact (by omega)
  have last : Compact "std::endl" := (Stands.word (by decide)).compact (by omega)
  cases args with
  | nil =>
    have same : "std::cout << std::endl" = "std::cout" ++ " " ++ "<<" ++ " " ++ "std::endl" := by decide
    simp only [List.isEmpty_nil, if_true]
    rw [same]
    exact .join (.compact stream) shift last
  | cons piece args =>
    have grouped : ∀ text ∈ (piece :: args).map Piece.grouped, ∃ exposed, Chain exposed text := by
      intro text among
      obtain ⟨other, present, rfl⟩ := List.mem_map.mp among
      obtain ⟨exposed, chain⟩ := each other present
      exact ⟨_, chain_grouped chain⟩
    obtain ⟨exposed, between⟩ := chain_between grouped
    have whole := ((Chain.compact stream).concat shift between).concat shift (.compact last)
    have opening : "std::cout << " = "std::cout" ++ " " ++ "<<" ++ " " := by decide
    have closing : " << std::endl" = " " ++ "<<" ++ " " ++ "std::endl" := by decide
    simp only [List.isEmpty_cons, Bool.false_eq_true, if_false]
    rw [opening, closing, List.map_cons]
    simpa only [String.append_assoc] using whole

theorem chains_consoleForms : ∀ form ∈ consoleForms, form.Chains := by
  simp only [consoleForms, List.forall_mem_cons]
  refine ⟨?_, ?_, ?_, by simp⟩
  · intro features site head args callee receiver fits
    rw [exposes_joining (by decide)]
    exact chain_print fits.each
  · intro features site head args callee receiver fits
    exact Fits.fixed "_riri_input" "_riri_input()" (by decide) (by decide) (by decide)
  · intro features site head args callee receiver fits
    exact fits.wrapped "_riri_tprint" (by decide) (by decide) (by decide)

theorem chains_dialogForms : ∀ form ∈ dialogForms, form.Chains := by
  simp only [dialogForms, List.forall_mem_cons]
  refine ⟨?_, ?_, by simp⟩
  · intro features site head args callee receiver fits
    exact Fits.fixed "_riri_create_list" "_riri_create_list()" (by decide) (by decide) (by decide)
  · intro features site head args callee receiver fits
    exact fits.wrapped "_riri_msg_box" (by decide) (by decide) (by decide)

theorem isPath_conversion (site : CallSite) : IsPath (conversion site).toList := by
  unfold conversion
  split
  · decide
  · split <;> decide

theorem chains_plainForms : ∀ form ∈ plainForms, form.Chains := by
  simp only [plainForms, List.forall_mem_cons]
  refine ⟨?_, ?_, ?_, ?_, by simp⟩
  · intro features site head args callee receiver fits
    obtain ⟨piece, rfl⟩ := fits.single rfl (by decide)
    obtain ⟨exposed, chain⟩ := fits.each piece List.mem_cons_self
    have target := chain_grouped chain
    have first := chain_method "begin" ".begin()" target (by decide) (by decide)
    have last := chain_method "end" ".end()" target (by decide) (by decide)
    have path : IsPath "std::sort".toList := by decide
    have whole := compact_call path (List.forall_mem_cons.mpr
      ⟨first.readable, List.forall_mem_singleton.mpr last.readable⟩)
    have opening : "std::sort(" = "std::sort" ++ "(" := by decide
    have between : ".begin(), " = ".begin()" ++ ", " := by decide
    have closing : ".end())" = ".end()" ++ ")" := by decide
    rw [exposes_closed (by decide)]
    rw [commas_cons, commas_singleton] at whole
    refine .compact ?_
    simp only [List.map_cons, List.map_nil, commas_singleton]
    rw [opening, between, closing]
    simpa only [String.append_assoc] using whole
  · intro features site head args callee receiver fits
    exact fits.called (by decide) (isPath_conversion site)
  · intro features site head args callee receiver fits
    exact Fits.fixed "std::rand" "std::rand()" (by decide) (by decide) (by decide)
  · intro features site head args callee receiver fits
    exact fits.wrapped "delay" (by decide) (by decide) (by decide)

theorem chains_helperForm {name : String} {minArgs arity : Nat} {trigger : Features → CallSite → Bool}
    {helper : CallSite → String} (closed : name ∉ opened)
    (path : ∀ site : CallSite, (∀ c ∈ site.methodText.toList, Token.isNamePart c = true) →
      IsPath (helper site).toList) : (helperForm name minArgs trigger helper arity).Chains := by
  intro features site head args callee receiver fits
  rw [exposes_closed closed]
  exact .compact (compact_call (path site fits.method) (fits.passed rfl))

theorem isPath_namedHelper (site : CallSite)
    (method : ∀ c ∈ site.methodText.toList, Token.isNamePart c = true) :
    IsPath (namedHelper site).toList :=
  isPath_append (by decide) method

theorem chains_listForms : ∀ form ∈ listForms, form.Chains := by
  simp only [listForms, List.forall_mem_cons]
  refine ⟨chains_helperForm (by decide) ?_, chains_helperForm (by decide) ?_, by simp⟩
  · exact fun _ _ => by decide
  · exact fun _ _ => by decide

theorem readable_minusOne : Readable "-1" := by
  have one : IsNumeral "1" := ⟨'1', [], rfl, rfl, List.forall_mem_nil _⟩
  have whole := ((Stands.numeral one).loosen (by omega)).minus
  exact ⟨_, whole.loosen (Nat.zero_le _)⟩

theorem readable_bounds {args : List Piece} (each : ∀ text ∈ texts args, Readable text) :
    ∀ text ∈ if (texts args).length < 2 then texts args ++ ["-1"] else texts args, Readable text := by
  split
  · exact List.forall_mem_append.mpr ⟨each, List.forall_mem_singleton.mpr readable_minusOne⟩
  · exact each

theorem readable_separator {args : List Piece} (each : ∀ text ∈ texts args, Readable text) :
    ∀ text ∈ if args.isEmpty then ["std::string(\",\")"] else texts args, Readable text := by
  split
  · refine List.forall_mem_singleton.mpr ?_
    have comma : Token.StringBody ",".toList := stringBody_of_all (by decide)
    exact (Chain.compact (compact_string comma)).readable
  · exact each

theorem chains_arrayForms : ∀ form ∈ arrayForms, form.Chains := by
  simp only [arrayForms, List.forall_mem_cons]
  refine ⟨?_, chains_helperForm (by decide) isPath_namedHelper, chains_helperForm (by decide) ?_, ?_,
    chains_helperForm (by decide) isPath_namedHelper, ?_, chains_helperForm (by decide) ?_, by simp⟩
  · intro features site head args callee receiver fits
    exact fits.own rfl
  · exact fun _ _ => by decide
  · intro features site head args callee receiver fits
    rw [exposes_closed (by decide)]
    exact .compact (compact_wrapped "_riri_slice" (by decide) (by decide)
      (List.forall_mem_cons.mpr ⟨(fits.object rfl).1, readable_bounds fits.readable⟩))
  · intro features site head args callee receiver fits
    rw [exposes_closed (by decide)]
    exact .compact (compact_wrapped "_riri_join" (by decide) (by decide)
      (List.forall_mem_cons.mpr ⟨(fits.object rfl).1, readable_separator fits.readable⟩))
  · exact fun _ _ => by decide

theorem chains_stringForms : ∀ form ∈ stringForms, form.Chains := by
  simp only [stringForms, List.forall_mem_cons]
  refine ⟨chains_helperForm (by decide) isPath_namedHelper,
    chains_helperForm (by decide) isPath_namedHelper, ?_, by simp⟩
  intro features site head args callee receiver fits
  exact fits.called (by decide) (isPath_namedHelper site fits.method)

theorem chains_serverForms : ∀ form ∈ serverForms, form.Chains := by
  simp only [serverForms, List.forall_mem_cons]
  refine ⟨?_, ?_, ?_, ?_, ?_, by simp⟩
  · intro features site head args callee receiver fits
    obtain ⟨piece, rfl⟩ := fits.single rfl (by decide)
    have host : Token.StringBody "0.0.0.0".toList := stringBody_of_all (by decide)
    have pointer := compact_pointer (fits.object rfl).1 (by decide : IsName "listen")
    have whole := (Chain.compact pointer).call
      (List.forall_mem_cons.mpr ⟨readable_quoted host, fits.readable⟩)
    have split : ")->listen(\"0.0.0.0\", " =
        ")->" ++ "listen" ++ "(" ++ ("\"" ++ "0.0.0.0" ++ "\"") ++ ", " := by decide
    rw [exposes_closed (by decide)]
    simp only [texts, List.map_cons, List.map_nil, commas_cons] at whole ⊢
    rw [split]
    simpa only [String.append_assoc] using whole
  · intro features site head args callee receiver fits
    have method := methodText_of_isMethod (Bool.and_eq_true_iff.mp fits.triggered).1
    have capital : IsName (capitalize site.methodText) := by
      simp only [List.mem_cons, List.not_mem_nil, or_false] at method
      rcases method with same | same | same | same
      all_goals
        rw [same]
        decide
    rw [exposes_closed (by decide)]
    exact (Chain.compact (compact_pointer (fits.object rfl).1 capital)).call fits.readable
  · intro features site head args callee receiver fits
    have named : IsName "set_pre_routing_handler" := by decide
    have whole := (Chain.compact (compact_pointer (fits.object rfl).1 named)).call fits.readable
    have split : ")->set_pre_routing_handler(" = ")->" ++ "set_pre_routing_handler" ++ "(" := by decide
    rw [exposes_closed (by decide)]
    dsimp only
    rw [split]
    simpa only [String.append_assoc] using whole
  · intro features site head args callee receiver fits
    obtain ⟨piece, rfl⟩ := fits.single rfl (by decide)
    have mime := readable_quoted (stringBody_mimeType site)
    have content := chain_dot (fits.object rfl).2 (by decide : IsName "set_content")
    have whole := content.call (List.forall_mem_cons.mpr
      ⟨fits.readable _ List.mem_cons_self, List.forall_mem_singleton.mpr mime⟩)
    have opening : ".set_content(" = "." ++ "set_content" ++ "(" := by decide
    have between : ", \"" = ", " ++ "\"" := by decide
    have closing : "\")" = "\"" ++ ")" := by decide
    rw [exposes_trailing (by decide)]
    simp only [texts, List.map_cons, List.map_nil, commas_cons, commas_singleton] at whole ⊢
    rw [opening, between, closing]
    simpa only [String.append_assoc] using whole
  · intro features site head args callee receiver fits
    obtain ⟨piece, rfl⟩ := fits.single rfl (by decide)
    obtain ⟨exposed, value⟩ := fits.each piece List.mem_cons_self
    have equals : "=".toList ∈ joints := by decide
    have status := chain_dot (fits.object rfl).2 (by decide : IsName "status")
    have whole := status.concat equals value
    have split : ".status = " = "." ++ "status" ++ " " ++ "=" ++ " " := by decide
    rw [exposes_joining (by decide)]
    simp only [texts, List.map_cons, List.map_nil, commas_singleton]
    rw [split]
    simpa only [String.append_assoc] using whole

theorem chains_stackForms : ∀ form ∈ stackForms, form.Chains := by
  simp only [stackForms, List.forall_mem_cons]
  refine ⟨chains_helperForm (by decide) ?_, chains_helperForm (by decide) ?_, by simp⟩
  · exact fun _ _ => by decide
  · exact fun _ _ => by decide

theorem chains_requestForms : ∀ form ∈ requestForms, form.Chains := by
  simp only [requestForms, List.forall_mem_cons]
  refine ⟨?_, ?_, by simp⟩
  · intro features site head args callee receiver fits
    have method := methodText_of_isMethod (Bool.and_eq_true_iff.mp fits.triggered).2
    have named : IsName site.methodText := by
      simp only [List.mem_cons, List.not_mem_nil, or_false] at method
      rcases method with same | same <;> rw [same] <;> decide
    rw [exposes_trailing (by decide)]
    exact (chain_dot (fits.object rfl).2 named).call fits.readable
  · intro features site head args callee receiver fits
    have method := methodText_of_isMethod
      (Bool.and_eq_true_iff.mp (Bool.and_eq_true_iff.mp fits.triggered).1).2
    have named : IsName site.methodText := by
      simp only [List.mem_cons, List.not_mem_nil, or_false] at method
      rcases method with same | same <;> rw [same] <;> decide
    rw [exposes_trailing (by decide)]
    exact (chain_dot (fits.object rfl).2 named).call fits.readable

theorem chains_of_find? {features : Features} {site : CallSite} {form : SpecialForm}
    (found : find? features site = some form) : form.Chains :=
  of_find? chains_mathForms chains_consoleForms chains_dialogForms chains_plainForms chains_listForms
    chains_arrayForms chains_stringForms chains_serverForms chains_stackForms chains_requestForms found

end SpecialForm

end ScriptCpp
