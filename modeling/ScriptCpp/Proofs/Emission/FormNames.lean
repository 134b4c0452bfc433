import Mathlib
import ScriptCpp.Proofs.Emission.FormText
import ScriptCpp.Proofs.Emission.NameText

set_option autoImplicit false

namespace ScriptCpp

open Cpp

namespace SpecialForm

open Emission

structure Supplied (form : SpecialForm) (features : Features) (site : CallSite) (head : Piece)
    (args : List Piece) (ms : List Mention) (mss : List (List Mention)) : Prop where
  triggered : form.trigger features site = true
  method : ∀ name, site.method? = some name → IsName name
  headNames : Names features true head.text ms
  headless : form.head = .none → ms = []
  argsName : PiecesName features args mss
  counted : args.length = (form.used site.args).length

def KeepsNames (form : SpecialForm) : Prop :=
  ∀ ⦃features : Features⦄ ⦃site : CallSite⦄ ⦃head : Piece⦄ ⦃args : List Piece⦄ ⦃ms : List Mention⦄
    ⦃mss : List (List Mention)⦄, form.Supplied features site head args ms mss →
      Names features true (form.write site head args) (form.mentions site ms mss)

/-- The forms that do not mention their head and arguments just once. -/
def uneven : List String := ["sort", "Math.*"]

theorem mentions_plain {form : SpecialForm} (plain : form.name ∉ uneven) (site : CallSite)
    (head : List Mention) (args : List (List Mention)) :
    form.mentions site head args = head ++ args.flatten := by
  simp only [uneven, List.mem_cons, not_or] at plain
  simp [mentions, plain]

namespace Supplied

variable {form : SpecialForm} {features : Features} {site : CallSite} {head : Piece}
  {args : List Piece} {ms : List Mention} {mss : List (List Mention)}
  (supplied : form.Supplied features site head args ms mss)

include supplied

theorem commas : Names features true (commas (texts args)) mss.flatten :=
  names_commas supplied.argsName.texts

theorem passed : Names features true (ScriptCpp.commas (head.text :: texts args)) (ms ++ mss.flatten) :=
  names_commas (.cons supplied.headNames supplied.argsName.texts)

theorem headGrouped : Names features true head.grouped ms := names_grouped supplied.headNames

theorem receiver : Names features true ("(" ++ head.text) ms :=
  (Names.fixed (by decide) : Names features false "(" []).text supplied.headNames

theorem mss_nil (unused : form.reads = []) : mss = [] := by
  have none : args = [] := by simpa [used_nil unused] using supplied.counted
  have named := supplied.argsName
  rw [none] at named
  cases named
  rfl

theorem fixed (text : String) (plain : form.name ∉ uneven) (noHead : form.head = .none)
    (unused : form.reads = []) (ok : ownText text = true) :
    Names features true text (form.mentions site ms mss) := by
  rw [mentions_plain plain, supplied.headless noHead, supplied.mss_nil unused]
  exact .word ok

theorem called {callee : String} (plain : form.name ∉ uneven) (noHead : form.head = .none)
    (named : Names features true callee []) :
    Names features true (callee ++ "(" ++ ScriptCpp.commas (texts args) ++ ")")
      (form.mentions site ms mss) := by
  rw [mentions_plain plain, supplied.headless noHead]
  exact (((named.fix (by decide)).text supplied.commas).fix (by decide)).loose

theorem wrapped {before : String} (plain : form.name ∉ uneven) (noHead : form.head = .none)
    (ok : leadText before = true) :
    Names features true (before ++ ScriptCpp.commas (texts args) ++ ")") (form.mentions site ms mss) := by
  rw [mentions_plain plain, supplied.headless noHead]
  exact (Names.surrounded ok supplied.commas (by decide)).loose

end Supplied

theorem keepsNames_helperForm {name : String} {minArgs arity : Nat} {trigger : Features → CallSite → Bool}
    {helper : CallSite → String} (plain : name ∉ uneven)
    (named : ∀ features site, trigger features site = true →
      (∀ method, site.method? = some method → IsName method) → Names features true (helper site) []) :
    (helperForm name minArgs trigger helper arity).KeepsNames := by
  intro features site head args ms mss supplied
  rw [mentions_plain plain]
  have callee := named features site supplied.triggered supplied.method
  exact (((callee.fix (by decide)).text supplied.passed).fix (by decide)).loose

-- The mark and the method make up one word, which has the mark.
theorem names_namedHelper {features : Features} {site : CallSite} {methods : List String}
    (called : site.isMethod methods = true)
    (method : ∀ name, site.method? = some name → IsName name) :
    Names features true (namedHelper site) [] := by
  cases found : site.method? with
  | none => simp [CallSite.isMethod, found] at called
  | some name =>
    obtain ⟨c, cs, spelled, start, others⟩ := method name found
    have whole : namedHelper site = "_riri_" ++ name := by
      simp [namedHelper, CallSite.methodText, found]
    have word : IsName ("_riri_" ++ name) := by
      refine ⟨'_', "riri_".toList ++ c :: cs, by simp [String.toList_append, spelled], by decide, ?_⟩
      rw [List.all_append, List.all_cons, Token.isNamePart_of_isNameStart start, others]
      decide
    have marked : Prelude.mark.isPrefixOf ("_riri_" ++ name).toList = true := by
      rw [String.toList_append, List.isPrefixOf_iff_prefix]
      exact List.prefix_append _ _
    have own : isOwnWord ("_riri_" ++ name) = true := by rw [isOwnWord, marked, Bool.true_or]
    rw [whole]
    exact .name word (.own own .done)

theorem keepsNames_mathForms : ∀ form ∈ mathForms, form.KeepsNames := by
  simp only [mathForms, List.forall_mem_cons]
  refine ⟨?_, ?_, by simp⟩
  · intro features site head args ms mss supplied
    exact supplied.fixed "((double)std::rand() / (RAND_MAX))" (by decide) rfl rfl (by decide)
  · intro features site head args ms mss supplied
    have callee : Names features true ("std::" ++ site.methodText) (site.method?.toList.map .label) := by
      have led : Names features false "std::" [] := .fixed (by decide)
      unfold CallSite.methodText
      cases found : site.method? with
      | none => exact (led.text .nil).loose
      | some name => exact led.text (.label (supplied.method name found))
    exact (((callee.fix (by decide)).text supplied.commas).fix (by decide)).loose

-- The blank that `print` writes between two arguments is a literal.
theorem names_printSeparator {features : Features} : Names features false " << \" \" << " [] := by
  have blank : Token.StringBody " ".toList := .plain (by decide) (by decide) (by decide) .nil
  have parts : " << \" \" << " = " << " ++ ("\"" ++ " " ++ "\"") ++ " << " := by decide
  rw [parts]
  exact .surrounded (by decide) (.literal blank) (by decide)

theorem keepsNames_consoleForms : ∀ form ∈ consoleForms, form.KeepsNames := by
  simp only [consoleForms, List.forall_mem_cons]
  refine ⟨?_, ?_, ?_, by simp⟩
  · intro features site head args ms mss supplied
    have listed := Names.intercalate names_printSeparator (by decide) (by decide)
      supplied.argsName.grouped
    rw [mentions_plain (by decide), supplied.headless rfl]
    cases args with
    | nil =>
      cases supplied.argsName
      exact (.word (by decide) : Names features true "std::cout << std::endl" [])
    | cons first args =>
      exact ((Names.fixed (by decide) : Names features false "std::cout << " []).text listed).finish
        (by decide) (by decide)
  · intro features site head args ms mss supplied
    exact supplied.fixed "_riri_input()" (by decide) rfl rfl (by decide)
  · intro features site head args ms mss supplied
    exact supplied.wrapped (by decide) rfl (by decide)

theorem keepsNames_dialogForms : ∀ form ∈ dialogForms, form.KeepsNames := by
  simp only [dialogForms, List.forall_mem_cons]
  refine ⟨?_, ?_, by simp⟩
  · intro features site head args ms mss supplied
    exact supplied.fixed "_riri_create_list()" (by decide) rfl rfl (by decide)
  · intro features site head args ms mss supplied
    exact supplied.wrapped (by decide) rfl (by decide)

theorem names_conversion {features : Features} (site : CallSite) :
    Names features true (conversion site) [] := by
  unfold conversion
  split
  · exact .word (by decide)
  · split
    · exact .word (by decide)
    · exact .word (by decide)

theorem keepsNames_plainForms : ∀ form ∈ plainForms, form.KeepsNames := by
  simp only [plainForms, List.forall_mem_cons]
  refine ⟨?_, ?_, ?_, ?_, by simp⟩
  · intro features site head args ms mss supplied
    have target := names_commas supplied.argsName.grouped
    have between : Names features false ("std::sort(" ++ commas (args.map Piece.grouped) ++ ".begin(), ")
        mss.flatten := .surrounded (by decide) target (by decide)
    exact ((between.text target).fix (by decide)).loose
  · intro features site head args ms mss supplied
    exact supplied.called (by decide) rfl (names_conversion site)
  · intro features site head args ms mss supplied
    exact supplied.fixed "std::rand()" (by decide) rfl rfl (by decide)
  · intro features site head args ms mss supplied
    exact supplied.wrapped (by decide) rfl (by decide)

theorem keepsNames_listForms : ∀ form ∈ listForms, form.KeepsNames := by
  simp only [listForms, List.forall_mem_cons]
  refine ⟨keepsNames_helperForm (by decide) ?_, keepsNames_helperForm (by decide) ?_, by simp⟩
  · exact fun _ _ _ _ => .word (by decide)
  · exact fun _ _ _ _ => .word (by decide)

-- A missing upper bound is written as `-1`.
theorem names_bounds {features : Features} {args : List Piece} {mss : List (List Mention)}
    (named : PiecesName features args mss) :
    ∃ mss', List.Forall₂ (Names features true)
      (if (texts args).length < 2 then texts args ++ ["-1"] else texts args) mss' ∧
        mss'.flatten = mss.flatten := by
  split
  · refine ⟨mss ++ [[]], List.rel_append named.texts (.cons ?_ .nil), by simp⟩
    exact .word (by decide)
  · exact ⟨mss, named.texts, rfl⟩

theorem keepsNames_arrayForms : ∀ form ∈ arrayForms, form.KeepsNames := by
  simp only [arrayForms, List.forall_mem_cons]
  refine ⟨?_, keepsNames_helperForm (by decide) fun _ _ => names_namedHelper,
    keepsNames_helperForm (by decide) ?_, ?_,
    keepsNames_helperForm (by decide) fun _ _ => names_namedHelper, ?_,
    keepsNames_helperForm (by decide) ?_, by simp⟩
  · intro features site head args ms mss supplied
    rw [mentions_plain (by decide), supplied.mss_nil rfl, List.flatten_nil, List.append_nil]
    exact supplied.headNames
  · exact fun _ _ _ _ => .word (by decide)
  · intro features site head args ms mss supplied
    obtain ⟨mss', bounds, same⟩ := names_bounds supplied.argsName
    rw [mentions_plain (by decide), ← same]
    have given := names_commas (.cons supplied.headNames bounds)
    exact (Names.surrounded (by decide) given (by decide)).loose
  · intro features site head args ms mss supplied
    rw [mentions_plain (by decide)]
    have given : Names features true
        (commas (head.text :: if args.isEmpty then ["std::string(\",\")"] else texts args))
        (ms ++ mss.flatten) := by
      cases args with
      | nil =>
        cases supplied.argsName
        have comma : Token.StringBody ",".toList := .plain (by decide) (by decide) (by decide) .nil
        exact names_commas (.cons supplied.headNames (.cons (names_string comma).loose .nil))
      | cons first args => exact supplied.passed
    exact (Names.surrounded (by decide) given (by decide)).loose
  · exact fun _ _ _ _ => .word (by decide)

theorem keepsNames_stringForms : ∀ form ∈ stringForms, form.KeepsNames := by
  simp only [stringForms, List.forall_mem_cons]
  refine ⟨keepsNames_helperForm (by decide) fun _ _ => names_namedHelper,
    keepsNames_helperForm (by decide) fun _ _ => names_namedHelper, ?_, by simp⟩
  intro features site head args ms mss supplied
  exact supplied.called (by decide) rfl (names_namedHelper supplied.triggered supplied.method)

theorem keepsNames_serverForms : ∀ form ∈ serverForms, form.KeepsNames := by
  simp only [serverForms, List.forall_mem_cons]
  refine ⟨?_, ?_, ?_, ?_, ?_, by simp⟩
  · intro features site head args ms mss supplied
    have opening : ")->listen(\"" = ")->listen(" ++ "\"" := by decide
    have closing : "\", " = "\"" ++ ", " := by decide
    have parts : ")->listen(\"0.0.0.0\", " = ")->listen(\"" ++ ("0.0.0.0" ++ "\", ") := by
      decide
    have host : Token.StringBody "0.0.0.0".toList := stringBody_of_all (by decide)
    have opened := (supplied.receiver.fix (by decide)).quoted host opening closing (by decide)
    have same : "(" ++ head.text ++ ")->listen(\"0.0.0.0\", " =
        "(" ++ head.text ++ ")->listen(\"" ++ "0.0.0.0" ++ "\", " := by
      rw [parts]
      simp only [String.append_assoc]
    rw [← same] at opened
    rw [mentions_plain (by decide)]
    exact ((opened.text supplied.commas).fix (by decide)).loose
  · intro features site head args ms mss supplied
    have capital : Names features true (capitalize site.methodText) [] := by
      have method := methodText_of_isMethod (Bool.and_eq_true_iff.mp supplied.triggered).1
      simp only [List.mem_cons, List.not_mem_nil, or_false] at method
      rcases method with same | same | same | same
      all_goals
        rw [same]
        exact .word (by decide)
    rw [mentions_plain (by decide)]
    have access : Names features true ("(" ++ head.text ++ ")->" ++ capitalize site.methodText) ms :=
      (supplied.receiver.fix (by decide)).silent capital
    exact (((access.fix (by decide)).text supplied.commas).fix (by decide)).loose
  · intro features site head args ms mss supplied
    rw [mentions_plain (by decide)]
    exact (((supplied.receiver.fix (by decide)).text supplied.commas).fix (by decide)).loose
  · intro features site head args ms mss supplied
    have opening : ", \"" = ", " ++ "\"" := by decide
    have closing : "\")" = "\"" ++ ")" := by decide
    have content : Names features true (head.grouped ++ ".set_content(" ++ commas (texts args))
        (ms ++ mss.flatten) := (supplied.headGrouped.fix (by decide)).text supplied.commas
    rw [mentions_plain (by decide)]
    exact ((content.fix (by decide)).quoted (stringBody_mimeType site) opening closing (by decide)).loose
  · intro features site head args ms mss supplied
    rw [mentions_plain (by decide)]
    exact (supplied.headGrouped.fix (by decide)).text supplied.commas

theorem keepsNames_stackForms : ∀ form ∈ stackForms, form.KeepsNames := by
  simp only [stackForms, List.forall_mem_cons]
  refine ⟨keepsNames_helperForm (by decide) ?_, keepsNames_helperForm (by decide) ?_, by simp⟩
  · exact fun _ _ _ _ => .word (by decide)
  · exact fun _ _ _ _ => .word (by decide)

-- The methods of a request keep their names, which are own words.
theorem Supplied.valueCall {form : SpecialForm} {features : Features} {site : CallSite} {head : Piece}
    {args : List Piece} {ms : List Mention} {mss : List (List Mention)}
    (supplied : form.Supplied features site head args ms mss) (plain : form.name ∉ uneven)
    (method : ownText site.methodText = true) :
    Names features true (valueCall site head args) (form.mentions site ms mss) := by
  rw [mentions_plain plain]
  have access : Names features true (head.grouped ++ "." ++ site.methodText) ms :=
    (supplied.headGrouped.fix (by decide)).silent (.word method)
  exact (((access.fix (by decide)).text supplied.commas).fix (by decide)).loose

theorem keepsNames_requestForms : ∀ form ∈ requestForms, form.KeepsNames := by
  have own : ∀ name ∈ ["get_param_value", "get_header_value"] ++ ["count", "find"],
      ownText name = true := by decide
  simp only [requestForms, List.forall_mem_cons]
  refine ⟨?_, ?_, by simp⟩
  · intro features site head args ms mss supplied
    have method := methodText_of_isMethod (Bool.and_eq_true_iff.mp supplied.triggered).2
    exact supplied.valueCall (by decide) (own _ (List.mem_append_left _ method))
  · intro features site head args ms mss supplied
    have both := (Bool.and_eq_true_iff.mp supplied.triggered).1
    have method := methodText_of_isMethod (Bool.and_eq_true_iff.mp both).2
    exact supplied.valueCall (by decide) (own _ (List.mem_append_right _ method))

theorem keepsNames_of_find? {features : Features} {site : CallSite} {form : SpecialForm}
    (found : find? features site = some form) : form.KeepsNames :=
  of_find? keepsNames_mathForms keepsNames_consoleForms keepsNames_dialogForms keepsNames_plainForms
    keepsNames_listForms keepsNames_arrayForms keepsNames_stringForms keepsNames_serverForms
    keepsNames_stackForms keepsNames_requestForms found

end SpecialForm

end ScriptCpp
