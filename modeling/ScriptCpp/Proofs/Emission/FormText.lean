import Mathlib
import ScriptCpp.Proofs.Emission.Inert

set_option autoImplicit false

namespace ScriptCpp

open Cpp

namespace Emission

variable {a : String} {p : List Segment} {args : List Piece} {inerts : List (List Segment)}

abbrev PiecesClosed (args : List Piece) (inerts : List (List Segment)) : Prop :=
  List.Forall₂ (fun piece inert => Closed piece.text inert) args inerts

theorem closed_wrapped {before after : String} {s : List Char} (first : turns before [] s = true)
    (last : turns after s [] = true) (h : Closed a p) : Closed (before ++ a ++ after) p :=
  ((Scans.fixed first).text h).fix last

theorem closed_commas {texts : List String} (each : List.Forall₂ Closed texts inerts) :
    Closed (commas texts) inerts.flatten := by
  have whole := Closed.intercalate (Scans.fixed (by decide) : Closed ", " []) each
  have silent : ([] : List Segment).intercalate inerts = inerts.flatten := by
    clear each whole
    induction inerts with
    | nil => rfl
    | cons inert inerts ih =>
      cases inerts with
      | nil => simp [List.intercalate]
      | cons other inerts => simpa [List.intercalate] using ih
  rwa [silent] at whole

theorem PiecesClosed.texts (closed : PiecesClosed args inerts) :
    List.Forall₂ Closed (SpecialForm.texts args) inerts :=
  List.forall₂_map_left_iff.mpr closed

theorem closed_piece_grouped {piece : Piece} (h : Closed piece.text p) : Closed piece.grouped p := by
  unfold Piece.grouped
  split
  · exact h.parenthesized
  · exact h

theorem PiecesClosed.grouped (closed : PiecesClosed args inerts) :
    List.Forall₂ Closed (args.map Piece.grouped) inerts :=
  List.forall₂_map_left_iff.mpr (closed.imp fun _ _ => closed_piece_grouped)

theorem closed_string {raw : String} (closed : Token.StringBody raw.toList) :
    Closed ("std::string(\"" ++ raw ++ "\")") [.literal raw.toList] := by
  have opening : "std::string(\"" = "std::string(" ++ "\"" := by decide
  have closing : "\")" = "\"" ++ ")" := by decide
  have whole := Scans.quoted (u := ['(']) (v := []) Closed.nil closed opening closing
    (by decide) (by decide +kernel)
  rwa [String.empty_append, List.nil_append] at whole

end Emission

namespace SpecialForm

open Emission

structure Given (form : SpecialForm) (features : Features) (site : CallSite) (head : Piece)
    (args : List Piece) (inert : List Segment) (inerts : List (List Segment)) : Prop where
  triggered : form.trigger features site = true
  method : Closed site.methodText []
  headClosed : Closed head.text inert
  headless : form.head = .none → inert = []
  argsClosed : PiecesClosed args inerts
  counted : args.length = (form.used site.args).length

def Closes (form : SpecialForm) : Prop :=
  ∀ ⦃features : Features⦄ ⦃site : CallSite⦄ ⦃head : Piece⦄ ⦃args : List Piece⦄ ⦃inert : List Segment⦄
    ⦃inerts : List (List Segment)⦄, form.Given features site head args inert inerts →
      Closed (form.write site head args) (form.inert site inert inerts)

/-- The forms that have literals of their own or write an argument twice. -/
def marked : List String := ["print", "sort", "join", "server.listen", "response.send/json"]

theorem inert_unmarked {form : SpecialForm} (plain : form.name ∉ marked) (site : CallSite)
    (head : List Segment) (args : List (List Segment)) :
    form.inert site head args = head ++ args.flatten := by
  simp only [marked, List.mem_cons, not_or] at plain
  simp [inert, plain]

namespace Given

variable {form : SpecialForm} {features : Features} {site : CallSite} {head : Piece}
  {args : List Piece} {inert : List Segment} {inerts : List (List Segment)}
  (given : form.Given features site head args inert inerts)

include given

theorem commas : Closed (commas (texts args)) inerts.flatten :=
  closed_commas given.argsClosed.texts

theorem passed : Closed (ScriptCpp.commas (head.text :: texts args)) (inert ++ inerts.flatten) :=
  closed_commas (.cons given.headClosed given.argsClosed.texts)

theorem headGrouped : Closed head.grouped inert := closed_piece_grouped given.headClosed

theorem receiver : Scans ("(" ++ head.text) inert [] ['('] :=
  (Scans.fixed (by decide)).text given.headClosed

theorem inerts_nil (unused : form.reads = []) : inerts = [] := by
  have none : args = [] := by simpa [used_nil unused] using given.counted
  have closed := given.argsClosed
  rw [none] at closed
  cases closed
  rfl

theorem fixed (text : String) (plain : form.name ∉ marked) (noHead : form.head = .none)
    (unused : form.reads = []) (ok : turns text [] [] = true) :
    Closed text (form.inert site inert inerts) := by
  rw [inert_unmarked plain, given.headless noHead, given.inerts_nil unused]
  exact Scans.fixed ok

theorem wrapped {before after : String} {s : List Char} (plain : form.name ∉ marked)
    (noHead : form.head = .none) (first : turns before [] s = true) (last : turns after s [] = true) :
    Closed (before ++ ScriptCpp.commas (texts args) ++ after) (form.inert site inert inerts) := by
  rw [inert_unmarked plain, given.headless noHead]
  exact closed_wrapped first last given.commas

theorem called {callee : String} (plain : form.name ∉ marked) (noHead : form.head = .none)
    (closed : Closed callee []) :
    Closed (callee ++ "(" ++ ScriptCpp.commas (texts args) ++ ")") (form.inert site inert inerts) := by
  rw [inert_unmarked plain, given.headless noHead]
  have opened : Scans (callee ++ "(") [] [] ['('] := closed.fix (by decide)
  exact (opened.text given.commas).fix (by decide)

end Given

theorem closes_helperForm {name : String} {minArgs arity : Nat} {trigger : Features → CallSite → Bool}
    {helper : CallSite → String} (plain : name ∉ marked)
    (closed : ∀ site, Closed site.methodText [] → Closed (helper site) []) :
    (helperForm name minArgs trigger helper arity).Closes := by
  intro features site head args inert inerts given
  rw [inert_unmarked plain]
  have opened : Scans (helper site ++ "(") [] [] ['('] := (closed site given.method).fix (by decide)
  exact (opened.text given.passed).fix (by decide)

theorem closed_namedHelper (site : CallSite) (method : Closed site.methodText []) :
    Closed (namedHelper site) [] :=
  (Scans.fixed (by decide)).text method

theorem closes_mathForms : ∀ form ∈ mathForms, form.Closes := by
  simp only [mathForms, List.forall_mem_cons]
  refine ⟨?_, ?_, by simp⟩
  · intro features site head args inert inerts given
    exact given.fixed "((double)std::rand() / (RAND_MAX))" (by decide) rfl rfl (by decide)
  · intro features site head args inert inerts given
    exact given.called (by decide) rfl ((Scans.fixed (by decide)).text given.method)

-- The blanks that `print` writes between its arguments are literals.
theorem closed_printSeparator : Closed " << \" \" << " [.literal [' ']] := by
  have blank : Token.StringBody " ".toList := .plain (by decide) (by decide) (by decide) .nil
  have parts : " << \" \" << " = " << " ++ ("\"" ++ " " ++ "\"") ++ " << " := by decide
  rw [parts]
  exact closed_wrapped (s := []) (by decide) (by decide +kernel) (Closed.literal blank)

theorem closes_consoleForms : ∀ form ∈ consoleForms, form.Closes := by
  simp only [consoleForms, List.forall_mem_cons]
  refine ⟨?_, ?_, ?_, by simp⟩
  · intro features site head args inert inerts given
    have listed := Closed.intercalate closed_printSeparator given.argsClosed.grouped
    cases args with
    | nil =>
      cases given.argsClosed
      exact (Scans.fixed (by decide) : Closed "std::cout << std::endl" [])
    | cons first args => exact closed_wrapped (s := []) (by decide) (by decide +kernel) listed
  · intro features site head args inert inerts given
    exact given.fixed "_riri_input()" (by decide) rfl rfl (by decide)
  · intro features site head args inert inerts given
    exact given.wrapped (s := ['(']) (by decide) rfl (by decide) (by decide +kernel)

theorem closes_dialogForms : ∀ form ∈ dialogForms, form.Closes := by
  simp only [dialogForms, List.forall_mem_cons]
  refine ⟨?_, ?_, by simp⟩
  · intro features site head args inert inerts given
    exact given.fixed "_riri_create_list()" (by decide) rfl rfl (by decide)
  · intro features site head args inert inerts given
    exact given.wrapped (s := ['(']) (by decide) rfl (by decide) (by decide +kernel)

theorem closed_conversion (site : CallSite) : Closed (conversion site) [] := by
  unfold conversion
  split
  · exact Scans.fixed (by decide)
  · split
    · exact Scans.fixed (by decide)
    · exact Scans.fixed (by decide)

theorem closes_plainForms : ∀ form ∈ plainForms, form.Closes := by
  simp only [plainForms, List.forall_mem_cons]
  refine ⟨?_, ?_, ?_, ?_, by simp⟩
  · intro features site head args inert inerts given
    have target := closed_commas given.argsClosed.grouped
    have first : Scans ("std::sort(" ++ commas (args.map Piece.grouped)) inerts.flatten [] ['('] :=
      (Scans.fixed (by decide)).text target
    have between : Scans ("std::sort(" ++ commas (args.map Piece.grouped) ++ ".begin(), ")
        inerts.flatten [] ['('] := first.fix (by decide)
    exact (between.text target).fix (by decide)
  · intro features site head args inert inerts given
    exact given.called (by decide) rfl (closed_conversion site)
  · intro features site head args inert inerts given
    exact given.fixed "std::rand()" (by decide) rfl rfl (by decide)
  · intro features site head args inert inerts given
    exact given.wrapped (s := ['(']) (by decide) rfl (by decide) (by decide +kernel)

theorem closes_listForms : ∀ form ∈ listForms, form.Closes := by
  simp only [listForms, List.forall_mem_cons]
  refine ⟨closes_helperForm (by decide) ?_, closes_helperForm (by decide) ?_, by simp⟩
  · exact fun _ _ => Scans.fixed (by decide)
  · exact fun _ _ => Scans.fixed (by decide)

-- A missing upper bound is written as `-1`.
theorem closed_bounds {args : List Piece} {inerts : List (List Segment)}
    (closed : PiecesClosed args inerts) :
    ∃ inerts', List.Forall₂ Closed
      (if (texts args).length < 2 then texts args ++ ["-1"] else texts args) inerts' ∧
        inerts'.flatten = inerts.flatten := by
  split
  · refine ⟨inerts ++ [[]], List.rel_append closed.texts (.cons ?_ .nil), by simp⟩
    exact Scans.fixed (by decide)
  · exact ⟨inerts, closed.texts, rfl⟩

theorem closes_arrayForms : ∀ form ∈ arrayForms, form.Closes := by
  simp only [arrayForms, List.forall_mem_cons]
  refine ⟨?_, closes_helperForm (by decide) closed_namedHelper, closes_helperForm (by decide) ?_, ?_,
    closes_helperForm (by decide) closed_namedHelper, ?_, closes_helperForm (by decide) ?_, by simp⟩
  · intro features site head args inert inerts given
    rw [inert_unmarked (by decide), given.inerts_nil rfl, List.flatten_nil, List.append_nil]
    exact given.headClosed
  · exact fun _ _ => Scans.fixed (by decide)
  · intro features site head args inert inerts given
    obtain ⟨inerts', bounds, same⟩ := closed_bounds given.argsClosed
    rw [inert_unmarked (by decide), ← same]
    exact closed_wrapped (s := ['(']) (by decide) (by decide +kernel)
      (closed_commas (.cons given.headClosed bounds))
  · intro features site head args inert inerts given
    refine closed_wrapped (s := ['(']) (by decide) (by decide +kernel) ?_
    cases args with
    | nil =>
      cases given.argsClosed
      have comma : Token.StringBody ",".toList := .plain (by decide) (by decide) (by decide) .nil
      exact closed_commas (.cons given.headClosed (.cons (closed_string comma) .nil))
    | cons first args =>
      cases given.argsClosed with
      | cons here later =>
        exact closed_commas (.cons given.headClosed (PiecesClosed.texts (.cons here later)))
  · exact fun _ _ => Scans.fixed (by decide)

theorem closes_stringForms : ∀ form ∈ stringForms, form.Closes := by
  simp only [stringForms, List.forall_mem_cons]
  refine ⟨closes_helperForm (by decide) closed_namedHelper,
    closes_helperForm (by decide) closed_namedHelper, ?_, by simp⟩
  intro features site head args inert inerts given
  exact given.called (by decide) rfl (closed_namedHelper site given.method)

theorem stringBody_of_all {cs : List Char}
    (each : cs.all (fun c => c != '"' && c != '\\' && c != '\n') = true) : Token.StringBody cs := by
  induction cs with
  | nil => exact .nil
  | cons c cs ih =>
    simp only [List.all_cons, Bool.and_eq_true, bne_iff_ne] at each
    exact .plain each.1.1.1 each.1.1.2 each.1.2 (ih each.2)

theorem stringBody_mimeType (site : CallSite) : Token.StringBody (mimeType site).toList := by
  unfold mimeType
  split
  · exact stringBody_of_all (by decide)
  · exact stringBody_of_all (by decide)

theorem methodText_of_isMethod {site : CallSite} {names : List String}
    (called : site.isMethod names = true) : site.methodText ∈ names := by
  unfold CallSite.isMethod at called
  unfold CallSite.methodText
  cases method : site.method? with
  | none => simp [method] at called
  | some name => simpa [method] using called

theorem closes_serverForms : ∀ form ∈ serverForms, form.Closes := by
  simp only [serverForms, List.forall_mem_cons]
  refine ⟨?_, ?_, ?_, ?_, ?_, by simp⟩
  · intro features site head args inert inerts given
    have opening : ")->listen(\"" = ")->listen(" ++ "\"" := by decide
    have closing : "\", " = "\"" ++ ", " := by decide
    have parts : ")->listen(\"0.0.0.0\", " = ")->listen(\"" ++ ("0.0.0.0" ++ "\", ") := by
      decide
    have host : Token.StringBody "0.0.0.0".toList := stringBody_of_all (by decide)
    have opened := given.receiver.quoted (u := ['(']) (v := ['(']) host opening closing
      (by decide) (by decide +kernel)
    have same : "(" ++ head.text ++ ")->listen(\"0.0.0.0\", " =
        "(" ++ head.text ++ ")->listen(\"" ++ "0.0.0.0" ++ "\", " := by
      rw [parts]
      simp only [String.append_assoc]
    rw [← same] at opened
    exact (opened.text given.commas).fix (by decide)
  · intro features site head args inert inerts given
    have capital : Closed (capitalize site.methodText) [] := by
      have method := methodText_of_isMethod (Bool.and_eq_true_iff.mp given.triggered).1
      simp only [List.mem_cons, List.not_mem_nil, or_false] at method
      rcases method with same | same | same | same
      all_goals
        rw [same]
        exact Scans.fixed (by decide)
    rw [inert_unmarked (by decide)]
    have access : Scans ("(" ++ head.text ++ ")->" ++ capitalize site.methodText) inert [] [] :=
      (given.receiver.fix (by decide)).word capital
    exact ((access.fix (u := ['(']) (by decide)).text given.commas).fix (by decide)
  · intro features site head args inert inerts given
    rw [inert_unmarked (by decide)]
    exact ((given.receiver.fix (u := ['(']) (by decide)).text given.commas).fix (by decide)
  · intro features site head args inert inerts given
    have opening : ", \"" = ", " ++ "\"" := by decide
    have closing : "\")" = "\"" ++ ")" := by decide
    have content : Scans (head.grouped ++ ".set_content(" ++ commas (texts args))
        (inert ++ inerts.flatten) [] ['('] :=
      (given.headGrouped.fix (by decide)).text given.commas
    exact content.quoted (u := ['(']) (stringBody_mimeType site) opening closing (by decide)
      (by decide)
  · intro features site head args inert inerts given
    rw [inert_unmarked (by decide)]
    exact (given.headGrouped.fix (u := []) (by decide)).text given.commas

theorem closes_stackForms : ∀ form ∈ stackForms, form.Closes := by
  simp only [stackForms, List.forall_mem_cons]
  refine ⟨closes_helperForm (by decide) ?_, closes_helperForm (by decide) ?_, by simp⟩
  · exact fun _ _ => Scans.fixed (by decide)
  · exact fun _ _ => Scans.fixed (by decide)

theorem Given.valueCall {form : SpecialForm} {features : Features} {site : CallSite} {head : Piece}
    {args : List Piece} {inert : List Segment} {inerts : List (List Segment)}
    (given : form.Given features site head args inert inerts) (plain : form.name ∉ marked) :
    Closed (valueCall site head args) (form.inert site inert inerts) := by
  have access : Closed (head.grouped ++ "." ++ site.methodText) inert :=
    (given.headGrouped.fix (by decide)).word given.method
  rw [inert_unmarked plain]
  exact ((access.fix (u := ['(']) (by decide)).text given.commas).fix (by decide)

theorem closes_requestForms : ∀ form ∈ requestForms, form.Closes := by
  simp only [requestForms, List.forall_mem_cons]
  refine ⟨?_, ?_, by simp⟩
  · intro features site head args inert inerts given
    exact given.valueCall (by decide)
  · intro features site head args inert inerts given
    exact given.valueCall (by decide)

theorem closes_of_find? {features : Features} {site : CallSite} {form : SpecialForm}
    (found : find? features site = some form) : form.Closes :=
  of_find? closes_mathForms closes_consoleForms closes_dialogForms closes_plainForms closes_listForms
    closes_arrayForms closes_stringForms closes_serverForms closes_stackForms closes_requestForms found

end SpecialForm

end ScriptCpp
