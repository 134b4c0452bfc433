import Mathlib
import ScriptCpp.Proofs.Emission.Composition

set_option autoImplicit false

namespace ScriptCpp

/-- The phrase means something else with the widget toolkit. -/
@[mk_iff] inductive Phrase.UsesGui : Phrase → Prop
  | function {name : String} {args : List Expr} (known : name ∈ ["createList", "msgBox"]) :
      UsesGui (.expr (.call (.ident name) args))
  | method {object : Expr} {name : String} {args : List Expr} (known : name ∈ ["add", "clear"]) :
      UsesGui (.expr (.call (.member object name) args))
  | document {name : String} : UsesGui (.expr (.member (.ident "document") name))

/-- The phrase means something else with the server library. -/
@[mk_iff] inductive Phrase.UsesHttp : Phrase → Prop
  | field {object : Expr} {name : String} (known : name ∈ ["params", "query"]) :
      UsesHttp (.expr (.member object name))
  | body : UsesHttp (.expr (.member (.ident "req") "body"))
  | method {object : Expr} {name : String} {args : List Expr}
      (known : name ∈ ["send", "json", "status", "get_param_value", "get_header_value"]) :
      UsesHttp (.expr (.call (.member object name) args))
  | blockParam {params : List String} {body : List Stmt} {name : String} (present : name ∈ params)
      (known : name ∈ ["req", "res", "next"]) : UsesHttp (.expr (.arrowBlock params body))
  | valueParam {params : List String} {value : Expr} {name : String} (present : name ∈ params)
      (known : name ∈ ["req", "res", "next"]) : UsesHttp (.expr (.arrowValue params value))

theorem Expr.eq_ident_of_isName {e : Expr} {text : String} (h : e.isName text = true) :
    e = .ident text := by
  cases e with
  | ident name => rw [beq_iff_eq.mp h]
  | _ => cases h

theorem Expr.eq_member_of_memberName? {e : Expr} {name : String} (h : e.memberName? = some name) :
    ∃ object, e = .member object name := by
  cases e with
  | member object own =>
    cases h
    exact ⟨object, rfl⟩
  | _ => cases h

namespace CallSite

variable {site : CallSite} {names : List String}

theorem exists_of_isFunction (h : site.isFunction names = true) :
    ∃ name ∈ names, site.callee = .ident name := by
  obtain ⟨callee, args⟩ := site
  cases callee with
  | ident name => exact ⟨name, List.contains_iff_mem.mp h, rfl⟩
  | _ => cases h

theorem exists_of_isMethod (h : site.isMethod names = true) :
    ∃ object, ∃ name ∈ names, site.callee = .member object name := by
  obtain ⟨callee, args⟩ := site
  cases callee with
  | member object name => exact ⟨object, name, List.contains_iff_mem.mp h, rfl⟩
  | _ => cases h

end CallSite

namespace SpecialForm

theorem find?_gui {site : CallSite} (http : Bool) (unlisted : site.isFunction ["createList"] = false)
    (silent : site.isFunction ["msgBox"] = false) (unadded : site.isMethod ["add"] = false)
    (uncleared : site.isMethod ["clear"] = false) :
    find? ⟨true, http⟩ site = find? ⟨false, http⟩ site := by
  refine List.find?_congr ?_
  simp [table, mathForms, consoleForms, dialogForms, plainForms, listForms, arrayForms, stringForms,
    serverForms, stackForms, requestForms, helperForm, unlisted, silent, unadded, uncleared]

theorem find?_http {site : CallSite} (gui : Bool) (unsent : site.isMethod ["send", "json"] = false)
    (unset : site.isMethod ["status"] = false)
    (unread : site.isMethod ["get_param_value", "get_header_value"] = false)
    (plain : (site.receiver?.bind Expr.memberName?).any ["params", "query"].contains = false) :
    find? ⟨gui, true⟩ site = find? ⟨gui, false⟩ site := by
  refine List.find?_congr ?_
  simpa [table, mathForms, consoleForms, dialogForms, plainForms, listForms, arrayForms, stringForms,
    serverForms, stackForms, requestForms, helperForm, unsent, unset, unread] using fun _ => plain

end SpecialForm

namespace Phrase

open Emission

variable {q : Phrase} {allowed : EmitError → Prop}

theorem steady_gui (http : Bool) (unused : ∀ p, q.Holds p → ¬ p.UsesGui) (all : ∀ error, allowed error) :
    Steady ⟨true, http⟩ ⟨false, http⟩ allowed q where
  call {callee args} here := by
    subst here
    have function : ∀ name ∈ ["createList", "msgBox"],
        (⟨callee, args⟩ : CallSite).isFunction [name] = false := by
      intro name known
      by_contra called
      obtain ⟨own, listed, rfl⟩ := CallSite.exists_of_isFunction (by simpa using called)
      obtain rfl := List.mem_singleton.mp listed
      exact unused _ .refl (.function known)
    have method : ∀ name ∈ ["add", "clear"], (⟨callee, args⟩ : CallSite).isMethod [name] = false := by
      intro name known
      by_contra called
      obtain ⟨object, own, listed, rfl⟩ := CallSite.exists_of_isMethod (by simpa using called)
      obtain rfl := List.mem_singleton.mp listed
      exact unused _ .refl (.method known)
    exact SpecialForm.find?_gui http (function _ (by simp)) (function _ (by simp)) (method _ (by simp))
      (method _ (by simp))
  member {object name} here := by
    have other : object.isName "document" = false := by
      by_contra named
      obtain rfl := Expr.eq_ident_of_isName (by simpa using named)
      exact unused _ .refl (here ▸ .document)
    funext text
    simp [memberText, ReceiverShape.ofAccess, other]
  index _ := rfl
  arrow _ _ := ⟨rfl, rfl⟩
  refused {error} _ := all error

theorem holds_receiver {callee object : Expr} {args : List Expr}
    (h : (⟨callee, args⟩ : CallSite).receiver? = some object) :
    (Phrase.expr (.call callee args)).Holds (.expr object) := by
  have first : Phrase.expr callee ∈ (Phrase.expr (.call callee args)).children := List.mem_cons_self
  refine .head first (.single ?_)
  cases callee with
  | member inner name =>
    cases h
    exact List.mem_cons_self
  | index inner key =>
    cases h
    exact List.mem_cons_self
  | _ => cases h

theorem arrowParameters_http {params : List String} (gui : Bool)
    (plain : ∀ p ∈ params, p ∉ ["req", "res", "next"]) :
    arrowParameters ⟨gui, true⟩ params = arrowParameters ⟨gui, false⟩ params := by
  have kept : params.filter (fun p => !(true && p = "next")) = params := by
    rw [List.filter_eq_self]
    intro p present
    simpa using fun same : p = "next" => plain p present (by simp [same])
  have spelled : ∀ p ∈ params, (if true && p = "req" then "const httplib::Request& req"
      else if true && p = "res" then "httplib::Response& res" else "auto " ++ binding p) =
      "auto " ++ binding p := by
    intro p present
    have other := plain p present
    simp only [List.mem_cons, not_or] at other
    simp [other.1, other.2.1]
  unfold arrowParameters
  simp only [kept, List.map_congr_left spelled]
  simp

theorem steady_http (gui : Bool) (unused : ∀ p, q.Holds p → ¬ p.UsesHttp)
    (all : ∀ error, allowed error) : Steady ⟨gui, true⟩ ⟨gui, false⟩ allowed q := by
  have fieldless : ∀ object, q.Holds (.expr object) → ∀ name ∈ ["params", "query"],
      object.memberName? ≠ some name := by
    intro object occurs name known named
    obtain ⟨inner, rfl⟩ := Expr.eq_member_of_memberName? named
    exact unused _ occurs (.field known)
  refine ⟨?_, ?_, ?_, ?_, fun _ => all _⟩
  · rintro callee args rfl
    have method : ∀ names, names ⊆ ["send", "json", "status", "get_param_value", "get_header_value"] →
        (⟨callee, args⟩ : CallSite).isMethod names = false := by
      intro names known
      by_contra called
      obtain ⟨object, own, listed, rfl⟩ := CallSite.exists_of_isMethod (by simpa using called)
      exact unused _ .refl (.method (known listed))
    refine SpecialForm.find?_http gui (method _ (by simp)) (method _ (by simp)) (method _ (by simp)) ?_
    cases received : (⟨callee, args⟩ : CallSite).receiver? with
    | none => rfl
    | some object =>
      have plain := fieldless object (holds_receiver received)
      cases named : object.memberName? with
      | none => simp [named]
      | some name =>
        rw [named] at plain
        simpa [named] using plain
  · rintro object name rfl
    have plain : name ∉ ["params", "query"] := fun known => unused _ .refl (.field known)
    have unread : name = "body" → object.isName "req" = false := by
      rintro rfl
      by_contra named
      obtain rfl := Expr.eq_ident_of_isName (by simpa using named)
      exact unused _ .refl .body
    simp only [List.mem_cons, List.not_mem_nil, or_false, not_or] at plain
    funext text
    by_cases body : name = "body"
    · simp [memberText, ReceiverShape.ofAccess, body, unread body]
    · simp [memberText, ReceiverShape.ofAccess, body, plain.1, plain.2]
  · rintro object key rfl
    have plain := fieldless object (.single List.mem_cons_self)
    simp only [List.mem_cons, List.not_mem_nil, or_false, forall_eq_or_imp, forall_eq] at plain
    funext text key
    simp [indexText, plain.1, plain.2]
  · rintro e params rfl arrow
    have plain : ∀ p ∈ params, p ∉ ["req", "res", "next"] := by
      intro p present known
      cases e with
      | arrowBlock own body =>
        cases arrow
        exact unused _ .refl (.blockParam present known)
      | arrowValue own value =>
        cases arrow
        exact unused _ .refl (.valueParam present known)
      | _ => cases arrow
    have unhandled : "next" ∉ params := fun present => plain "next" present (by simp)
    exact ⟨arrowParameters_http gui plain, by simp [unhandled]⟩

end Phrase

namespace Program

open Emission

variable {f g : Features} {program : Program}

/-- Each statement has one outcome under both, and the whole output too, but for the support text and
the lines that open and close `main`. -/
def SameUnder (f g : Features) (program : Program) : Prop :=
  (∀ s ∈ program, alone f s = alone g s) ∧
    ((∃ error, emit f program = .error error ∧ emit g program = .error error) ∨
      ∃ units texts, program.declarations.map (alone f) = units.map .ok ∧
        program.entry.map (alone f) = texts.map .ok ∧
        emit f program = .ok (layout f units texts) ∧ emit g program = .ok (layout g units texts))

theorem sameUnder_of_alone (same : ∀ s ∈ program, alone f s = alone g s) : program.SameUnder f g := by
  refine ⟨same, ?_⟩
  have declared : program.declarations.mapM (alone f) = program.declarations.mapM (alone g) :=
    mapM_congr_mem fun s present => same s (List.mem_of_mem_filter present)
  have entered : program.entry.mapM (alone f) = program.entry.mapM (alone g) :=
    mapM_congr_mem fun s present => same s (List.mem_of_mem_filter present)
  rw [emit_eq_layout, emit_eq_layout, ← declared, ← entered]
  rcases mapM_cases (alone f) program.declarations with
    ⟨units, written, whole⟩ | ⟨-, -, error, -, stopped⟩
  · rcases mapM_cases (alone f) program.entry with ⟨texts, read, rest⟩ | ⟨-, -, error, -, stopped⟩
    · rw [whole, rest]
      exact .inr ⟨units, texts, written, read, rfl, rfl⟩
    · rw [whole, stopped]
      exact .inl ⟨error, rfl, rfl⟩
  · rw [stopped]
    exact .inl ⟨error, rfl, rfl⟩

theorem alone_of_steady
    (steady : ∀ q : Phrase, (∀ p, q.Holds p → program.Has p) → q.Steady f g fun _ => True) :
    ∀ s ∈ program, alone f s = alone g s := by
  intro s present
  have inside : AllSteady f g (fun _ => True) [.stmt s] := by
    intro n own q occurs
    obtain rfl := List.mem_singleton.mp own
    exact steady q fun p inner => ⟨s, present, occurs.trans inner⟩
  rcases alone_settles (.any f) inside fun _ _ => trivial with ⟨text, -, same⟩ | ⟨error, -, same⟩
  · rw [same f (.inl rfl), same g (.inr rfl)]
  · rw [same f (.inl rfl), same g (.inr rfl)]

/-- Switching the widget toolkit makes no difference to a program that does not use it, and neither
does switching the server library, but for the fixed text around the program. -/
theorem emit_unused_features (program : Program) :
    ((∀ q, program.Has q → ¬ q.UsesGui) → ∀ http, program.SameUnder ⟨true, http⟩ ⟨false, http⟩) ∧
    ((∀ q, program.Has q → ¬ q.UsesHttp) → ∀ gui, program.SameUnder ⟨gui, true⟩ ⟨gui, false⟩) := by
  constructor
  · intro unused http
    refine sameUnder_of_alone (alone_of_steady fun q inside => ?_)
    exact Phrase.steady_gui http (fun p occurs => unused p (inside p occurs)) fun _ => trivial
  · intro unused gui
    refine sameUnder_of_alone (alone_of_steady fun q inside => ?_)
    exact Phrase.steady_http gui (fun p occurs => unused p (inside p occurs)) fun _ => trivial

-- `xs.push((x) => doc.body[i]);`
def quiet : Program :=
  [.expr (.call (.member (.ident "xs") "push")
    [.arrowValue ["x"] (.index (.member (.ident "doc") "body") (.ident "i"))])]

theorem emit_unused_features_quiet : quiet.SameUnder ⟨true, true⟩ ⟨false, true⟩ ∧
    quiet.SameUnder ⟨true, true⟩ ⟨true, false⟩ := by
  have each : ∀ S : Phrase → Prop, Phrase.Each S (quiet.map .stmt) ↔ _ := fun S => by
    simp only [quiet, List.map_cons, List.map_nil, Phrase.each_cons_iff, Phrase.children, Stmt.children,
      Expr.children, List.cons_append, List.nil_append, Phrase.each_nil]
    exact Iff.rfl
  have noGui : ∀ q, quiet.Has q → ¬ q.UsesGui := by
    rw [forall_has_iff, each]
    simp [Phrase.usesGui_iff]
  have noHttp : ∀ q, quiet.Has q → ¬ q.UsesHttp := by
    rw [forall_has_iff, each]
    refine ⟨?_, ?_, ?_, ?_, ?_, ?_, ?_, ?_, ?_, trivial⟩
    all_goals
      intro used
      simp [Phrase.usesHttp_iff] at used
  obtain ⟨gui, http⟩ := emit_unused_features quiet
  exact ⟨gui noGui true, http noHttp true⟩

end Program

end ScriptCpp
