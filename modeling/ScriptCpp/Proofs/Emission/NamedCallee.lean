import Mathlib
import ScriptCpp.Proofs.Emission.Comparison
import ScriptCpp.Proofs.Parsing.Legible

set_option autoImplicit false

namespace ScriptCpp

namespace CallSite

variable {site : CallSite} {names : List String} {name : String}

theorem function?_eq_some_iff : site.function? = some name ↔ site.callee = .ident name := by
  unfold function? Expr.name?
  split <;> simp_all

theorem method?_eq_some_iff : site.method? = some name ↔ ∃ object, site.callee = .member object name := by
  unfold method? Expr.memberName?
  split <;> simp_all

theorem isSome_of_isFunction (called : site.isFunction names = true) : site.function?.isSome = true := by
  obtain ⟨name, same, -⟩ := (Option.any_eq_true _ _).mp called
  rw [same, Option.isSome_some]

theorem isSome_of_isMethod (called : site.isMethod names = true) : site.method?.isSome = true := by
  obtain ⟨name, same, -⟩ := (Option.any_eq_true _ _).mp called
  rw [same, Option.isSome_some]

theorem of_isNamespaced (called : site.isNamespaced name = true) :
    site.method?.isSome = true ∨ ∃ key, site.callee = .index (.ident name) key := by
  obtain ⟨callee, args⟩ := site
  obtain ⟨object, same, named⟩ := (Option.any_eq_true _ _).mp called
  cases callee with
  | member inner method => exact .inl rfl
  | index inner key =>
    obtain rfl : inner = object := Option.some.inj same
    cases inner with
    | ident space =>
      obtain rfl : space = name := by simpa [Expr.isName] using named
      exact .inr ⟨key, rfl⟩
    | _ => cases named
  | _ => cases same

end CallSite

namespace SpecialForm

def ReadsMethod (form : SpecialForm) : Prop :=
  ∃ site other head args, site.function? = other.function? ∧
    form.write site head args ≠ form.write other head args

def ReadsFunction (form : SpecialForm) : Prop :=
  ∃ site other head args, site.method? = other.method? ∧
    form.write site head args ≠ form.write other head args

/-- The form is found by a name, and reads no name but that one. -/
def FitsName (form : SpecialForm) (callee : Expr) : Prop :=
  (∃ name, IsName name ∧ callee = .ident name ∧ ¬ form.ReadsMethod) ∨
    ∃ object name, IsName name ∧ callee = .member object name ∧ ¬ form.ReadsFunction

def ByName (form : SpecialForm) : Prop :=
  ∀ ⦃features : Features⦄ ⦃site : CallSite⦄, form.trigger features site = true →
    site.function?.isSome = true ∧ ¬ form.ReadsMethod ∨
      site.method?.isSome = true ∧ ¬ form.ReadsFunction

section Rows

variable {form : SpecialForm}

theorem not_readsMethod (h : ∀ {site other : CallSite} (head : Piece) (args : List Piece),
    site.function? = other.function? → form.write site head args = form.write other head args) :
    ¬ form.ReadsMethod := by
  rintro ⟨site, other, head, args, same, differs⟩
  exact differs (h head args same)

theorem not_readsFunction (h : ∀ {site other : CallSite} (head : Piece) (args : List Piece),
    site.method? = other.method? → form.write site head args = form.write other head args) :
    ¬ form.ReadsFunction := by
  rintro ⟨site, other, head, args, same, differs⟩
  exact differs (h head args same)

theorem byFunction (names : List String)
    (asks : ∀ features site, form.trigger features site = true → site.isFunction names = true)
    (reads : ∀ {site other : CallSite} (head : Piece) (args : List Piece),
      site.function? = other.function? → form.write site head args = form.write other head args) :
    form.ByName := by
  intro features site triggered
  exact .inl ⟨CallSite.isSome_of_isFunction (asks features site triggered), not_readsMethod reads⟩

theorem byMethod (names : List String)
    (asks : ∀ features site, form.trigger features site = true → site.isMethod names = true)
    (reads : ∀ {site other : CallSite} (head : Piece) (args : List Piece),
      site.method? = other.method? → form.write site head args = form.write other head args) :
    form.ByName := by
  intro features site triggered
  exact .inr ⟨CallSite.isSome_of_isMethod (asks features site triggered), not_readsFunction reads⟩

theorem methodText_congr {site other : CallSite} (same : site.method? = other.method?) :
    site.methodText = other.methodText := by
  rw [CallSite.methodText, CallSite.methodText, same]

theorem namedHelper_congr {site other : CallSite} (same : site.method? = other.method?) :
    namedHelper site = namedHelper other := by
  rw [namedHelper, namedHelper, methodText_congr same]

theorem byName_helperForm {name : String} {minArgs arity : Nat} {trigger : Features → CallSite → Bool}
    {helper : CallSite → String} (names : List String)
    (asks : ∀ features site, trigger features site = true → site.isMethod names = true)
    (reads : ∀ {site other : CallSite}, site.method? = other.method? → helper site = helper other) :
    (helperForm name minArgs trigger helper arity).ByName := by
  refine byMethod names asks fun head args same => ?_
  simp only [helperForm]
  rw [reads same]

end Rows

theorem byName_consoleForms : ∀ form ∈ consoleForms, form.ByName := by
  simp only [consoleForms, List.forall_mem_cons]
  refine ⟨?_, ?_, ?_, by simp⟩
  · exact byFunction ["print"] (fun _ _ triggered => triggered) fun _ _ _ => rfl
  · exact byFunction ["input"] (fun _ _ triggered => triggered) fun _ _ _ => rfl
  · intro features site triggered
    rcases Bool.or_eq_true_iff.mp triggered with called | table
    · exact .inl ⟨CallSite.isSome_of_isFunction called, not_readsMethod fun _ _ _ => rfl⟩
    · have called := (Bool.and_eq_true_iff.mp table).2
      exact .inr ⟨CallSite.isSome_of_isMethod called, not_readsFunction fun _ _ _ => rfl⟩

theorem byName_dialogForms : ∀ form ∈ dialogForms, form.ByName := by
  simp only [dialogForms, List.forall_mem_cons]
  refine ⟨?_, ?_, by simp⟩
  · exact byFunction ["createList"] (fun _ _ h => (Bool.and_eq_true_iff.mp h).2) fun _ _ _ => rfl
  · exact byFunction ["msgBox"] (fun _ _ h => (Bool.and_eq_true_iff.mp h).2) fun _ _ _ => rfl

theorem byName_plainForms : ∀ form ∈ plainForms, form.ByName := by
  simp only [plainForms, List.forall_mem_cons]
  refine ⟨?_, ?_, ?_, ?_, by simp⟩
  · exact byFunction ["sort"] (fun _ _ triggered => triggered) fun _ _ _ => rfl
  · refine byFunction ["string", "int", "float"] (fun _ _ triggered => triggered) fun _ _ same => ?_
    simp only [conversion, same]
  · exact byFunction ["rand"] (fun _ _ triggered => triggered) fun _ _ _ => rfl
  · exact byFunction ["delay"] (fun _ _ triggered => triggered) fun _ _ _ => rfl

theorem byName_listForms : ∀ form ∈ listForms, form.ByName := by
  simp only [listForms, List.forall_mem_cons]
  refine ⟨?_, ?_, by simp⟩
  · exact byName_helperForm ["add"] (fun _ _ h => (Bool.and_eq_true_iff.mp h).2) fun _ => rfl
  · exact byName_helperForm ["clear"] (fun _ _ h => (Bool.and_eq_true_iff.mp h).2) fun _ => rfl

theorem byName_arrayForms : ∀ form ∈ arrayForms, form.ByName := by
  simp only [arrayForms, List.forall_mem_cons]
  refine ⟨?_, ?_, ?_, ?_, ?_, ?_, ?_, by simp⟩
  · exact byMethod ["length"] (fun _ _ triggered => triggered) fun _ _ _ => rfl
  · exact byName_helperForm _ (fun _ _ triggered => triggered) namedHelper_congr
  · exact byName_helperForm ["reduce"] (fun _ _ triggered => triggered) fun _ => rfl
  · exact byMethod ["slice"] (fun _ _ triggered => triggered) fun _ _ _ => rfl
  · exact byName_helperForm _ (fun _ _ triggered => triggered) namedHelper_congr
  · exact byMethod ["join"] (fun _ _ triggered => triggered) fun _ _ _ => rfl
  · exact byName_helperForm ["reverse"] (fun _ _ triggered => triggered) fun _ => rfl

theorem byName_stringForms : ∀ form ∈ stringForms, form.ByName := by
  simp only [stringForms, List.forall_mem_cons]
  refine ⟨?_, ?_, ?_, by simp⟩
  · exact byName_helperForm _ (fun _ _ triggered => triggered) namedHelper_congr
  · exact byName_helperForm _ (fun _ _ triggered => triggered) namedHelper_congr
  · refine byMethod ["parseInt", "parseFloat"] (fun _ _ triggered => triggered) fun _ _ same => ?_
    simp only [namedHelper_congr same]

theorem byName_serverForms : ∀ form ∈ serverForms, form.ByName := by
  simp only [serverForms, List.forall_mem_cons]
  refine ⟨?_, ?_, ?_, ?_, ?_, by simp⟩
  · exact byMethod ["listen"] (fun _ _ triggered => triggered) fun _ _ _ => rfl
  · refine byMethod ["get", "post", "put", "delete"] (fun _ _ h => (Bool.and_eq_true_iff.mp h).1)
      fun _ _ same => ?_
    simp only [methodText_congr same]
  · exact byMethod ["use"] (fun _ _ triggered => triggered) fun _ _ _ => rfl
  · refine byMethod ["send", "json"] (fun _ _ h => (Bool.and_eq_true_iff.mp h).2) fun _ _ same => ?_
    simp only [mimeType, same]
  · exact byMethod ["status"] (fun _ _ h => (Bool.and_eq_true_iff.mp h).2) fun _ _ _ => rfl

theorem byName_stackForms : ∀ form ∈ stackForms, form.ByName := by
  simp only [stackForms, List.forall_mem_cons]
  refine ⟨?_, ?_, by simp⟩
  · exact byName_helperForm ["push"] (fun _ _ triggered => triggered) fun _ => rfl
  · exact byName_helperForm ["pop"] (fun _ _ triggered => triggered) fun _ => rfl

theorem valueCall_congr {site other : CallSite} (head : Piece) (args : List Piece)
    (same : site.method? = other.method?) : valueCall site head args = valueCall other head args := by
  rw [valueCall, valueCall, methodText_congr same]

theorem byName_requestForms : ∀ form ∈ requestForms, form.ByName := by
  simp only [requestForms, List.forall_mem_cons]
  refine ⟨?_, ?_, by simp⟩
  · exact byMethod _ (fun _ _ h => (Bool.and_eq_true_iff.mp h).2) valueCall_congr
  · exact byMethod _ (fun _ _ h => (Bool.and_eq_true_iff.mp (Bool.and_eq_true_iff.mp h).1).2)
      valueCall_congr

-- These two ask for the receiver, which may be the object of a computed access.
theorem byName_mathForms : ∀ form ∈ mathForms, ∀ features site,
    form.trigger features site = true → (∀ key, site.callee ≠ .index (.ident "Math") key) →
      site.method?.isSome = true ∧ ¬ form.ReadsFunction := by
  simp only [mathForms, List.forall_mem_cons]
  refine ⟨?_, ?_, by simp⟩
  · intro features site triggered _
    have called := (Bool.and_eq_true_iff.mp triggered).2
    exact ⟨CallSite.isSome_of_isMethod called, not_readsFunction fun _ _ _ => rfl⟩
  · intro features site triggered dotted
    rcases CallSite.of_isNamespaced triggered with called | ⟨key, computed⟩
    · refine ⟨called, not_readsFunction fun _ _ same => ?_⟩
      simp only [methodText_congr same]
    · exact absurd computed (dotted key)

theorem byName_of_find? {features : Features} {site : CallSite} {form : SpecialForm}
    (found : find? features site = some form) (dotted : ∀ key, site.callee ≠ .index (.ident "Math") key) :
    site.function?.isSome = true ∧ ¬ form.ReadsMethod ∨
      site.method?.isSome = true ∧ ¬ form.ReadsFunction := by
  obtain ⟨listed, triggered⟩ := mem_table_of_find? found
  simp only [table, List.mem_append] at listed
  rcases listed with ((((((((math | console) | dialog) | plain) | list) | array) | string) | server) |
    stack) | request
  · exact .inr (byName_mathForms form math features site triggered dotted)
  · exact byName_consoleForms form console triggered
  · exact byName_dialogForms form dialog triggered
  · exact byName_plainForms form plain triggered
  · exact byName_listForms form list triggered
  · exact byName_arrayForms form array triggered
  · exact byName_stringForms form string triggered
  · exact byName_serverForms form server triggered
  · exact byName_stackForms form stack triggered
  · exact byName_requestForms form request triggered

theorem find?_computedMath (features : Features) (key : Expr) (args : List Expr) :
    ∃ form, find? features ⟨.index (.ident "Math") key, args⟩ = some form ∧ form.name = "Math.*" ∧
      ∀ head items, form.write ⟨.index (.ident "Math") key, args⟩ head items =
        "std::(" ++ commas (texts items) ++ ")" := by
  refine ⟨_, rfl, rfl, fun head items => ?_⟩
  have nameless : "std::" ++ "" ++ "(" = "std::(" := by decide
  rw [← nameless]
  rfl

/-- A form is found by the name of the function or method, unless the call is one of a computed access
to `Math`; that call is always taken for one of a function of `Math`, and written without a name. -/
theorem find?_by_name (features : Features) (callee : Expr) (args : List Expr)
    (parsed : (Expr.call callee args).Parsed) :
    ((∀ form, find? features ⟨callee, args⟩ = some form → form.FitsName callee) ↔
      ∀ key, callee ≠ .index (.ident "Math") key) ∧
    ∀ key, callee = .index (.ident "Math") key →
      ∃ form, find? features ⟨callee, args⟩ = some form ∧ form.name = "Math.*" ∧
        ∀ head items, form.write ⟨callee, args⟩ head items = "std::(" ++ commas (texts items) ++ ")" := by
  have legible := parsed.legible
  have computed : ∀ key, callee = .index (.ident "Math") key →
      ∃ form, find? features ⟨callee, args⟩ = some form ∧ form.name = "Math.*" ∧
        ∀ head items, form.write ⟨callee, args⟩ head items =
          "std::(" ++ commas (texts items) ++ ")" := by
    rintro key rfl
    exact find?_computedMath features key args
  refine ⟨⟨?_, ?_⟩, computed⟩
  · rintro fits key rfl
    obtain ⟨form, found, -⟩ := computed key rfl
    rcases fits form found with ⟨name, -, same, -⟩ | ⟨object, name, -, same, -⟩
    · cases same
    · cases same
  · intro dotted form found
    rcases byName_of_find? found dotted with ⟨function, reads⟩ | ⟨method, reads⟩
    · obtain ⟨name, same⟩ := Option.isSome_iff_exists.mp function
      obtain rfl : callee = .ident name := CallSite.function?_eq_some_iff.mp same
      exact .inl ⟨name, legible (.name name) (by simp), rfl, reads⟩
    · obtain ⟨name, same⟩ := Option.isSome_iff_exists.mp method
      obtain ⟨object, rfl⟩ := CallSite.method?_eq_some_iff.mp same
      exact .inr ⟨object, name, legible (.name name) (by simp), rfl, reads⟩

-- `xs.map(f)`
def mapped : Expr := .call (.member (.ident "xs") "map") [.ident "f"]

theorem find?_by_name_mapped :
    (∀ form, find? ⟨true, true⟩ ⟨.member (.ident "xs") "map", [.ident "f"]⟩ = some form →
      form.FitsName (.member (.ident "xs") "map")) ∧
    ∃ form, find? ⟨true, true⟩ ⟨.member (.ident "xs") "map", [.ident "f"]⟩ = some form ∧
      form.name = "map/filter/forEach" ∧ form.ReadsMethod := by
  have parsed : mapped.Parsed :=
    ⟨"xs.map(f);", [.expr mapped], by with_unfolding_all rfl, _, List.mem_singleton_self _,
      .single (List.mem_singleton_self _)⟩
  refine ⟨(find?_by_name ⟨true, true⟩ _ _ parsed).1.mpr (by simp), _, rfl, rfl, ?_⟩
  exact ⟨⟨.member .this "map", []⟩, ⟨.member .this "filter", []⟩, ⟨"", false⟩, [], rfl, by decide⟩

-- `Math[f](x)`
def computedMath : Expr := .call (.index (.ident "Math") (.ident "f")) [.ident "x"]

theorem computedMath_nameless :
    Program.ofText "Math[f](x);" = .ok [.expr computedMath] ∧
    (∃ form, find? ⟨false, false⟩ ⟨.index (.ident "Math") (.ident "f"), [.ident "x"]⟩ = some form ∧
      form.name = "Math.*" ∧ ¬ form.FitsName (.index (.ident "Math") (.ident "f"))) ∧
    Emission.expr ⟨false, false⟩ 0 computedMath = .ok "std::(x)" := by
  obtain ⟨form, found, named, -⟩ := find?_computedMath ⟨false, false⟩ (.ident "f") [.ident "x"]
  refine ⟨by with_unfolding_all rfl, ⟨form, found, named, ?_⟩, rfl⟩
  rintro (⟨name, -, same, -⟩ | ⟨object, name, -, same, -⟩)
  · cases same
  · cases same

end SpecialForm

end ScriptCpp
