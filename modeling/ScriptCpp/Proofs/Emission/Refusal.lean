import Mathlib
import ScriptCpp.Program
import ScriptCpp.Proofs.Emission.Composition

set_option autoImplicit false

namespace ScriptCpp

namespace Program

variable {features : Features} {program : Program} {error : EmitError}

theorem alone_of_emit_error (failed : program.emit features = .error error) :
    ∃ s ∈ program, Emission.alone features s = .error error := by
  rw [emit_eq_layout] at failed
  rcases mapM_cases (Emission.alone features) program.declarations with
    ⟨units, -, written⟩ | ⟨s, present, first, here, stopped⟩
  · rcases mapM_cases (Emission.alone features) program.entry with
      ⟨texts, -, read⟩ | ⟨s, present, first, here, stopped⟩
    · rw [written, read] at failed
      cases failed
    · rw [written, stopped] at failed
      cases failed
      exact ⟨s, List.mem_of_mem_filter present, here⟩
  · rw [stopped] at failed
    cases failed
    exact ⟨s, List.mem_of_mem_filter present, here⟩

theorem refused_of_emit_error (failed : program.emit features = .error error) :
    ∃ q, program.Has q ∧ q.Refused features error := by
  obtain ⟨s, present, here⟩ := alone_of_emit_error failed
  have steady : Emission.AllSteady features features
      (fun error => ∃ q, program.Has q ∧ q.Refused features error) [.stmt s] := by
    intro n own q occurs
    obtain rfl := List.mem_singleton.mp own
    exact Phrase.steady_self fun _ refused => ⟨q, ⟨s, present, occurs⟩, refused⟩
  rcases Emission.alone_settles (.any features) steady fun _ _ => trivial with
    ⟨text, -, same⟩ | ⟨other, refused, same⟩
  · rw [same features (.inl rfl)] at here
    cases here
  · rw [same features (.inl rfl)] at here
    cases here
    exact refused

/-- A program is written if each of its loops starts with a declaration or an expression, or with
nothing, and each call of a form has the arguments that the form asks for. It fails only where one of
the two is not so, and the message names it. A form that is found reads no argument that is not there
and no receiver that is not there. -/
theorem toCpp_refusals (features : Features) (program : Program) :
    ((∀ start condition update body,
        program.Has (.stmt (.forLoop (some start) condition update body)) → start.startsLoop = true) →
      (∀ callee args form, program.Has (.expr (.call callee args)) →
        SpecialForm.find? features ⟨callee, args⟩ = some form → form.minArgs ≤ args.length) →
      ∃ text, program.toCpp features = .ok text) ∧
    (∀ fault, program.toCpp features = .error fault → ∃ error, fault = .emission error ∧
      ((error = .loopStart ∧
          error.message = "for-loop initializer must be a declaration or expression" ∧
          ∃ start condition update body,
            program.Has (.stmt (.forLoop (some start) condition update body)) ∧
              start.startsLoop = false) ∨
        ∃ callee args form, program.Has (.expr (.call callee args)) ∧
          SpecialForm.find? features ⟨callee, args⟩ = some form ∧ args.length < form.minArgs ∧
          error = .tooFewArguments form.name form.minArgs args.length ∧
          error.message = "`" ++ form.name ++ "` expects at least " ++ toString form.minArgs ++
            " argument(s), got " ++ toString args.length)) ∧
    ∀ site form, SpecialForm.find? features site = some form → form.minArgs ≤ site.args.length →
      (∀ reading ∈ form.reads, ∃ taken, reading.pick site.args = .ok taken) ∧
        (form.head = .receiver → ∃ object, site.receiver? = some object) := by
  have refusals : ∀ fault, program.toCpp features = .error fault →
      ∃ error, fault = .emission error ∧ ∃ q, program.Has q ∧ q.Refused features error := by
    intro fault failed
    unfold toCpp at failed
    cases emitted : program.emit features with
    | ok text =>
      rw [emitted] at failed
      cases failed
    | error error =>
      rw [emitted] at failed
      cases failed
      exact ⟨error, rfl, refused_of_emit_error emitted⟩
  refine ⟨fun loops calls => ?_, fun fault failed => ?_, fun site form found enough => ?_⟩
  · cases written : program.toCpp features with
    | ok text => exact ⟨text, rfl⟩
    | error fault =>
      obtain ⟨error, -, q, has, refused⟩ := refusals fault written
      cases refused with
      | loop other =>
        rw [loops _ _ _ _ has] at other
        cases other
      | call found few => exact absurd (calls _ _ _ has found) (Nat.not_le.mpr few)
  · obtain ⟨error, same, q, has, refused⟩ := refusals fault failed
    refine ⟨error, same, ?_⟩
    cases refused with
    | loop other => exact .inl ⟨rfl, rfl, _, _, _, _, has, other⟩
    | call found few => exact .inr ⟨_, _, _, has, found, few, rfl, rfl⟩
  · obtain ⟨supplied, received⟩ := SpecialForm.supplied_of_find? found enough
    exact ⟨fun reading own => ⟨_, Reading.pick_eq (supplied reading own)⟩, received⟩

-- `for (let i = a; ; ) { xs.reduce(f, i); }`
def reducing : Program :=
  [.forLoop (some (.declare "i" (some (.ident "a")))) none none
    [.expr (.call (.member (.ident "xs") "reduce") [.ident "f", .ident "i"])]]

-- `xs.map((x) => x.reduce(f));`
def unreduced : Program :=
  [.expr (.call (.member (.ident "xs") "map")
    [.arrowValue ["x"] (.call (.member (.ident "x") "reduce") [.ident "f"])])]

theorem toCpp_refusals_reducing : (∃ text, reducing.toCpp ⟨false, false⟩ = .ok text) ∧
    ∃ callee args form, unreduced.Has (.expr (.call callee args)) ∧
      SpecialForm.find? ⟨false, false⟩ ⟨callee, args⟩ = some form ∧ args.length < form.minArgs := by
  have least : (SpecialForm.find? ⟨false, false⟩
      ⟨.member (.ident "xs") "reduce", [.ident "f", .ident "i"]⟩).all (·.minArgs = 2) = true := by
    decide +kernel
  have starts : Phrase.Each (fun q => ∀ start condition update body,
      q = .stmt (.forLoop (some start) condition update body) → start.startsLoop = true)
      (reducing.map .stmt) := by
    simp only [reducing, List.map_cons, Phrase.each_cons_iff, Phrase.children, Stmt.children]
    refine ⟨?_, ?_⟩
    · rintro start condition update body ⟨⟩
      rfl
    · simp [Phrase.each_cons_iff, Phrase.each_nil, Phrase.children, Stmt.children, Expr.children]
  have calls : Phrase.Each (fun q => ∀ callee args form, q = .expr (.call callee args) →
      SpecialForm.find? ⟨false, false⟩ ⟨callee, args⟩ = some form → form.minArgs ≤ args.length)
      (reducing.map .stmt) := by
    suffices ∀ callee args form, callee = .member (.ident "xs") "reduce" →
        args = [.ident "f", .ident "i"] →
        SpecialForm.find? ⟨false, false⟩ ⟨callee, args⟩ = some form → form.minArgs ≤ args.length by
      simpa [reducing, Phrase.each_cons_iff, Phrase.each_nil, Phrase.children, Stmt.children,
        Expr.children, eq_comm] using this
    rintro _ _ form rfl rfl found
    rw [found] at least
    exact (of_decide_eq_true least).le
  have failed : unreduced.toCpp ⟨false, false⟩ = .error (.emission (.tooFewArguments "reduce" 2 1)) := by
    decide +kernel
  refine ⟨(toCpp_refusals ⟨false, false⟩ reducing).1 ?_ ?_, ?_⟩
  · exact fun _ _ _ _ has => forall_has_iff.mpr starts _ has _ _ _ _ rfl
  · exact fun _ _ _ has => forall_has_iff.mpr calls _ has _ _ _ rfl
  · obtain ⟨error, same, ⟨rfl, -⟩ | ⟨callee, args, form, has, found, few, -⟩⟩ :=
      (toCpp_refusals ⟨false, false⟩ unreduced).2.1 _ failed
    · cases same
    · exact ⟨callee, args, form, has, found, few⟩

end Program

end ScriptCpp
