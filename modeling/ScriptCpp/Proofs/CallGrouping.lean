import Mathlib
import ScriptCpp.Proofs.Emission.ExprExposure

set_option autoImplicit false

namespace ScriptCpp.Emission

open Cpp

variable {features : Features} {depth : Nat}

def Spelled (features : Features) (depth : Nat) (es : List Expr) (texts : List String) : Prop :=
  List.Forall₂ (fun e text => expr features depth e = .ok text) es texts

theorem Spelled.readable {es : List Expr} {texts : List String} (h : Spelled features depth es texts)
    (proper : AllProper (Expr.materialEach es)) : ∀ text ∈ texts, Readable text := by
  induction h with
  | nil => exact List.forall_mem_nil _
  | @cons e text rest texts here _ ih =>
    obtain ⟨own, others⟩ := allProper_append.mp proper
    exact List.forall_mem_cons.mpr ⟨(expr_chain own here).readable, ih others⟩

theorem call_spelled {callee : Expr} {args : List Expr} {text : String}
    (plain : SpecialForm.find? features ⟨callee, args⟩ = none)
    (written : expr features depth (.call callee args) = .ok text) :
    ∃ calleeText argTexts, expr features depth callee = .ok calleeText ∧
      Spelled features depth args argTexts ∧ text = calleeText ++ "(" ++ commas argTexts ++ ")" := by
  rw [expr_plainCall plain] at written
  cases called : expr features depth callee with
  | error e =>
    rw [called] at written
    cases written
  | ok calleeText =>
    cases given : args.mapM (expr features depth) with
    | error e =>
      rw [called, given] at written
      cases written
    | ok argTexts =>
      rw [called, given] at written
      exact ⟨calleeText, argTexts, rfl, forall₂_of_mapM given, (Except.ok.inj written).symm⟩

/-- The arguments apply to the whole callee exactly where its text has no sign outside all brackets;
elsewhere the text is read as the operation of such a sign. -/
theorem call_grouping (features : Features) (depth : Nat) (callee : Expr) (args : List Expr)
    (parsed : (Expr.call callee args).Parsed)
    (plain : SpecialForm.find? features ⟨callee, args⟩ = none) (text : String)
    (emitted : expr features depth (.call callee args) = .ok text) :
    ∃ calleeText argTexts c xs x,
      expr features depth callee = .ok calleeText ∧ Spelled features depth args argTexts ∧
      MeansOnly calleeText c ∧ List.Forall₂ MeansOnly argTexts xs ∧ MeansOnly text x ∧
      (x = .call c xs ↔ callee.exposed features = false) ∧
      (callee.exposed features = true → x.isJoined = true) ∧
      (callee.exposed features = true ↔ ∃ sign ∈ spacedSigns, Exposes calleeText sign) := by
  obtain ⟨own, others⟩ := allProper_append.mp parsed.allProper
  obtain ⟨calleeText, argTexts, called, given, rfl⟩ := call_spelled plain emitted
  have chain := expr_chain own called
  have each := given.readable others
  obtain ⟨c, alone, -⟩ := chain.stands
  obtain ⟨xs, terms⟩ := terms_of_readable each
  obtain ⟨x, whole, joined⟩ := (chain.call each).stands
  refine ⟨calleeText, argTexts, c, xs, x, called, given, alone.means.only,
    terms.imp fun _ _ term => term.means.only, whole.means.only, ?_, joined, chain.exposes_iff.symm⟩
  rw [← chain.means_call_iff alone.means terms each, whole.means.only, eq_comm]

-- `(p ? f : fs[i])(a + b, c = d)`
def chosenCallee : Expr :=
  .call (.conditional (.ident "p") (.ident "f") (.index (.ident "fs") (.ident "i")))
    [.binary .add (.ident "a") (.ident "b"), .assign (.ident "c") (.ident "d")]

theorem call_grouping_chosen :
    SpecialForm.find? ⟨true, true⟩ ⟨chosenCallee, [.negate (.ident "x"), .this]⟩ = none ∧
    expr ⟨true, true⟩ 0 (.call chosenCallee [.negate (.ident "x"), .this]) =
      .ok "(p ? f : fs[i])(a + b, c = d)((-x), this)" ∧
    ∃ c first second, MeansOnly "(p ? f : fs[i])(a + b, c = d)" c ∧
      MeansOnly "(-x)" first ∧ MeansOnly "this" second ∧
      MeansOnly "(p ? f : fs[i])(a + b, c = d)((-x), this)" (.call c [first, second]) := by
  have parsed : (Expr.call chosenCallee [.negate (.ident "x"), .this]).Parsed :=
    ⟨"(p ? f : fs[i])(a + b, c = d)(-x, this);",
      [.expr (.call chosenCallee [.negate (.ident "x"), .this])], by with_unfolding_all rfl, _,
      List.mem_singleton_self _, .single (List.mem_singleton_self _)⟩
  have plain : SpecialForm.find? ⟨true, true⟩ ⟨chosenCallee, [.negate (.ident "x"), .this]⟩ = none := by
    decide
  obtain ⟨calleeText, argTexts, c, xs, x, called, given, alone, terms, whole, grouping, -⟩ :=
    call_grouping ⟨true, true⟩ 0 chosenCallee _ parsed plain _ rfl
  have own : expr ⟨true, true⟩ 0 chosenCallee = .ok "(p ? f : fs[i])(a + b, c = d)" := rfl
  obtain rfl := Except.ok.inj (called.symm.trans own)
  obtain _ | ⟨one, _ | ⟨two, ⟨⟩⟩⟩ := given
  obtain rfl := Except.ok.inj (one.symm.trans (rfl : _ = Except.ok "(-x)"))
  obtain rfl := Except.ok.inj (two.symm.trans (rfl : _ = Except.ok "this"))
  obtain _ | ⟨first, _ | ⟨second, ⟨⟩⟩⟩ := terms
  rw [grouping.mpr rfl] at whole
  exact ⟨plain, rfl, c, _, _, alone, first, second, whole⟩

-- `(a + b)(c)`
def summedCallee : Expr := .call (.binary .add (.ident "a") (.ident "b")) [.ident "c"]

theorem summedCallee_regrouped :
    Program.ofText "(a + b)(c);" = .ok [.expr summedCallee] ∧
    SpecialForm.find? ⟨false, false⟩ ⟨.binary .add (.ident "a") (.ident "b"), [.ident "c"]⟩ = none ∧
    expr ⟨false, false⟩ 0 (.binary .add (.ident "a") (.ident "b")) = .ok "a + b" ∧
    MeansOnly "a + b" (.binary ['+'] (.leaf ['a']) (.leaf ['b'])) ∧
    expr ⟨false, false⟩ 0 summedCallee = .ok "a + b(c)" ∧
    MeansOnly "a + b(c)" (.binary ['+'] (.leaf ['a']) (.call (.leaf ['b']) [.leaf ['c']])) := by
  have a : Stands endings 6 "a" (.leaf ['a']) := (Stands.name (by decide)).loosen (by omega)
  have b : Stands endings 9 "b" (.leaf ['b']) := Stands.name (by decide)
  have c : Lists ["c"] [.leaf ['c']] :=
    lists_of_forall₂ (.cons ((Stands.name (by decide)).loosen (Nat.zero_le _)) .nil)
  have plus : "+".toList ∈ spacedSigns := by decide
  have sum := a.binary (rfl : rank? "+".toList = _) plus (b.loosen (by omega))
  have call : Stands endings 9 ("b" ++ "(" ++ commas ["c"] ++ ")") _ := b.call c
  have whole := a.binary (rfl : rank? "+".toList = _) plus (call.loosen (by omega))
  have sumText : "a" ++ " " ++ "+" ++ " " ++ "b" = "a + b" := by decide
  have wholeText : "a" ++ " " ++ "+" ++ " " ++ ("b" ++ "(" ++ commas ["c"] ++ ")") = "a + b(c)" := by
    decide
  rw [sumText] at sum
  rw [wholeText] at whole
  exact ⟨by with_unfolding_all rfl, by decide, rfl, sum.means.only, rfl, whole.means.only⟩

theorem grouped_chain {e : Expr} {text : String} (proper : AllProper e.material)
    (written : grouped features depth e = .ok text) : Chain (e.groupedExposed features) text := by
  rw [grouped_eq] at written
  cases inner : expr features depth e with
  | error e =>
    rw [inner] at written
    cases written
  | ok own =>
    rw [inner] at written
    cases written
    exact chain_group (expr_chain proper inner)

/-- What is glued to a grouped text applies to the whole of it exactly where the text has no sign
outside all brackets. A point behind a number is part of the number. -/
theorem grouped_gluing (features : Features) (depth : Nat) (e : Expr) (parsed : e.Parsed)
    (text : String) (emitted : grouped features depth e = .ok text) :
    (e.groupedExposed features = true ↔ ∃ sign ∈ spacedSigns, Exposes text sign) ∧
    ∃ g, MeansOnly text g ∧
      (∀ name, IsName name → (Means (text ++ "." ++ name) (.member ['.'] g name.toList) ↔
        e.groupedExposed features = false ∧ ¬ IsNumeral text)) ∧
      (∀ key level keyText, key.Parsed → expr features level key = .ok keyText →
        ∃ k, MeansOnly keyText k ∧
        (Means (text ++ "[" ++ keyText ++ "]") (.index g k) ↔ e.groupedExposed features = false)) ∧
      (Means ("-" ++ text) (.minus g) ↔ e.groupedExposed features = false) ∧
      (e.groupedExposed features = false → ∀ stream s, Stands endings 5 stream s →
        Stands endings 5 (stream ++ " << " ++ text) (.binary ['<', '<'] s g)) := by
  have chain := grouped_chain parsed.allProper emitted
  obtain ⟨g, alone, -⟩ := chain.stands
  refine ⟨chain.exposes_iff.symm, g, alone.means.only, ?_, ?_, ?_, ?_⟩
  · exact fun name named => chain.means_dot_iff alone.means named.isPath named.parts
  · intro key level keyText given written
    obtain ⟨k, chosen, -⟩ := (expr_chain given.allProper written).stands
    exact ⟨k, chosen.means.only, chain.means_index_iff alone.means chosen⟩
  · exact chain.means_minus_iff alone.means
  · exact fun single stream s before => chain.streamed alone.means single before

-- `res.status(c)`
def setStatus : Expr := .call (.member (.ident "res") "status") [.ident "c"]

theorem grouped_gluing_assigned :
    grouped ⟨false, true⟩ 0 (.assign (.ident "x") setStatus) = .ok "(x = res.status = c)" ∧
    (∀ sign ∈ spacedSigns, ¬ Exposes "(x = res.status = c)" sign) ∧
    ∃ g k, MeansOnly "(x = res.status = c)" g ∧ MeansOnly "a + b" k ∧
      Means ("(x = res.status = c)" ++ "." ++ "body") (.member ['.'] g "body".toList) ∧
      Means ("(x = res.status = c)" ++ "[" ++ "a + b" ++ "]") (.index g k) ∧
      Means ("-" ++ "(x = res.status = c)") (.minus g) ∧
      Stands endings 5 ("std::cout" ++ " << " ++ "(x = res.status = c)")
        (.binary ['<', '<'] (.leaf "std::cout".toList) g) := by
  have parsed : (Expr.assign (.ident "x") setStatus).Parsed :=
    ⟨"x = res.status(c);", [.expr (.assign (.ident "x") setStatus)], by with_unfolding_all rfl, _,
      List.mem_singleton_self _, .single (List.mem_singleton_self _)⟩
  have key : (Expr.binary .add (.ident "a") (.ident "b")).Parsed :=
    ⟨"a + b;", [.expr (.binary .add (.ident "a") (.ident "b"))], by with_unfolding_all rfl, _,
      List.mem_singleton_self _, .single (List.mem_singleton_self _)⟩
  have emitted : grouped ⟨false, true⟩ 0 (.assign (.ident "x") setStatus) =
      .ok "(x = res.status = c)" := rfl
  have word : ¬ IsNumeral "(x = res.status = c)" := by
    rintro ⟨c, cs, spelled, digit, -⟩
    cases spelled
    cases digit
  have stream : Stands endings 5 "std::cout" (.leaf "std::cout".toList) :=
    (Stands.name (by decide)).loosen (by omega)
  obtain ⟨exposes, g, own, member, index, minus, streamed⟩ :=
    grouped_gluing ⟨false, true⟩ 0 (.assign (.ident "x") setStatus) parsed _ emitted
  obtain ⟨k, chosen, indexed⟩ := index _ 0 "a + b" key rfl
  refine ⟨emitted, fun sign known exposed => ?_, g, k, own, chosen,
    (member "body" (by decide)).mpr ⟨rfl, word⟩, indexed.mpr rfl, minus.mpr rfl,
    streamed rfl _ _ stream⟩
  cases exposes.mpr ⟨sign, known, exposed⟩

theorem setStatus_ungrouped :
    Program.ofText "res.status(c);" = .ok [.expr setStatus] ∧
    grouped ⟨false, true⟩ 0 setStatus = .ok "res.status = c" ∧
    Exposes "res.status = c" ['='] ∧
    MeansOnly "res.status = c"
      (.assign (.member ['.'] (.leaf "res".toList) "status".toList) (.leaf ['c'])) ∧
    MeansOnly "res.status = c.body" (.assign (.member ['.'] (.leaf "res".toList) "status".toList)
      (.member ['.'] (.leaf ['c']) "body".toList)) := by
  have field (object name : String) (path : IsPath object.toList) (named : IsPath name.toList) :
      Stands endings 9 (object ++ "." ++ name) (.member ['.'] (.leaf object.toList) name.toList) :=
    (((Stands.word path).loosen (by omega)).dot named).mono (List.subset_cons_self _ _)
  have status := (field "res" "status" (by decide) (by decide)).loosen (by omega : 1 ≤ 9)
  have c : Stands endings 9 "c" (.leaf ['c']) := Stands.name (by decide)
  have own := status.assign (c.loosen (Nat.zero_le _))
  have glued := status.assign ((field "c" "body" (by decide) (by decide)).loosen (Nat.zero_le _))
  have ownText : "res" ++ "." ++ "status" ++ " = " ++ "c" = "res.status = c" := by decide
  have gluedText : "res" ++ "." ++ "status" ++ " = " ++ ("c" ++ "." ++ "body") =
      "res.status = c.body" := by decide
  rw [ownText] at own
  rw [gluedText] at glued
  refine ⟨by with_unfolding_all rfl, rfl, ?_, own.means.only, glued.means.only⟩
  have cut := (Cuts.fixed (rfl : quiet "res.status = c".toList = true)).segments
  exact ⟨"res.status".toList.map .code, [Segment.code 'c'], rfl, cut⟩

end ScriptCpp.Emission
