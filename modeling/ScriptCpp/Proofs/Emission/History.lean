import Mathlib
import ScriptCpp.Proofs.Emission.Drafting
import ScriptCpp.Proofs.Parsing.Phrases

set_option autoImplicit false

namespace ScriptCpp

def Expr.Parsed (e : Expr) : Prop :=
  ∃ text program, Program.ofText text = .ok program ∧ ∃ s ∈ program, (Phrase.stmt s).Holds (.expr e)

theorem Expr.Parsed.material {e : Expr} (h : e.Parsed) :
    ∃ text program, Program.ofText text = .ok program ∧ e.material ⊆ Stmt.materialEach program := by
  obtain ⟨text, program, read, s, present, occurs⟩ := h
  refine ⟨text, program, read, fun m own => ?_⟩
  rw [Stmt.materialEach_eq]
  exact List.mem_flatMap_of_mem present (occurs.material own)

theorem Expr.Parsed.allFine {e : Expr} (h : e.Parsed) : AllFine e.material := by
  obtain ⟨text, program, read, inside⟩ := h.material
  exact fun m own => Program.allFine_of_ofText read m (inside own)

def Vocabulary.all (features : Features) : Vocabulary features where
  allows _ := True
  plain _ _ := trivial
  helper _ _ := trivial

theorem Expr.Parsed.allSound {e : Expr} (h : e.Parsed) (features : Features) :
    AllSound (.all features) e.material :=
  fun m present => ⟨h.allFine m present, fun _ _ => trivial⟩

namespace Emitter

inductive Request where
  | expr (e : Expr)
  | grouped (e : Expr)
  | args (es : List Expr)

def Request.exprs : Request → List Expr
  | .expr e | .grouped e => [e]
  | .args es => es

def respond (m : Emitter) : Request → Except EmitError String × Emitter
  | .expr e => m.expr e
  | .grouped e => m.grouped e
  | .args es => m.args es

def after (m : Emitter) (requests : List Request) : Emitter :=
  requests.foldl (fun m r => (m.respond r).2) m

def Request.action : Request → Scribe String
  | .expr e => Scribe.expr e
  | .grouped e => Scribe.grouped e
  | .args es => Scribe.commaList (Scribe.pieces es)

theorem respond_eq (m : Emitter) (r : Request) : m.respond r = m.perform r.action := by
  cases r <;> rfl

open Emission in
theorem Request.settled {r : Request} {features : Features} {v : Vocabulary features}
    (sound : ∀ e ∈ r.exprs, AllSound v e.material) : Settled features r.action (Inline v) := by
  have each : ∀ e ∈ r.exprs, Settled features (Scribe.expr e) (Inline v) := fun e present =>
    expr_settled (draftLaws v) e (sound e present)
  cases r with
  | expr e => exact each e (List.mem_singleton_self e)
  | grouped e => exact (each e (List.mem_singleton_self e)).map fun _ text => inline_group text
  | args es =>
    refine (pieces_settle (E := fun _ => Inline v) each).bind ?_
    rintro _ ⟨ps, written, rfl⟩
    exact .pure (inline_list written)

-- One answer, given what a new emitter answers.
theorem respond_shifts {r : Request} (parsed : ∀ e ∈ r.exprs, e.Parsed) (features : Features)
    (k : Nat) :
    (⟨features, k⟩ : Emitter).respond r =
      (((new features).respond r).1.map (reindent k), ⟨features, k + ((new features).respond r).2.depth⟩) := by
  have settled := r.settled fun e present => (parsed e present).allSound features
  rw [respond_eq, respond_eq]
  rcases settled with ⟨a, inline, done⟩ | ⟨error, rise, -, failed⟩
  · have shifted : a k = reindent k (a 0) := by
      rw [← inline.steady, Nat.zero_add]
    rw [new, done features (.inl rfl) k, done features (.inl rfl) 0, shifted]
    rfl
  · rw [new, failed features (.inl rfl) k, failed features (.inl rfl) 0, Nat.zero_add]
    rfl

theorem respond_restores {m m' : Emitter} {r : Request} {text : String}
    (parsed : ∀ e ∈ r.exprs, e.Parsed) (done : m.respond r = (.ok text, m')) : m' = m := by
  have restores : r.action.Restores := Scribe.restores_of_settled fun features =>
    (r.settled fun e present => (parsed e present).allSound features).imp fun _ _ => trivial
  exact restores ((respond_eq m r).symm.trans done)

theorem after_eq (features : Features) (k : Nat) (requests : List Request)
    (parsed : ∀ r ∈ requests, ∀ e ∈ r.exprs, e.Parsed) :
    (⟨features, k⟩ : Emitter).after requests =
      ⟨features, k + (requests.map fun r => ((new features).respond r).2.depth).sum⟩ := by
  induction requests generalizing k with
  | nil => rfl
  | cons r requests ih =>
    obtain ⟨here, later⟩ := List.forall_mem_cons.mp parsed
    have step := ih (k + ((new features).respond r).2.depth) later
    rw [after, List.foldl_cons, respond_shifts here, ← after, step, List.map_cons, List.sum_cons,
      Nat.add_assoc]

/-- After any requests, failed ones included, an emitter is indented by what each of them would leave
on a new one. A request then succeeds as on a new emitter, with the text indented so much further and
nothing left behind, or fails as there, and adds what it leaves there. -/
theorem history_shifts {features : Features} {before : List Request} {m : Emitter} {r : Request}
    (reached : (new features).after before = m)
    (parsed : ∀ q ∈ r :: before, ∀ e ∈ q.exprs, e.Parsed) :
    m.features = features ∧
      m.depth = (before.map fun q => ((new features).respond q).2.depth).sum ∧
      (∀ text, ((new features).respond r).1 = .ok text →
        m.respond r = (.ok (reindent m.depth text), m)) ∧
      ∀ e, ((new features).respond r).1 = .error e →
        m.respond r = (.error e, ⟨features, m.depth + ((new features).respond r).2.depth⟩) := by
  obtain ⟨here, earlier⟩ := List.forall_mem_cons.mp parsed
  obtain rfl := reached.symm.trans (after_eq features 0 before earlier)
  rw [Nat.zero_add]
  refine ⟨rfl, rfl, ?_, ?_⟩
  · intro text done
    have kept : ((new features).respond r).2 = new features := respond_restores here (Prod.ext done rfl)
    rw [respond_shifts here, done, kept]
    rfl
  · intro e failed
    rw [respond_shifts here, failed]
    rfl

-- `f(() => { sort(); }); g = () => x;`
def failingText : String := "f(() => \x7b sort(); \x7d); g = () => x;"

theorem history_shifts_failed : ∃ failing good : Expr, failing.Parsed ∧ good.Parsed ∧
    ((new ⟨false, false⟩).respond (.expr failing)).1 = .error (.tooFewArguments "sort" 1 0) ∧
    ((new ⟨false, false⟩).respond (.expr good)).1 = .ok "g = [&]() \x7b\n    return x;\n\x7d" ∧
    ((new ⟨false, false⟩).after [.expr failing]).respond (.expr good) =
      (.ok "g = [&]() \x7b\n        return x;\n    \x7d", ⟨⟨false, false⟩, 1⟩) := by
  have evaluated : (Program.ofText failingText).map (fun program =>
      (program.filterMap Stmt.expr?).map fun e =>
        (((new ⟨false, false⟩).respond (.expr e)).1, ((new ⟨false, false⟩).respond (.expr e)).2.depth)) =
      .ok [(.error (.tooFewArguments "sort" 1 0), 1), (.ok "g = [&]() \x7b\n    return x;\n\x7d", 0)] := by
    decide +kernel
  cases read : Program.ofText failingText with
  | error e => simp [read, Except.map] at evaluated
  | ok program =>
    simp only [read, Except.map, Except.ok.injEq] at evaluated
    have found : ∀ e ∈ program.filterMap Stmt.expr?, e.Parsed := by
      intro e present
      obtain ⟨s, among, own⟩ := List.mem_filterMap.mp present
      refine ⟨failingText, program, read, s, among, ?_⟩
      cases s with
      | expr value =>
        obtain rfl : value = e := Option.some.inj own
        exact .single (List.mem_singleton_self _)
      | _ => cases own
    obtain ⟨failing, rest, listed, first, later⟩ := List.map_eq_cons_iff.mp evaluated
    obtain ⟨good, last, rfl, second, -⟩ := List.map_eq_cons_iff.mp later
    rw [Prod.mk.injEq] at first second
    have parsed : failing.Parsed ∧ good.Parsed := by
      constructor
      · exact found failing (by simp [listed])
      · exact found good (by simp [listed])
    have each : ∀ q ∈ [Request.expr good, .expr failing], ∀ e ∈ q.exprs, e.Parsed := by
      simpa [Request.exprs, and_comm] using parsed
    have reached : (new ⟨false, false⟩).after [.expr failing] = ⟨⟨false, false⟩, 1⟩ := by
      rw [new, after_eq ⟨false, false⟩ 0 [.expr failing] (List.forall_mem_cons.mp each).2]
      simp [first.2]
    obtain ⟨-, -, succeeds, -⟩ := history_shifts reached each
    have indented : reindent 1 "g = [&]() \x7b\n    return x;\n\x7d" =
        "g = [&]() \x7b\n        return x;\n    \x7d" := by decide +kernel
    refine ⟨failing, good, parsed.1, parsed.2, first.1, second.1, ?_⟩
    rw [reached, succeeds _ second.1, indented]

end Emitter

end ScriptCpp
