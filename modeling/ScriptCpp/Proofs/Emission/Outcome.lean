import Mathlib
import ScriptCpp.Proofs.Emission.Walk

set_option autoImplicit false

namespace ScriptCpp

namespace Emission

section Single

variable {features : Features} {M : Material → Prop} {E F : Expr → Draft → Prop} {S : Part → Draft → Prop}

-- Under one set of features, where any error is allowed.
abbrev Settled {α : Type} (features : Features) (act : Scribe α) (P : (Nat → α) → Prop) : Prop :=
  Settles features features (fun _ => True) (fun _ => act) P

theorem allSteady_self {ns : List Phrase} : AllSteady features features (fun _ => True) ns :=
  fun _ _ _ _ => Phrase.steady_self fun _ _ => trivial

theorem expr_settled (laws : Laws features M E F S) (e : Expr) (sound : AllOf M e.material) :
    Settled features (Scribe.expr e) (E e) :=
  expr_settles laws e allSteady_self sound

theorem stmt_settled (laws : Laws features M E F S) (s : Stmt) (sound : AllOf M s.material) :
    Settled features (Scribe.stmt s) (S (.stmt s)) :=
  stmt_settles laws s allSteady_self sound

end Single

theorem Laws.any (features : Features) :
    Laws features (fun _ => True) (fun _ _ => True) (fun _ _ => True) (fun _ _ => True) := by
  refine ⟨?_, ?_, fun _ => trivial⟩
  all_goals
    constructor
    all_goals intros; trivial

end Emission

open Emission

namespace Scribe

-- A success leaves the emitter as it was.
def Restores {α : Type} (act : Scribe α) : Prop :=
  ∀ ⦃m m' : Emitter⦄ ⦃a : α⦄, m.perform act = (.ok a, m') → m' = m

theorem restores_of_settled {α : Type} {act : Scribe α}
    (settled : ∀ features, Settled features act fun _ => True) : act.Restores := by
  rintro ⟨features, depth⟩ m' a done
  rcases settled features with ⟨b, -, same⟩ | ⟨error, rise, -, failed⟩
  · rw [same features (.inl rfl) depth, Prod.mk.injEq] at done
    exact done.2.symm
  · rw [failed features (.inl rfl) depth, Prod.mk.injEq] at done
    cases done.1

theorem expr_restores (e : Expr) : (expr e).Restores :=
  restores_of_settled fun features => expr_settled (.any features) e fun _ _ => trivial

theorem stmt_restores (s : Stmt) : (stmt s).Restores :=
  restores_of_settled fun features => stmt_settled (.any features) s fun _ _ => trivial

theorem stmts_restore (body : List Stmt) : (stmts body).Restores :=
  restores_of_settled fun features => stmts_settle (.any features) body allSteady_self fun _ _ => trivial

theorem clauses_restore (cases : List CaseClause) : (clauses cases).Restores :=
  restores_of_settled fun features => clauses_settle (.any features) cases allSteady_self fun _ _ => trivial

theorem fallback_restores (body : Option (List Stmt)) : (defaultClause body).Restores :=
  restores_of_settled fun features => fallback_settles (.any features) body allSteady_self fun _ _ => trivial

theorem Restores.bind {α β : Type} {act : Scribe α} {next : α → Scribe β} (first : act.Restores)
    (later : ∀ a, (next a).Restores) : (act >>= next).Restores := by
  intro m m' b done
  rw [Emitter.perform_bind] at done
  rcases performed : m.perform act with ⟨result, m''⟩
  rw [performed] at done
  cases result with
  | error e => cases (Prod.mk.inj done).1
  | ok a =>
    obtain rfl := first performed
    exact later a done

theorem Restores.pure {α : Type} (a : α) : (Pure.pure a : Scribe α).Restores := by
  intro m m' b done
  exact (Prod.mk.inj done).2.symm

theorem putLine_restores (text : String) : (putLine text).Restores := by
  intro m m' b done
  exact (Prod.mk.inj done).2.symm

theorem Restores.nested {inside : Scribe String} (restores : inside.Restores) : (nested inside).Restores := by
  intro m m' text done
  have raised : m.perform (Scribe.nested inside) = (⟨m.features, m.depth + 1⟩ : Emitter).perform
      (inside >>= fun text => dedent >>= fun _ => Pure.pure text) := rfl
  rw [raised, Emitter.perform_bind] at done
  rcases performed : (⟨m.features, m.depth + 1⟩ : Emitter).perform inside with ⟨e | a, m''⟩
  · rw [performed] at done
    cases (Prod.mk.inj done).1
  · rw [performed, restores performed] at done
    exact (Prod.mk.inj done).2.symm

theorem Restores.braced {inside : Scribe String} (restores : inside.Restores) (head : String) :
    (braced head inside).Restores :=
  (putLine_restores _).bind fun _ => restores.nested.bind fun _ => (putLine_restores _).bind fun _ => .pure _

end Scribe

structure EmitFailure where
  error : EmitError
  depth : Nat
deriving DecidableEq, Repr

-- A result, or an error together with the depth at which it arose.
abbrev Emitted (α : Type) := Except EmitFailure α

namespace Scribe

variable {α β : Type} {act : Scribe α} {features : Features} {depth : Nat}

def outcome (act : Scribe α) (features : Features) (depth : Nat) : Emitted α :=
  match (⟨features, depth⟩ : Emitter).perform act with
  | (.ok a, _) => .ok a
  | (.error e, m) => .error ⟨e, m.depth⟩

theorem outcome_of_ok {a : α} {m : Emitter}
    (done : (⟨features, depth⟩ : Emitter).perform act = (.ok a, m)) : act.outcome features depth = .ok a := by
  rw [outcome, done]

theorem outcome_of_error {e : EmitError} {m : Emitter}
    (failed : (⟨features, depth⟩ : Emitter).perform act = (.error e, m)) :
    act.outcome features depth = .error ⟨e, m.depth⟩ := by
  rw [outcome, failed]

theorem perform_fst (m : Emitter) :
    (m.perform act).1 = (act.outcome m.features m.depth).mapError EmitFailure.error := by
  rcases performed : m.perform act with ⟨_ | _, _⟩
  · rw [outcome_of_error performed]
    rfl
  · rw [outcome_of_ok performed]
    rfl

theorem outcome_bind (restores : act.Restores) (next : α → Scribe β) :
    (act >>= next).outcome features depth =
      act.outcome features depth >>= fun a => (next a).outcome features depth := by
  rcases performed : (⟨features, depth⟩ : Emitter).perform act with ⟨e | a, m⟩
  · rw [outcome_of_error performed, outcome_of_error (Emitter.perform_bind_error _ performed)]
    rfl
  · obtain rfl := restores performed
    rw [outcome_of_ok performed, outcome, Emitter.perform_bind_ok _ performed]
    rfl

theorem outcome_bind_ok (restores : act.Restores) {a : α} (done : act.outcome features depth = .ok a)
    {next : α → Scribe β} : (act >>= next).outcome features depth = (next a).outcome features depth := by
  rw [outcome_bind restores, done]
  rfl

theorem outcome_features (next : Features → Scribe β) :
    (Scribe.features >>= next).outcome features depth = (next features).outcome features depth := rfl

theorem outcome_setDepth (other : Nat) (next : Unit → Scribe β) :
    (setDepth other >>= next).outcome features depth = (next ()).outcome features other := rfl

theorem outcome_map (k : α → β) : (k <$> act).outcome features depth = (act.outcome features depth).map k := by
  rcases performed : (⟨features, depth⟩ : Emitter).perform act with ⟨e | a, m⟩
  · rw [outcome_of_error performed, map_eq_pure_bind,
      outcome_of_error (Emitter.perform_bind_error _ performed)]
    rfl
  · rw [outcome_of_ok performed, map_eq_pure_bind, outcome, Emitter.perform_bind_ok _ performed]
    rfl

theorem outcome_nested {inside : Scribe String} (restores : inside.Restores) :
    (nested inside).outcome features depth = inside.outcome features (depth + 1) := by
  have raised : (⟨features, depth⟩ : Emitter).perform (nested inside) =
      (⟨features, depth + 1⟩ : Emitter).perform (inside >>= fun text => dedent >>= fun _ => pure text) := rfl
  rcases performed : (⟨features, depth + 1⟩ : Emitter).perform inside with ⟨e | a, m⟩
  · rw [outcome_of_error performed,
      outcome_of_error (raised.trans (Emitter.perform_bind_error _ performed))]
  · obtain rfl := restores performed
    rw [outcome_of_ok performed, outcome, raised, Emitter.perform_bind_ok _ performed]
    rfl

theorem outcome_braced {inside : Scribe String} (restores : inside.Restores) (head : String) :
    (braced head inside).outcome features depth =
      (inside.outcome features (depth + 1)).map (blockText depth head) := by
  have opened : (braced head inside).outcome features depth = (nested inside >>= fun text =>
      putLine "\x7d" >>= fun last => pure (line depth (head ++ " \x7b") ++ text ++ last)).outcome
        features depth := outcome_bind (putLine_restores (head ++ " \x7b")) _
  rw [opened, outcome_bind restores.nested, outcome_nested restores]
  cases inside.outcome features (depth + 1) with
  | error e => rfl
  | ok text => rfl

end Scribe

namespace Emission

variable {features : Features} {depth : Nat}

theorem Settled.of_outcome {α : Type} {act : Scribe α} {P : (Nat → α) → Prop} {result : α}
    (settled : Settled features act P) (done : act.outcome features depth = .ok result) :
    ∃ a, P a ∧ a depth = result := by
  rcases settled with ⟨a, holds, performed⟩ | ⟨error, rise, -, failed⟩
  · rw [Scribe.outcome_of_ok (performed features (.inl rfl) depth)] at done
    exact ⟨a, holds, Except.ok.inj done⟩
  · rw [Scribe.outcome_of_error (failed features (.inl rfl) depth)] at done
    cases done

def expr (features : Features) (depth : Nat) (e : Expr) : Emitted String :=
  (Scribe.expr e).outcome features depth

def grouped (features : Features) (depth : Nat) (e : Expr) : Emitted String :=
  (Scribe.grouped e).outcome features depth

def stmt (features : Features) (depth : Nat) (s : Stmt) : Emitted String :=
  (Scribe.stmt s).outcome features depth

def stmts (features : Features) (depth : Nat) (body : List Stmt) : Emitted String :=
  (Scribe.stmts body).outcome features depth

theorem grouped_eq (e : Expr) : grouped features depth e = (expr features depth e).map (group e) :=
  Scribe.outcome_map (group e)

theorem expr_bind {β : Type} (e : Expr) (next : String → Scribe β) :
    (Scribe.expr e >>= next).outcome features depth =
      expr features depth e >>= fun text => (next text).outcome features depth :=
  Scribe.outcome_bind (Scribe.expr_restores e) next

theorem expr_assign (target value : Expr) : expr features depth (.assign target value) = (do
    let target ← expr features depth target
    let value ← expr features depth value
    return target ++ " = " ++ value) :=
  (expr_bind target _).trans (congrArg (_ >>= ·) (funext fun _ => expr_bind value _))

theorem expr_binary (op : BinaryOp) (left right : Expr) : expr features depth (.binary op left right) = (do
    let l ← expr features depth left
    let r ← expr features depth right
    return operand op.precedence false left l ++ " " ++ op.symbol ++ " " ++
      operand op.precedence true right r) :=
  (expr_bind left _).trans (congrArg (_ >>= ·) (funext fun _ => expr_bind right _))

theorem expr_negate (e : Expr) : expr features depth (.negate e) = (do
    let text ← expr features depth e
    return "(-" ++ group e text ++ ")") :=
  expr_bind e _

theorem expr_conditional (test consequent alternate : Expr) :
    expr features depth (.conditional test consequent alternate) = (do
      let test ← expr features depth test
      let consequent ← expr features depth consequent
      let alternate ← expr features depth alternate
      return "(" ++ test ++ " ? " ++ consequent ++ " : " ++ alternate ++ ")") :=
  (expr_bind test _).trans (congrArg (_ >>= ·) (funext fun _ =>
    (expr_bind consequent _).trans (congrArg (_ >>= ·) (funext fun _ => expr_bind alternate _))))

theorem expr_index (object key : Expr) : expr features depth (.index object key) = (do
    let text ← expr features depth object
    let key ← expr features depth key
    return indexText features object text key) :=
  (expr_bind object _).trans (congrArg (_ >>= ·) (funext fun _ => expr_bind key _))

theorem pieces_restore (es : List Expr) : (Scribe.inOrder (Scribe.pieces es)).Restores :=
  Scribe.restores_of_settled fun features => (pieces_settle (E := fun _ _ => True) fun e _ =>
    expr_settled (.any features) e fun _ _ => trivial).imp fun _ _ => trivial

theorem piece_restores (e : Expr) : (piece e <$> Scribe.expr e).Restores := by
  rw [map_eq_pure_bind]
  exact (Scribe.expr_restores e).bind fun _ => .pure _

theorem pieces_outcome (es : List Expr) :
    (Scribe.inOrder (Scribe.pieces es)).outcome features depth =
      es.mapM fun e => (expr features depth e).map (piece e) := by
  induction es with
  | nil => rfl
  | cons e es ih =>
    refine (Scribe.outcome_bind (piece_restores e) _).trans ?_
    rw [Scribe.outcome_map, List.mapM_cons, ← ih]
    exact congrArg (_ >>= ·) (funext fun _ => Scribe.outcome_bind (pieces_restore es) _)

theorem commaList_outcome (es : List Expr) : (Scribe.commaList (Scribe.pieces es)).outcome features depth =
    (es.mapM (expr features depth)).map commas := by
  have texts : (es.mapM fun e => (expr features depth e).map (piece e)).map (List.map Piece.text) =
      es.mapM (expr features depth) := by
    induction es with
    | nil => rfl
    | cons e es ih =>
      rw [List.mapM_cons, List.mapM_cons, ← ih]
      cases expr features depth e with
      | error e => rfl
      | ok text =>
        cases es.mapM fun e => (expr features depth e).map (piece e) with
        | error e => rfl
        | ok items => rfl
  rw [← texts, Scribe.commaList, Scribe.outcome_bind (pieces_restore es), pieces_outcome]
  cases es.mapM fun e => (expr features depth e).map (piece e) with
  | error e => rfl
  | ok items => rfl

theorem expr_plainCall {callee : Expr} {args : List Expr}
    (plain : SpecialForm.find? features ⟨callee, args⟩ = none) :
    expr features depth (.call callee args) = (do
      let text ← expr features depth callee
      let texts ← args.mapM (expr features depth)
      return text ++ "(" ++ commas texts ++ ")") := by
  refine (Scribe.outcome_features _).trans ?_
  rw [plain]
  refine (Scribe.outcome_bind (piece_restores callee) _).trans ?_
  rw [Scribe.outcome_map, ← expr]
  cases expr features depth callee with
  | error e => rfl
  | ok text =>
    have listed : (Scribe.commaList (Scribe.pieces args)).Restores :=
      (pieces_restore args).bind fun _ => .pure _
    refine (Scribe.outcome_bind listed _).trans ?_
    rw [commaList_outcome]
    cases args.mapM (expr features depth) with
    | error e => rfl
    | ok texts => rfl

theorem stmts_bind {β : Type} (body : List Stmt) (next : String → Scribe β) :
    (Scribe.stmts body >>= next).outcome features depth =
      stmts features depth body >>= fun text => (next text).outcome features depth :=
  Scribe.outcome_bind (Scribe.stmts_restore body) next

theorem braced_bind {β : Type} (body : List Stmt) (head : String) (next : String → Scribe β) :
    (Scribe.braced head (Scribe.stmts body) >>= next).outcome features depth =
      stmts features (depth + 1) body >>= fun text =>
        (next (blockText depth head text)).outcome features depth := by
  rw [Scribe.outcome_bind ((Scribe.stmts_restore body).braced head), Scribe.outcome_braced
    (Scribe.stmts_restore body), ← stmts]
  cases stmts features (depth + 1) body with
  | error e => rfl
  | ok text => rfl

end Emission

end ScriptCpp
