import Mathlib
import ScriptCpp.Proofs.Emission.Readings
import ScriptCpp.Emission.Emitter

set_option autoImplicit false

namespace ScriptCpp

namespace Emitter

variable {α β : Type} (m : Emitter)

theorem perform_bind (act : Scribe α) (next : α → Scribe β) :
    m.perform (act >>= next) = match m.perform act with
      | (.ok a, m') => m'.perform (next a)
      | (.error e, m') => (.error e, m') := by
  change StateT.bind act (ExceptT.bindCont next) m = _
  simp only [StateT.bind, bind, perform, ExceptT.run, StateT.run]
  rcases act m with ⟨_ | _, _⟩
  · rfl
  · rfl

theorem perform_bind_ok {act : Scribe α} {next : α → Scribe β} {a : α} {m' : Emitter}
    (done : m.perform act = (.ok a, m')) : m.perform (act >>= next) = m'.perform (next a) := by
  rw [perform_bind, done]

theorem perform_bind_error {act : Scribe α} {next : α → Scribe β} {e : EmitError} {m' : Emitter}
    (failed : m.perform act = (.error e, m')) : m.perform (act >>= next) = (.error e, m') := by
  rw [perform_bind, failed]

end Emitter

namespace Scribe

open Emission

theorem pieces_eq_map (es : List Expr) : pieces es = es.map fun e => piece e <$> expr e := by
  induction es with
  | nil => rfl
  | cons e es ih =>
    rw [List.map_cons, ← ih]
    rfl

theorem inOrder_append {α : Type} (acts more : List (Scribe α)) : inOrder (acts ++ more) = (do
    let first ← inOrder acts
    let later ← inOrder more
    return first ++ later) := by
  induction acts with
  | nil => simp [inOrder]
  | cons act acts ih => simp [inOrder, ih]

theorem gather_eq {args : List (Scribe Piece)} {readings : List Reading}
    (enough : ∀ reading ∈ readings, reading.least ≤ args.length) :
    gather args readings = inOrder (readings.flatMap (Reading.taken args)) := by
  induction readings with
  | nil => rfl
  | cons reading readings ih =>
    obtain ⟨here, later⟩ := List.forall_mem_cons.mp enough
    rw [gather, ih later, Reading.pick_eq here, List.flatMap_cons, inOrder_append]
    rfl

end Scribe

namespace Emission

def blockText (depth : Nat) (head body : String) : String :=
  line depth (head ++ " \x7b") ++ body ++ line depth "\x7d"

def unhandled (features : Features) (params : List String) (depth : Nat) : String :=
  if features.http && params.contains "next" then
    line depth "return httplib::Server::HandlerResponse::Unhandled;"
  else ""

def arrowText (features : Features) (depth : Nat) (params : List String) (body : String) : String :=
  "[&](" ++ arrowParameters features params ++ ") \x7b\n" ++
    (body ++ unhandled features params (depth + 1)) ++ indentation depth ++ "\x7d"

-- What the actions, one for each depth, come to under both sets of features: one result, which has the
-- property as a function of the depth, with the emitter as it was; or one error that is allowed, always
-- so much deeper than the start.
def Settles {α : Type} (f g : Features) (allowed : EmitError → Prop) (act : Nat → Scribe α)
    (P : (Nat → α) → Prop) : Prop :=
  (∃ a, P a ∧ ∀ h, h = f ∨ h = g → ∀ depth,
      (⟨h, depth⟩ : Emitter).perform (act depth) = (.ok (a depth), ⟨h, depth⟩)) ∨
    ∃ error rise, allowed error ∧ ∀ h, h = f ∨ h = g → ∀ depth,
      (⟨h, depth⟩ : Emitter).perform (act depth) = (.error error, ⟨h, depth + rise⟩)

namespace Settles

variable {α β : Type} {f g : Features} {allowed : EmitError → Prop} {act : Nat → Scribe α}
  {P : (Nat → α) → Prop} {Q : (Nat → β) → Prop}

theorem pure {a : Nat → α} (holds : P a) : Settles f g allowed (fun depth => Pure.pure (a depth)) P :=
  .inl ⟨a, holds, fun _ _ _ => rfl⟩

theorem fail {error : EmitError} (ok : allowed error) : Settles f g allowed (fun _ => throw error) P :=
  .inr ⟨error, 0, ok, fun _ _ _ => rfl⟩

theorem bind {next : Nat → α → Scribe β} (first : Settles f g allowed act P)
    (later : ∀ a, P a → Settles f g allowed (fun depth => next depth (a depth)) Q) :
    Settles f g allowed (fun depth => act depth >>= next depth) Q := by
  rcases first with ⟨a, holds, done⟩ | ⟨error, rise, ok, failed⟩
  · rcases later a holds with ⟨b, also, more⟩ | ⟨error, rise, ok, failed⟩
    · refine .inl ⟨b, also, fun h known depth => ?_⟩
      rw [Emitter.perform_bind_ok _ (done h known depth), more h known depth]
    · refine .inr ⟨error, rise, ok, fun h known depth => ?_⟩
      rw [Emitter.perform_bind_ok _ (done h known depth), failed h known depth]
  · exact .inr ⟨error, rise, ok, fun h known depth =>
      Emitter.perform_bind_error _ (failed h known depth)⟩

theorem map {k : α → β} (first : Settles f g allowed act P) (later : ∀ a, P a → Q fun depth => k (a depth)) :
    Settles f g allowed (fun depth => k <$> act depth) Q := by
  simp only [map_eq_pure_bind]
  exact first.bind fun a holds => .pure (later a holds)

theorem imp {R : (Nat → α) → Prop} (first : Settles f g allowed act P) (later : ∀ a, P a → R a) :
    Settles f g allowed act R := by
  rcases first with ⟨a, holds, done⟩ | failed
  · exact .inl ⟨a, later a holds, done⟩
  · exact .inr failed

theorem asking {next : Features → Nat → Scribe α} (same : next f = next g)
    (later : Settles f g allowed (next f) P) :
    Settles f g allowed (fun depth => Scribe.features >>= fun features => next features depth) P := by
  have asked : ∀ h, h = f ∨ h = g → ∀ depth,
      (⟨h, depth⟩ : Emitter).perform (Scribe.features >>= fun features => next features depth) =
        (⟨h, depth⟩ : Emitter).perform (next f depth) := by
    rintro h (rfl | rfl) depth
    · rfl
    · rw [same]
      rfl
  rcases later with ⟨a, holds, done⟩ | ⟨error, rise, ok, failed⟩
  · exact .inl ⟨a, holds, fun h known depth => (asked h known depth).trans (done h known depth)⟩
  · exact .inr ⟨error, rise, ok, fun h known depth => (asked h known depth).trans (failed h known depth)⟩

section Lines

variable {act : Scribe String} {P : (Nat → String) → Prop} {next : Nat → String → Scribe β}

theorem putLine {Q : (Nat → String) → Prop} {text : Nat → String}
    (holds : Q fun depth => line depth (text depth)) :
    Settles f g allowed (fun depth => Scribe.putLine (text depth)) Q :=
  .inl ⟨_, holds, fun _ _ _ => rfl⟩

theorem bindLine {text : Nat → String}
    (later : Settles f g allowed (fun depth => next depth (line depth (text depth))) Q) :
    Settles f g allowed (fun depth => Scribe.putLine (text depth) >>= next depth) Q :=
  .bind (P := (· = fun depth => line depth (text depth))) (.putLine rfl) fun _ same => same ▸ later

-- The depth is raised for the action and is back behind it; only a failure leaves it where it was.
theorem nested (inside : Settles f g allowed (fun _ => act) P) :
    Settles f g allowed (fun _ => Scribe.nested act) fun text => ∃ a, P a ∧ text = fun depth => a (depth + 1) := by
  have raised : ∀ h depth, (⟨h, depth⟩ : Emitter).perform (Scribe.nested act) =
      (⟨h, depth + 1⟩ : Emitter).perform (act >>= fun text => Scribe.dedent >>= fun _ => Pure.pure text) :=
    fun _ _ => rfl
  rcases inside with ⟨a, holds, done⟩ | ⟨error, rise, ok, failed⟩
  · refine .inl ⟨_, ⟨a, holds, rfl⟩, fun h known depth => ?_⟩
    rw [raised, Emitter.perform_bind_ok _ (done h known (depth + 1))]
    rfl
  · refine .inr ⟨error, 1 + rise, ok, fun h known depth => ?_⟩
    rw [raised, Emitter.perform_bind_error _ (failed h known (depth + 1)), Nat.add_assoc]

theorem bindNested (inside : Settles f g allowed (fun _ => act) P)
    (later : ∀ a, P a → Settles f g allowed (fun depth => next depth (a (depth + 1))) Q) :
    Settles f g allowed (fun depth => Scribe.nested act >>= next depth) Q := by
  refine inside.nested.bind ?_
  rintro _ ⟨a, holds, rfl⟩
  exact later a holds

theorem bindBraced {head : Nat → String} (inside : Settles f g allowed (fun _ => act) P)
    (later : ∀ a, P a →
      Settles f g allowed (fun depth => next depth (blockText depth (head depth) (a (depth + 1)))) Q) :
    Settles f g allowed (fun depth => Scribe.braced (head depth) act >>= next depth) Q := by
  simp only [Scribe.braced, bind_assoc, pure_bind]
  exact .bindLine (inside.bindNested fun a holds => .bindLine (later a holds))

theorem braced {Q : (Nat → String) → Prop} {head : Nat → String}
    (inside : Settles f g allowed (fun _ => act) P)
    (keeps : ∀ a, P a → Q fun depth => blockText depth (head depth) (a (depth + 1))) :
    Settles f g allowed (fun depth => Scribe.braced (head depth) act) Q :=
  .bindLine (inside.bindNested fun a holds => .bindLine (.pure (keeps a holds)))

theorem passOn {features : Features} {params : List String} :
    Settles f g allowed (fun _ => Scribe.passOn features params) (· = unhandled features params) := by
  refine .inl ⟨_, rfl, fun h _ depth => ?_⟩
  unfold Scribe.passOn unhandled
  split
  · rfl
  · rfl

theorem margin : Settles f g allowed (fun _ => Scribe.margin) (· = indentation) :=
  .inl ⟨_, rfl, fun _ _ _ => rfl⟩

theorem arrow {Q : (Nat → String) → Prop} {params : List String}
    (listed : arrowParameters f params = arrowParameters g params)
    (passed : (f.http && params.contains "next") = (g.http && params.contains "next"))
    (inside : Settles f g allowed (fun _ => act) P)
    (keeps : ∀ a, P a → Q fun depth => arrowText f depth params (a (depth + 1))) :
    Settles f g allowed (fun _ => Scribe.arrow params act) Q := by
  have whole : Settles f g allowed (fun _ => act >>= fun body =>
      Scribe.passOn f params >>= fun last => Pure.pure (body ++ last))
      fun text => ∃ a, P a ∧ text = fun depth => a depth ++ unhandled f params depth :=
    inside.bind fun a holds => passOn.bind fun last same => .pure ⟨a, holds, same ▸ rfl⟩
  unfold Scribe.arrow
  refine .asking (by simp only [listed, Scribe.passOn, passed]) (whole.bindNested ?_)
  rintro _ ⟨a, holds, rfl⟩
  refine margin.bind ?_
  rintro _ rfl
  exact .pure (keeps a holds)

end Lines

theorem inOrder {ι : Type} {es : List ι} {k : ι → Scribe α} {R : ι → (Nat → α) → Prop}
    (each : ∀ e ∈ es, Settles f g allowed (fun _ => k e) (R e)) :
    Settles f g allowed (fun _ => Scribe.inOrder (es.map k)) fun items =>
      ∃ parts, List.Forall₂ R es parts ∧ items = fun depth => parts.map (· depth) := by
  induction es with
  | nil => exact .pure ⟨[], .nil, rfl⟩
  | cons e es ih =>
    obtain ⟨here, later⟩ := List.forall_mem_cons.mp each
    refine here.bind fun a holds => (ih later).bind ?_
    rintro _ ⟨parts, others, rfl⟩
    exact .pure ⟨a :: parts, .cons holds others, rfl⟩

end Settles

end Emission

end ScriptCpp
