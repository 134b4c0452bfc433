import Mathlib
import ScriptCpp.Emission.Emitter
import ScriptCpp.Proofs.Parsing.Phrases

set_option autoImplicit false

namespace ScriptCpp

-- All of the phrases and all that occurs in them.
def Phrase.Each (S : Phrase → Prop) (ns : List Phrase) : Prop := ∀ n ∈ ns, ∀ q, n.Holds q → S q

namespace Phrase

variable {S : Phrase → Prop} {n : Phrase} {ns os : List Phrase}

theorem each_nil : Each S [] := by simp [Each]

theorem each_append : Each S (ns ++ os) ↔ Each S ns ∧ Each S os := List.forall_mem_append

theorem each_cons : Each S (n :: ns) ↔ Each S [n] ∧ Each S ns := @each_append S [n] ns

theorem each_one : Each S [n] ↔ S n ∧ Each S n.children := by
  simp only [Each, List.mem_singleton, forall_eq]
  constructor
  · intro each
    refine ⟨each n .refl, fun child step q occurs => ?_⟩
    exact each q (.head step occurs)
  · rintro ⟨own, inner⟩ q occurs
    rcases Relation.ReflTransGen.cases_head occurs with rfl | ⟨child, step, deeper⟩
    · exact own
    · exact inner child step q deeper

-- Unfolds a phrase that is written out.
theorem each_cons_iff : Each S (n :: ns) ↔ S n ∧ Each S (n.children ++ ns) := by
  rw [each_cons, each_one, each_append, and_assoc]

theorem Each.own (each : Each S [n]) : S n := (each_one.mp each).1

theorem Each.inner (each : Each S [n]) : Each S n.children := (each_one.mp each).2

end Phrase

def Program.Has (program : Program) (q : Phrase) : Prop := ∃ s ∈ program, (Phrase.stmt s).Holds q

theorem Program.forall_has_iff {S : Phrase → Prop} {program : Program} :
    (∀ q, program.Has q → S q) ↔ Phrase.Each S (program.map .stmt) := by
  unfold Has Phrase.Each
  constructor
  · intro all n listed q occurs
    obtain ⟨s, present, rfl⟩ := List.mem_map.mp listed
    exact all q ⟨s, present, occurs⟩
  · rintro each q ⟨s, present, occurs⟩
    exact each (.stmt s) (List.mem_map_of_mem present) q occurs

def Stmt.startsLoop : Stmt → Bool
  | .declare .. | .expr _ => true
  | _ => false

-- What the emitter refuses at a phrase itself, whatever it makes of the rest.
inductive Phrase.Refused (features : Features) : Phrase → EmitError → Prop
  | loop {start : Stmt} {condition update : Option Expr} {body : List Stmt}
      (other : start.startsLoop = false) :
      Refused features (.stmt (.forLoop (some start) condition update body)) .loopStart
  | call {callee : Expr} {args : List Expr} {form : SpecialForm}
      (found : SpecialForm.find? features ⟨callee, args⟩ = some form)
      (few : args.length < form.minArgs) :
      Refused features (.expr (.call callee args))
        (.tooFewArguments form.name form.minArgs args.length)

def Expr.arrowParams? : Expr → Option (List String)
  | .arrowBlock params _ => some params
  | .arrowValue params _ => some params
  | _ => none

-- Each decision at the phrase is the same under both, and what is refused there is allowed.
structure Phrase.Steady (f g : Features) (allowed : EmitError → Prop) (q : Phrase) : Prop where
  call : ∀ {callee : Expr} {args : List Expr}, q = .expr (.call callee args) →
    SpecialForm.find? f ⟨callee, args⟩ = SpecialForm.find? g ⟨callee, args⟩
  member : ∀ {object : Expr} {name : String}, q = .expr (.member object name) →
    Emission.memberText f object name = Emission.memberText g object name
  index : ∀ {object key : Expr}, q = .expr (.index object key) →
    Emission.indexText f object = Emission.indexText g object
  arrow : ∀ {e : Expr} {params : List String}, q = .expr e → e.arrowParams? = some params →
    Emission.arrowParameters f params = Emission.arrowParameters g params ∧
      (f.http && params.contains "next") = (g.http && params.contains "next")
  refused : ∀ {error : EmitError}, q.Refused f error → allowed error

theorem Phrase.steady_self {features : Features} {allowed : EmitError → Prop} {q : Phrase}
    (refused : ∀ error, q.Refused features error → allowed error) : Steady features features allowed q :=
  ⟨fun _ => rfl, fun _ => rfl, fun _ => rfl, fun _ _ => ⟨rfl, rfl⟩, fun here => refused _ here⟩

namespace Emission

abbrev AllSteady (f g : Features) (allowed : EmitError → Prop) (ns : List Phrase) : Prop :=
  Phrase.Each (Phrase.Steady f g allowed) ns

end Emission

end ScriptCpp
