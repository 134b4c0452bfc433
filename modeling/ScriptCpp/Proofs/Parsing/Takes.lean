import Mathlib
import ScriptCpp.Proofs.Parsing.Reads

set_option autoImplicit false

namespace ScriptCpp.Parser

/-- Tokens before an end token, with no sign among them spelled like a keyword. -/
structure Spelled (stop : Token) (ts : List Token) : Prop where
  stop_eof : stop.kind = .eof
  stop_text : Keyword.ofText? stop.text = none
  signs : ∀ t ∈ ts, ∀ sign, t.kind = .symbol sign → Keyword.ofText? t.text = none

theorem Spelled.of_append {stop : Token} {used rest : List Token}
    (h : Spelled stop (used ++ rest)) : Spelled stop rest :=
  { h with signs := fun t present => h.signs t (List.mem_append_right _ present) }

theorem Spelled.tail {stop t : Token} {rest : List Token} (h : Spelled stop (t :: rest)) :
    Spelled stop rest :=
  { h with signs := fun other present => h.signs other (List.mem_cons_of_mem t present) }

/-- Every success takes tokens off the front that `Q` relates to its result. -/
def Takes {α : Type} (p : Parser α) (Q : α → List Token → Prop) : Prop :=
  ∀ ⦃stop : Token⦄ ⦃ts : List Token⦄ ⦃a : α⦄ ⦃rest : List Token⦄, Spelled stop ts →
    p.run stop ts = .ok (a, rest) → ∃ used, ts = used ++ rest ∧ Q a used

def TakesOn {α : Type} (kind : Token.Kind) (p : Parser α) (Q : α → List Token → Prop) : Prop :=
  ∀ ⦃stop : Token⦄ ⦃ts : List Token⦄ ⦃a : α⦄ ⦃rest : List Token⦄, Spelled stop ts →
    (ts.headD stop).kind = kind → p.run stop ts = .ok (a, rest) → ∃ used, ts = used ++ rest ∧ Q a used

namespace Takes

variable {α β σ : Type} {p : Parser α} {f : α → Parser β} {Q Q' : α → List Token → Prop}
  {R : β → List Token → Prop}

theorem mono (h : p.Takes Q) (weaker : ∀ a used, Q a used → Q' a used) : p.Takes Q' := by
  intro stop ts a rest spelled read
  obtain ⟨used, split, holds⟩ := h spelled read
  exact ⟨used, split, weaker a used holds⟩

theorem on (h : p.Takes Q) (kind : Token.Kind) : p.TakesOn kind Q :=
  fun _ _ _ _ spelled _ read => h spelled read

theorem pure {a : α} (holds : Q a []) : (Pure.pure a : Parser α).Takes Q := by
  intro stop ts b rest spelled read
  cases read
  exact ⟨[], rfl, holds⟩

theorem fail {complaint : Complaint} : (Parser.fail complaint : Parser α).Takes Q := by
  intro stop ts a rest spelled read
  cases read

theorem bind (first : p.Takes Q)
    (second : ∀ a used, Q a used → (f a).Takes fun b more => R b (used ++ more)) :
    (p >>= f).Takes R := by
  intro stop ts b rest spelled read
  rw [run_bind] at read
  split at read
  · cases read
  · next a middle taken =>
    obtain ⟨used, rfl, holds⟩ := first spelled taken
    obtain ⟨more, rfl, final⟩ := second a used holds spelled.of_append read
    exact ⟨used ++ more, by rw [List.append_assoc], final⟩

theorem map {g : α → β} (h : p.Takes fun a used => R (g a) used) : (g <$> p).Takes R := by
  have whole : (p >>= fun a => Pure.pure (g a)).Takes R := by
    refine h.bind fun a used holds => pure ?_
    rwa [List.append_nil]
  exact whole

theorem onToken {known : Token → Option (Parser α)} {otherwise : Parser α}
    (next : ∀ t q, known t = some q → q.Takes fun a used => Q a (t :: used))
    (other : otherwise.Takes Q) : (onToken known otherwise).Takes Q := by
  intro stop ts a rest spelled read
  simp only [Parser.onToken] at read
  split at read
  · exact other spelled read
  · next t ts =>
    split at read
    · next q found =>
      obtain ⟨used, rfl, holds⟩ := next t q found spelled.tail read
      exact ⟨t :: used, rfl, holds⟩
    · exact other spelled read

theorem expect {kind : Token.Kind} {complaint : Complaint} {Q : String → List Token → Prop}
    (holds : ∀ t : Token, t.kind = kind → Q t.text [t]) : (expect kind complaint).Takes Q := by
  refine onToken ?_ fail
  intro t q found
  split at found
  · next same =>
    cases found
    exact pure (holds t same)
  · cases found

theorem expectSymbol {sign : Symbol} {complaint : Complaint} {Q : Unit → List Token → Prop}
    (holds : ∀ t : Token, t.kind = .symbol sign → Q () [t]) :
    (expectSymbol sign complaint).Takes Q := by
  refine bind (expect (Q := fun _ used => Q () used) holds) fun text used final => pure ?_
  rwa [List.append_nil]

theorem accept {kind : Token.Kind} {Q : Bool → List Token → Prop} (absent : Q false [])
    (present : ∀ t : Token, t.kind = kind → Q true [t]) : (accept kind).Takes Q := by
  refine onToken ?_ (pure absent)
  intro t q found
  split at found
  · next same =>
    cases found
    exact pure (present t same)
  · cases found

theorem sees_then {sign : Symbol} {seen other : Parser β} (present : seen.TakesOn (.symbol sign) R)
    (absent : other.Takes R) : (sees sign >>= fun b => if b = true then seen else other).Takes R := by
  intro stop ts b rest spelled read
  change (if ((ts.headD stop).kind == .symbol sign) = true then seen else other).run stop ts = _ at read
  split at read
  · next head => exact present spelled (by simpa using head) read
  · exact absent spelled read

theorem skip_then {kind : Token.Kind} {q : Parser β} (isToken : kind ≠ .eof)
    (next : ∀ t : Token, t.kind = kind → q.Takes fun b more => R b (t :: more)) :
    (skip >>= fun _ => q).TakesOn kind R := by
  intro stop ts b rest spelled head read
  cases ts with
  | nil => exact absurd (head.symm.trans spelled.stop_eof) isToken
  | cons t ts =>
    obtain ⟨used, rfl, holds⟩ := next t head spelled.tail read
    exact ⟨t :: used, rfl, holds⟩

theorem propertyName {Q : String → List Token → Prop}
    (holds : ∀ t : Token, (∀ sign, t.kind ≠ .symbol sign) →
      t.kind = .identifier ∨ (Keyword.ofText? t.text).isSome → Q t.text [t]) :
    propertyName.Takes Q := by
  intro stop ts a rest spelled read
  obtain ⟨named, rfl, rfl⟩ := propertyName_ok_iff.mp read
  cases ts with
  | nil => simp [spelled.stop_eof, spelled.stop_text] at named
  | cons t ts =>
    refine ⟨[t], rfl, holds t (fun sign isSign => ?_) named⟩
    simp [isSign, spelled.signs t List.mem_cons_self sign isSign] at named

theorem iterate {step : σ → Token → Option (Parser σ)} {I : σ → List Token → Prop}
    (kept : ∀ s done t q, I s done → step s t = some q → q.Takes fun s' more => I s' (done ++ t :: more))
    {s : σ} {done : List Token} (start : I s done) :
    (iterate step s).Takes fun s' more => I s' (done ++ more) := by
  intro stop ts r rest spelled read
  change iterateFrom step s stop ts = _ at read
  fun_induction iterateFrom step s stop ts generalizing done with
  | case1 s =>
    cases read
    exact ⟨[], rfl, by simpa using start⟩
  | case2 s t ts unknown =>
    cases read
    exact ⟨[], rfl, by simpa using start⟩
  | case3 => cases read
  | case4 s t ts q known s' left taken ih =>
    obtain ⟨used, rfl, holds⟩ := kept s done t q start known spelled.tail taken
    obtain ⟨more, rfl, final⟩ := ih holds spelled.tail.of_append read
    refine ⟨t :: (used ++ more), by simp, ?_⟩
    simpa using final

theorem many {stops : Token → Bool} {strict : p.Strict} {R : List α → List Token → Prop}
    (item : p.Takes Q) (nil : R [] [])
    (cons : ∀ a used as more, Q a used → R as more → R (a :: as) (used ++ more)) :
    (many stops p @strict).Takes R := by
  intro stop ts as rest spelled read
  change manyFrom stops p @strict stop ts = _ at read
  fun_induction manyFrom stops p @strict stop ts generalizing as rest with
  | case1 =>
    cases read
    exact ⟨[], rfl, nil⟩
  | case2 =>
    cases read
    exact ⟨[], rfl, nil⟩
  | case3 => cases read
  | case4 => cases read
  | case5 t ts going a left taken as last more ih =>
    cases read
    obtain ⟨used, split, holds⟩ := item spelled taken
    rw [split] at spelled
    obtain ⟨later, rfl, final⟩ := ih spelled.of_append more
    exact ⟨used ++ later, by rw [split, List.append_assoc], cons a used as later holds final⟩

end Takes

end ScriptCpp.Parser
