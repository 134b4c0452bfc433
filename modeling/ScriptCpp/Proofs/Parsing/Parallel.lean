import Mathlib
import ScriptCpp.Proofs.Parsing.Grammar
import ScriptCpp.Proofs.Parsing.Reads

set_option autoImplicit false

namespace ScriptCpp

structure Token.Like (quoted : String → String → Prop) (t u : Token) : Prop where
  kind : u.kind = t.kind
  text : t.kind ≠ .string → u.text = t.text
  quoted : t.kind = .string → quoted t.text u.text

/-- As a name behind a dot: if one is spelled like a keyword, the other is spelled the same. -/
def Token.NamedAlike (t u : Token) : Prop :=
  (Keyword.ofText? t.text).isSome ∨ (Keyword.ofText? u.text).isSome → u.text = t.text

namespace Parser

/-- What two runs have to have in common: which texts of strings may stand for each other, and the end
tokens. -/
structure Pairing where
  quoted : String → String → Prop
  stop : Token
  stop' : Token
  alike : stop.Like quoted stop'

namespace Pairing

inductive Twins (w : Pairing) : List Token → List Token → Prop
  | stop : Twins w [] []
  | token {t u : Token} {ts us : List Token} :
      t.Like w.quoted u → (t.kind = .symbol .dot → (ts.headD w.stop).NamedAlike (us.headD w.stop')) →
        Twins w ts us → Twins w (t :: ts) (u :: us)

variable {w : Pairing} {α β γ δ σ τ : Type}

namespace Twins

variable {t u : Token} {ts us : List Token}

theorem named (h : w.Twins (t :: ts) (u :: us)) :
    t.kind = .symbol .dot → (ts.headD w.stop).NamedAlike (us.headD w.stop') := by
  cases h
  assumption

theorem behind (h : w.Twins (t :: ts) (u :: us)) : w.Twins ts us := by
  cases h
  assumption

theorem next (h : w.Twins ts us) : (ts.headD w.stop).Like w.quoted (us.headD w.stop') := by
  cases h with
  | stop => exact w.alike
  | token like _ _ => exact like

theorem tail (h : w.Twins ts us) : w.Twins ts.tail us.tail := by
  cases h with
  | stop => exact .stop
  | token _ _ rest => exact rest

theorem length_eq (h : w.Twins ts us) : us.length = ts.length := by
  induction h with
  | stop => rfl
  | token _ _ _ ih => simp [ih]

end Twins

inductive Matches (w : Pairing) (R : α → β → Prop) (ts us : List Token) :
    Except ParseError (α × List Token) → Except ParseError (β × List Token) → Prop
  | ok {a : α} {b : β} {left left' : List Token} : R a b → w.Twins left left' →
      Matches w R ts us (.ok (a, left)) (.ok (b, left'))
  | error (complaint : Complaint) {left left' : List Token} : left <:+ ts → left' <:+ us →
      w.Twins left left' → Matches w R ts us (.error (.atToken complaint (left.headD w.stop)))
        (.error (.atToken complaint (left'.headD w.stop')))

theorem Matches.extend {R : α → β → Prop} {ts us ts' us' : List Token}
    {r : Except ParseError (α × List Token)} {s : Except ParseError (β × List Token)}
    (h : w.Matches R ts us r s) (first : ts <:+ ts') (second : us <:+ us') : w.Matches R ts' us' r s := by
  cases h with
  | ok related twins => exact .ok related twins
  | error complaint inside inside' twins =>
    exact .error complaint (inside.trans first) (inside'.trans second) twins

theorem Matches.bind {R : α → β → Prop} {S : γ → δ → Prop} {p : Parser α} {q : Parser β}
    {f : α → Parser γ} {g : β → Parser δ} {ts us : List Token}
    (first : w.Matches R ts us (p.run w.stop ts) (q.run w.stop' us))
    (second : ∀ {a b left left'}, p.run w.stop ts = .ok (a, left) → R a b → w.Twins left left' →
      w.Matches S left left' ((f a).run w.stop left) ((g b).run w.stop' left')) :
    w.Matches S ts us ((p >>= f).run w.stop ts) ((q >>= g).run w.stop' us) := by
  rw [run_bind, run_bind]
  generalize read : p.run w.stop ts = r at first
  generalize read' : q.run w.stop' us = s at first
  cases first with
  | error complaint inside inside' rest => exact .error complaint inside inside' rest
  | ok related rest => exact (second read related rest).extend (p.suffix read) (q.suffix read')

def Parallel (w : Pairing) (R : α → β → Prop) (p : Parser α) (q : Parser β) : Prop :=
  ∀ ⦃ts us : List Token⦄, w.Twins ts us → w.Matches R ts us (p.run w.stop ts) (q.run w.stop' us)

def Behind (w : Pairing) (t u : Token) (R : α → β → Prop) (p : Parser α) (q : Parser β) : Prop :=
  ∀ ⦃ts us : List Token⦄, w.Twins (t :: ts) (u :: us) →
    w.Matches R ts us (p.run w.stop ts) (q.run w.stop' us)

theorem Parallel.behind {R : α → β → Prop} {p : Parser α} {q : Parser β} {t u : Token}
    (h : w.Parallel R p q) : w.Behind t u R p q :=
  fun _ _ twins => h twins.behind

namespace Parallel

variable {R : α → β → Prop} {S : γ → δ → Prop} {p : Parser α} {q : Parser β}

theorem pure {a : α} {b : β} (related : R a b) : w.Parallel R (Pure.pure a) (Pure.pure b) :=
  fun _ _ twins => .ok related twins

theorem fail (complaint : Complaint) : w.Parallel R (fail complaint) (fail complaint) :=
  fun _ _ twins => .error complaint (List.suffix_refl _) (List.suffix_refl _) twins

theorem peek : w.Parallel (Token.Like w.quoted) peek peek :=
  fun _ _ twins => .ok twins.next twins

theorem skip : w.Parallel Eq skip skip :=
  fun _ _ twins => .ok rfl twins.tail

theorem bind {f : α → Parser γ} {g : β → Parser δ} (first : w.Parallel R p q)
    (second : ∀ {a b}, R a b → w.Parallel S (f a) (g b)) : w.Parallel S (p >>= f) (q >>= g) :=
  fun _ _ twins => (first twins).bind fun _ related rest => second related rest

theorem returns {f : α → γ} {g : β → δ} (first : w.Parallel R p q)
    (values : ∀ {a b}, R a b → S (f a) (g b)) :
    w.Parallel S (p >>= fun a => Pure.pure (f a)) (q >>= fun b => Pure.pure (g b)) :=
  first.bind fun related => pure (values related)

theorem sees (sign : Symbol) {f : Bool → Parser γ} {g : Bool → Parser δ}
    (yes : w.Parallel S (f true) (g true)) (no : w.Parallel S (f false) (g false)) :
    w.Parallel S (sees sign >>= f) (sees sign >>= g) := by
  have seen : w.Parallel Eq (Parser.sees sign) (Parser.sees sign) :=
    peek.returns fun like => by rw [like.kind]
  apply seen.bind
  rintro answer _ rfl
  cases answer with
  | true => exact yes
  | false => exact no

theorem onToken {known : Token → Option (Parser α)} {known' : Token → Option (Parser β)}
    {other : Parser α} {other' : Parser β}
    (answers : ∀ {t u : Token}, t.Like w.quoted u → Option.Rel (w.Behind t u R) (known t) (known' u))
    (otherwise : w.Parallel R other other') : w.Parallel R (onToken known other) (onToken known' other') := by
  intro ts us twins
  cases twins with
  | stop => exact otherwise .stop
  | @token t u ts us like named rest =>
    have answer := answers like
    have twins : w.Twins (t :: ts) (u :: us) := .token like named rest
    simp only [Parser.onToken]
    generalize known t = next at answer
    generalize known' u = next' at answer
    cases answer with
    | none => exact otherwise twins
    | some parallel => exact (parallel twins).extend (List.suffix_cons _ _) (List.suffix_cons _ _)

theorem iterate {R : σ → τ → Prop} {step : σ → Token → Option (Parser σ)}
    {step' : τ → Token → Option (Parser τ)}
    (answers : ∀ {s s' t u}, R s s' → t.Like w.quoted u →
      Option.Rel (w.Behind t u R) (step s t) (step' s' u))
    {s : σ} {s' : τ} (start : R s s') : w.Parallel R (iterate step s) (iterate step' s') := by
  intro ts us twins
  -- Both runs take a token in each round, so the tokens of one of them bound the rounds of both.
  induction size : ts.length using Nat.strong_induction_on generalizing s s' ts us with
  | _ size ih =>
    subst size
    cases twins with
    | stop =>
      rw [run_iterate_nil, run_iterate_nil]
      exact .ok start .stop
    | @token t u ts us like named rest =>
      have answer := answers start like
      have twins : w.Twins (t :: ts) (u :: us) := .token like named rest
      generalize found : step s t = next at answer
      generalize found' : step' s' u = next' at answer
      cases answer with
      | none =>
        rw [run_iterate_stays found, run_iterate_stays found']
        exact .ok start twins
      | @some p q parallel =>
        rw [run_iterate_goes found, run_iterate_goes found']
        refine (Matches.bind (parallel twins) ?_).extend (List.suffix_cons _ _) (List.suffix_cons _ _)
        intro s s' left left' read related rest
        have shorter : left.length ≤ ts.length := (p.suffix read).length_le
        exact ih left.length (Nat.lt_succ_of_le shorter) related rest rfl

theorem many {stops stops' : Token → Bool} {strict : p.Strict} {strict' : q.Strict}
    (same : ∀ {t u : Token}, t.Like w.quoted u → stops' u = stops t) (item : w.Parallel R p q) :
    w.Parallel (List.Forall₂ R) (many stops p @strict) (many stops' q @strict') := by
  intro ts us twins
  induction size : ts.length using Nat.strong_induction_on generalizing ts us with
  | _ size ih =>
    subst size
    cases twins with
    | stop =>
      rw [run_many_nil, run_many_nil]
      exact .ok .nil .stop
    | @token t u ts us like named rest =>
      have twins : w.Twins (t :: ts) (u :: us) := .token like named rest
      have decided := same like
      cases going : stops t with
      | true =>
        rw [run_many_stops going, run_many_stops (decided.trans going)]
        exact .ok .nil twins
      | false =>
        rw [run_many_goes going, run_many_goes (decided.trans going)]
        refine Matches.bind (item twins) ?_
        intro a b left left' read related rest
        refine Matches.bind (ih left.length (strict read) rest rfl) ?_
        intro as bs last last' _ others behind
        exact .ok (.cons related others) behind

end Parallel

theorem same_name {t u : Token} (like : t.Like w.quoted u) (named : t.NamedAlike u)
    (accepted : (t.kind = .identifier || (Keyword.ofText? t.text).isSome) = true) : u.text = t.text := by
  rcases Bool.or_eq_true_iff.mp accepted with word | keyword
  · have identifier : t.kind = .identifier := of_decide_eq_true word
    exact like.text (by rw [identifier]; nofun)
  · exact named (.inl keyword)

theorem no_name {t u : Token} (like : t.Like w.quoted u) (named : t.NamedAlike u)
    (refused : (t.kind = .identifier || (Keyword.ofText? t.text).isSome) = false) :
    (u.kind = .identifier || (Keyword.ofText? u.text).isSome) = false := by
  obtain ⟨noWord, noKeyword⟩ := Bool.or_eq_false_iff.mp refused
  rw [like.kind]
  refine Bool.or_eq_false_iff.mpr ⟨noWord, Bool.eq_false_iff.mpr fun keyword => ?_⟩
  rw [named (.inr keyword), noKeyword] at keyword
  cases keyword

theorem matches_propertyName {ts us : List Token} (twins : w.Twins ts us)
    (named : (ts.headD w.stop).NamedAlike (us.headD w.stop')) :
    w.Matches Eq ts us (propertyName.run w.stop ts) (propertyName.run w.stop' us) := by
  have like := twins.next
  refine Matches.bind (R := fun t u => t = ts.headD w.stop ∧ u = us.headD w.stop') (.ok ⟨rfl, rfl⟩ twins) ?_
  rintro _ _ left left' - ⟨rfl, rfl⟩ rest
  generalize ts.headD w.stop = t at *
  generalize us.headD w.stop' = u at *
  cases accepted : t.kind = .identifier || (Keyword.ofText? t.text).isSome with
  | true =>
    have same := same_name like named accepted
    have accepted' : (u.kind = .identifier || (Keyword.ofText? u.text).isSome) = true := by
      rw [like.kind, same, accepted]
    rw [accepted', same]
    exact Parallel.skip.returns (fun _ => rfl) rest
  | false =>
    rw [no_name like named accepted]
    exact Parallel.fail .propertyName rest

end Pairing

end Parser

end ScriptCpp
