import Mathlib
import ScriptCpp.Proofs.Parsing.Grammar
import ScriptCpp.Proofs.Parsing.Reads

set_option autoImplicit false

namespace ScriptCpp.Parser

inductive Entry : Type → Type
  | statement : Entry Stmt
  | assignment : Entry Expr
  | conditional : Entry Expr
  | unary : Entry Expr

namespace Entry

variable {α : Type}

def door : Entry α → Nested → Parser α
  | .statement => Nested.statement
  | .assignment => Nested.assignment
  | .conditional => Nested.conditional
  | .unary => Nested.unary

def room : Entry α → Nested → Parser α
  | .statement => statementOf
  | .assignment => assignmentOf
  | .conditional => conditionalOf
  | .unary => unaryOf

theorem door_zero (entry : Entry α) : entry.door (nested 0) = fail .nestingTooDeep := by
  cases entry <;> rfl

theorem door_succ (entry : Entry α) (n : Nat) : entry.door (nested (n + 1)) = entry.room (nested n) := by
  cases entry <;> rfl

end Entry

/-- `Counts F d stop ts r e`: from the counter `d`, the parser `F` comes to `r` on the tokens `ts`, and
leaves the counter at `e`. -/
inductive Counts : {α : Type} → (Nested → Parser α) → Nat → Token → List Token →
    Except ParseError (α × List Token) → Nat → Prop
  /-- A parser that has no use for the next level does not touch the counter. -/
  | plain {α : Type} (p : Parser α) (d : Nat) (stop : Token) (ts : List Token) :
      Counts (fun _ => p) d stop ts (p.run stop ts) d
  | failed {α β : Type} {F : Nested → Parser α} {G : Nested → α → Parser β} {d e : Nat} {stop : Token}
      {ts : List Token} {err : ParseError} :
      Counts F d stop ts (.error err) e → Counts (fun inner => F inner >>= G inner) d stop ts (.error err) e
  | andThen {α β : Type} {F : Nested → Parser α} {G : Nested → α → Parser β} {d e c : Nat} {stop : Token}
      {ts rest : List Token} {a : α} {r : Except ParseError (β × List Token)} :
      Counts F d stop ts (.ok (a, rest)) e → Counts (fun inner => G inner a) e stop rest r c →
        Counts (fun inner => F inner >>= G inner) d stop ts r c
  | atEnd {α : Type} {known : Nested → Token → Option (Parser α)} {other : Nested → Parser α} {d e : Nat}
      {stop : Token} {r : Except ParseError (α × List Token)} :
      Counts other d stop [] r e → Counts (fun inner => onToken (known inner) (other inner)) d stop [] r e
  | unknown {α : Type} {known : Nested → Token → Option (Parser α)} {other : Nested → Parser α} {d e : Nat}
      {stop t : Token} {ts : List Token} {r : Except ParseError (α × List Token)} :
      (∀ inner, known inner t = none) → Counts other d stop (t :: ts) r e →
        Counts (fun inner => onToken (known inner) (other inner)) d stop (t :: ts) r e
  | known {α : Type} {known : Nested → Token → Option (Parser α)} {other q : Nested → Parser α} {d e : Nat}
      {stop t : Token} {ts : List Token} {r : Except ParseError (α × List Token)} :
      (∀ inner, known inner t = some (q inner)) → Counts q d stop ts r e →
        Counts (fun inner => onToken (known inner) (other inner)) d stop (t :: ts) r e
  | idle {σ : Type} (step : Nested → σ → Token → Option (Parser σ)) (s : σ) (d : Nat) (stop : Token) :
      Counts (fun inner => iterate (step inner) s) d stop [] (.ok (s, [])) d
  | stays {σ : Type} {step : Nested → σ → Token → Option (Parser σ)} {s : σ} {t : Token} (d : Nat)
      (stop : Token) (ts : List Token) : (∀ inner, step inner s t = none) →
        Counts (fun inner => iterate (step inner) s) d stop (t :: ts) (.ok (s, t :: ts)) d
  | goes {σ : Type} {step : Nested → σ → Token → Option (Parser σ)} {s : σ} {q : Nested → Parser σ}
      {d e : Nat} {stop t : Token} {ts : List Token} {r : Except ParseError (σ × List Token)} :
      (∀ inner, step inner s t = some (q inner)) →
        Counts (fun inner => q inner >>= iterate (step inner)) d stop ts r e →
          Counts (fun inner => iterate (step inner) s) d stop (t :: ts) r e
  | none {α : Type} (stops : Token → Bool) (item : Nested → Parser α)
      (strict : ∀ inner, (item inner).Strict) (d : Nat) (stop : Token) :
      Counts (fun inner => many stops (item inner) (strict inner)) d stop [] (.ok ([], [])) d
  | last {α : Type} {stops : Token → Bool} {t : Token} (item : Nested → Parser α)
      (strict : ∀ inner, (item inner).Strict) (d : Nat) (stop : Token) (ts : List Token) :
      stops t = true →
        Counts (fun inner => many stops (item inner) (strict inner)) d stop (t :: ts) (.ok ([], t :: ts)) d
  | more {α : Type} {stops : Token → Bool} {item : Nested → Parser α}
      {strict : ∀ inner, (item inner).Strict} {d e : Nat} {stop t : Token} {ts : List Token}
      {r : Except ParseError (List α × List Token)} :
      stops t = false →
        Counts (fun inner => item inner >>= fun a =>
          many stops (item inner) (strict inner) >>= fun as => Pure.pure (a :: as)) d stop (t :: ts) r e →
            Counts (fun inner => many stops (item inner) (strict inner)) d stop (t :: ts) r e
  | full {α : Type} (entry : Entry α) {d : Nat} (stop : Token) (ts : List Token) :
      maxNesting ≤ d →
        Counts entry.door d stop ts (.error (.atToken .nestingTooDeep (ts.headD stop))) d
  | enter {α : Type} {entry : Entry α} {d e : Nat} {stop : Token} {ts : List Token}
      {r : Except ParseError (α × List Token)} :
      d < maxNesting → Counts entry.room (d + 1) stop ts r e → Counts entry.door d stop ts r (e - 1)

namespace Counts

variable {α : Type} {F : Nested → Parser α} {d e : Nat} {stop : Token} {ts : List Token}
  {r : Except ParseError (α × List Token)}

theorem restores (h : Counts F d stop ts r e) : e = d := by
  induction h with
  | plain | idle | stays | none | last | full => rfl
  | failed _ ih | atEnd _ ih | unknown _ _ ih | known _ _ ih | goes _ _ ih | more _ _ ih => exact ih
  | andThen _ _ first second => exact second.trans first
  | enter _ _ ih => exact Nat.pred_eq_of_eq_succ ih

theorem outcome (h : Counts F d stop ts r e) (bound : d ≤ maxNesting) :
    r = (F (nested (maxNesting - d))).run stop ts := by
  induction h with
  | plain => rfl
  | failed _ ih => rw [run_bind, ← ih bound]
  | andThen counts _ first second =>
    obtain rfl := counts.restores
    rw [run_bind, ← first bound]
    exact second bound
  | atEnd _ ih => exact ih bound
  | unknown absent _ ih =>
    simp only [onToken, absent]
    exact ih bound
  | known present _ ih =>
    simp only [onToken, present]
    exact ih bound
  | idle => exact run_iterate_nil.symm
  | stays _ _ _ absent => exact (run_iterate_stays (absent _)).symm
  | goes present _ ih => exact (ih bound).trans (run_iterate_goes (present _)).symm
  | none => exact run_many_nil.symm
  | last _ _ _ _ _ stopped => exact (run_many_stops stopped).symm
  | more going _ ih => exact (ih bound).trans (run_many_goes going).symm
  | full entry _ _ above =>
    rw [Nat.sub_eq_zero_of_le above, entry.door_zero]
    rfl
  | @enter _ entry d _ _ _ _ below _ ih =>
    have level : maxNesting - d = maxNesting - (d + 1) + 1 := by omega
    rw [level, entry.door_succ]
    exact ih below

theorem suffix {a : α} {rest : List Token} (h : Counts F d stop ts (.ok (a, rest)) e)
    (bound : d ≤ maxNesting) : rest <:+ ts :=
  (F _).suffix (h.outcome bound).symm

end Counts

def Counted (d : Nat) (α : Type) (F : Nested → Parser α) : Prop :=
  ∀ stop ts, ∃ r, Counts F d stop ts r d

namespace Counted

variable {α β σ : Type} {d : Nat}

theorem plain (p : Parser α) : Counted d α fun _ => p :=
  fun stop ts => ⟨_, .plain p d stop ts⟩

theorem bindAt {F : Nested → Parser α} {G : Nested → α → Parser β} {stop : Token} {ts : List Token}
    (first : ∃ r, Counts F d stop ts r d)
    (second : ∀ a rest, Counts F d stop ts (.ok (a, rest)) d →
      ∃ r, Counts (fun inner => G inner a) d stop rest r d) :
    ∃ r, Counts (fun inner => F inner >>= G inner) d stop ts r d := by
  obtain ⟨r, counts⟩ := first
  cases r with
  | error err => exact ⟨_, .failed counts⟩
  | ok result =>
    obtain ⟨r, later⟩ := second _ _ counts
    exact ⟨r, .andThen counts later⟩

theorem bind {F : Nested → Parser α} {G : Nested → α → Parser β} (first : Counted d α F)
    (second : ∀ a, Counted d β fun inner => G inner a) : Counted d β fun inner => F inner >>= G inner :=
  fun stop ts => bindAt (first stop ts) fun a rest _ => second a stop rest

theorem onToken {known : Nested → Token → Option (Parser α)} {other : Nested → Parser α}
    (decides : ∀ t, Decides (Counted d) fun inner => known inner t) (otherwise : Counted d α other) :
    Counted d α fun inner => onToken (known inner) (other inner) := by
  intro stop ts
  cases ts with
  | nil =>
    obtain ⟨r, counts⟩ := otherwise stop []
    exact ⟨r, .atEnd counts⟩
  | cons t ts =>
    cases decides t with
    | stays unknown =>
      obtain ⟨r, counts⟩ := otherwise stop (t :: ts)
      exact ⟨r, .unknown unknown counts⟩
    | goes known holds =>
      obtain ⟨r, counts⟩ := holds stop ts
      exact ⟨r, .known known counts⟩

theorem iterate (bound : d ≤ maxNesting) {step : Nested → σ → Token → Option (Parser σ)}
    (decides : ∀ s t, Decides (Counted d) fun inner => step inner s t) (s : σ) :
    Counted d σ fun inner => iterate (step inner) s := by
  intro stop ts
  -- A round takes a token, so the rounds end with the tokens.
  induction size : ts.length using Nat.strong_induction_on generalizing s ts with
  | _ size ih =>
    subst size
    cases ts with
    | nil => exact ⟨_, .idle step s d stop⟩
    | cons t ts =>
      cases decides s t with
      | stays unknown => exact ⟨_, .stays d stop ts unknown⟩
      | goes known holds =>
        suffices rounds : ∃ r, Counts (fun inner => _ >>= Parser.iterate (step inner)) d stop ts r d by
          obtain ⟨r, counts⟩ := rounds
          exact ⟨r, .goes known counts⟩
        apply bindAt (holds stop ts)
        intro s' rest read
        have shorter : rest.length ≤ ts.length := (read.suffix bound).length_le
        exact ih rest.length (Nat.lt_succ_of_le shorter) s' rest rfl

theorem many (bound : d ≤ maxNesting) {stops : Token → Bool} {item : Nested → Parser α}
    {strict : ∀ inner, (item inner).Strict} (each : Counted d α item) :
    Counted d (List α) fun inner => many stops (item inner) (strict inner) := by
  intro stop ts
  induction size : ts.length using Nat.strong_induction_on generalizing ts with
  | _ size ih =>
    subst size
    cases ts with
    | nil => exact ⟨_, .none stops item strict d stop⟩
    | cons t ts =>
      cases going : stops t with
      | true => exact ⟨_, .last item strict d stop ts going⟩
      | false =>
        suffices rounds : ∃ r, Counts (fun inner => item inner >>= fun a =>
            Parser.many stops (item inner) (strict inner) >>= fun as => Pure.pure (a :: as)) d stop (t :: ts) r d by
          obtain ⟨r, counts⟩ := rounds
          exact ⟨r, .more going counts⟩
        apply bindAt (each stop (t :: ts))
        intro a rest read
        have shorter : rest.length < (t :: ts).length := strict _ (read.outcome bound).symm
        exact bindAt (ih rest.length shorter rest rfl) fun as _ _ => plain (Pure.pure (a :: as)) stop _

end Counted

theorem compositional_counted {d : Nat} (bound : d ≤ maxNesting)
    (entered : ∀ {α : Type} (entry : Entry α), Counted d α entry.door) : Compositional (Counted d) where
  pure a := .plain (Pure.pure a)
  fail complaint _ := .plain (fail complaint)
  peek := .plain peek
  skip := .plain skip
  bind first second := first.bind second
  onToken decides otherwise := .onToken decides otherwise
  literal decides _ := .onToken decides (.plain _)
  iterate decides s := .iterate bound decides s
  many _ _ each := .many bound each
  statement := entered .statement
  assignment := entered .assignment
  conditional := entered .conditional
  unary := entered .unary

theorem compositional_levels (n : Nat) (bound : n ≤ maxNesting) :
    Compositional (Counted (maxNesting - n)) := by
  induction n with
  | zero =>
    apply compositional_counted (Nat.sub_le _ _)
    intro α entry stop ts
    exact ⟨_, .full entry stop ts (Nat.le_refl _)⟩
  | succ n ih =>
    have law := ih (Nat.le_of_succ_le bound)
    have level : maxNesting - n = maxNesting - (n + 1) + 1 := by omega
    rw [level] at law
    apply compositional_counted (Nat.sub_le _ _)
    intro α entry stop ts
    have inside : Counted (maxNesting - (n + 1) + 1) α entry.room := by
      cases entry with
      | statement => exact law.statementOf
      | assignment => exact law.assignmentOf
      | conditional => exact law.conditionalOf
      | unary => exact law.unaryOf
    obtain ⟨r, counts⟩ := inside stop ts
    exact ⟨r, .enter (e := maxNesting - (n + 1) + 1) (by omega) counts⟩

theorem counts_program (stop : Token) (ts : List Token) :
    Counts (fun inner => many (fun _ => false) inner.statement inner.strict) 0 stop ts
      (program.run stop ts) 0 := by
  have law := compositional_levels maxNesting (Nat.le_refl _)
  rw [Nat.sub_self] at law
  obtain ⟨r, counts⟩ := law.many @Nested.strict law.statement stop ts
  obtain rfl := counts.outcome (Nat.zero_le _)
  exact counts

end ScriptCpp.Parser
