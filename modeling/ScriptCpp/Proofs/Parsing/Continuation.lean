import Mathlib
import ScriptCpp.Proofs.Parsing.Expressions

set_option autoImplicit false

namespace ScriptCpp.Parser

structure Moves (g : Token → Token) : Prop where
  kind : ∀ t, (g t).kind = t.kind
  text : ∀ t, (g t).text = t.text

/-- A success is the same with the tokens moved and more of them behind. If it left nothing, the first
of those is of a kind in `follow`. -/
def Extends {α : Type} (p : Parser α) (follow : Token.Kind → Prop) : Prop :=
  ∀ ⦃stop : Token⦄ ⦃ts : List Token⦄ ⦃a : α⦄ ⦃rest : List Token⦄, p.run stop ts = .ok (a, rest) →
    ∀ ⦃g : Token → Token⦄, Moves g → ∀ (stop' : Token) (more : List Token),
      (rest = [] → follow (more.headD stop').kind) →
        p.run stop' (ts.map g ++ more) = .ok (a, rest.map g ++ more)

abbrev Settles {α : Type} (p : Parser α) : Prop := p.Extends fun _ => False

theorem run_accept (kind : Token.Kind) (stop t : Token) (ts : List Token) :
    (accept kind).run stop (t :: ts) =
      if t.kind = kind then .ok (true, ts) else .ok (false, t :: ts) := by
  simp only [accept, onToken]
  split
  · next q found =>
    split at found
    · next same =>
      cases found
      rw [if_pos same]
      rfl
    · cases found
  · next unknown =>
    split at unknown
    · cases unknown
    · next other =>
      rw [if_neg other]
      rfl

namespace Extends

variable {α β σ : Type} {p : Parser α} {f : α → Parser β} {F G : Token.Kind → Prop}

theorem mono (h : p.Extends F) (less : ∀ kind, G kind → F kind) : p.Extends G :=
  fun _ _ _ _ read _ moves stop' more follows =>
    h read moves stop' more fun none => less _ (follows none)

theorem settles (h : p.Extends F) : p.Settles :=
  h.mono fun _ => False.elim

theorem pure {a : α} : (Pure.pure a : Parser α).Extends F := by
  intro stop ts b rest read g moves stop' more follows
  cases read
  rfl

theorem fails (never : ∀ stop ts r, p.run stop ts ≠ .ok r) : p.Extends F :=
  fun stop ts a rest read => absurd read (never stop ts (a, rest))

theorem fail {complaint : Complaint} : (Parser.fail complaint : Parser α).Extends F :=
  fails fun stop ts r read => by cases read

theorem bind (first : p.Extends F) (second : ∀ a, (f a).Extends F) : (p >>= f).Extends F := by
  intro stop ts b rest read g moves stop' more follows
  rw [run_bind] at read ⊢
  split at read
  · cases read
  · next a middle taken =>
    -- Where nothing is left in the middle, nothing is left at the end.
    have atEnd : middle = [] → F (more.headD stop').kind := by
      rintro rfl
      exact follows (List.suffix_nil.mp ((f a).suffix read))
    rw [first taken moves stop' more atEnd]
    exact second a read moves stop' more follows

theorem before (first : p.Settles) (strict : ∀ a, (f a).Strict) (second : ∀ a, (f a).Extends F) :
    (p >>= f).Extends F := by
  intro stop ts b rest read g moves stop' more follows
  rw [run_bind] at read ⊢
  split at read
  · cases read
  · next a middle taken =>
    have left : middle ≠ [] := List.ne_nil_of_length_pos (Nat.zero_lt_of_lt (strict a read))
    rw [first taken moves stop' more fun none => absurd none left]
    exact second a read moves stop' more follows

theorem map {h : α → β} (whole : p.Extends F) : (h <$> p).Extends F := by
  have same : (p >>= fun a => Pure.pure (h a)).Extends F := whole.bind fun a => pure
  exact same

theorem onToken {known : Token → Option (Parser α)} {otherwise : Parser α}
    (blind : ∀ g, Moves g → ∀ t, known (g t) = known t)
    (next : ∀ t q, known t = some q → q.Extends F) (other : otherwise.Extends F)
    (strict : otherwise.Strict) : (onToken known otherwise).Extends F := by
  intro stop ts a rest read g moves stop' more follows
  cases ts with
  | nil => exact absurd (strict read) (Nat.not_lt_zero _)
  | cons t ts =>
    simp only [Parser.onToken, List.map_cons, List.cons_append, blind g moves t] at read ⊢
    split at read
    · next q found => exact next t q found read moves stop' more follows
    · exact other read moves stop' more follows

theorem expect {kind : Token.Kind} {complaint : Complaint} : (expect kind complaint).Extends F := by
  refine onToken (fun g moves t => by rw [moves.kind, moves.text]) (fun t q found => ?_) fail
    (strict_fail _)
  split at found
  · cases found
    exact pure
  · cases found

theorem expectSymbol {sign : Symbol} {complaint : Complaint} :
    (expectSymbol sign complaint).Extends F :=
  bind expect fun _ => pure

theorem closed {sign : Symbol} {complaint : Complaint} {q : α → Parser β} (first : p.Settles)
    (last : ∀ a, (q a).Extends F) :
    (p >>= fun a => Parser.expectSymbol sign complaint >>= fun _ => q a).Extends F :=
  before first (fun _ => strict_bind_left (strict_expectSymbol _ _))
    fun a => expectSymbol.bind fun _ => last a

theorem accept {kind : Token.Kind} (ends : ∀ other, F other → other ≠ kind) :
    (accept kind).Extends F := by
  intro stop ts b rest read g moves stop' more follows
  cases ts with
  | nil =>
    cases read
    cases more with
    | nil => rfl
    | cons m more => exact (run_accept ..).trans (if_neg (ends m.kind (follows rfl)))
  | cons t ts =>
    rw [run_accept] at read
    rw [List.map_cons, List.cons_append, run_accept, moves.kind]
    split at read
    · next same =>
      cases read
      rw [if_pos same]
    · next other =>
      cases read
      rw [if_neg other]
      rfl

theorem accept_then {kind : Token.Kind} {f : Bool → Parser β} (present : (f true).Extends F)
    (absent : (f false).Extends F) (strict : (f false).Strict) :
    (Parser.accept kind >>= f).Extends F := by
  intro stop ts b rest read g moves stop' more follows
  cases ts with
  | nil =>
    have taken : rest.length < ([] : List Token).length := @strict stop [] b rest read
    exact absurd taken (Nat.not_lt_zero _)
  | cons t ts =>
    rw [List.map_cons, List.cons_append, run_bind, run_accept, moves.kind]
    rw [run_bind, run_accept] at read
    by_cases same : t.kind = kind
    · rw [if_pos same] at read ⊢
      exact present read moves stop' more follows
    · rw [if_neg same] at read ⊢
      exact absent read moves stop' more follows

theorem sees {sign : Symbol} : (sees sign).Settles := by
  intro stop ts b rest read g moves stop' more follows
  cases ts with
  | nil =>
    cases read
    exact (follows rfl).elim
  | cons t ts =>
    cases read
    change Except.ok ((g t).kind == .symbol sign, g t :: (ts.map g ++ more)) = _
    rw [moves.kind]
    rfl

theorem skip : skip.Settles := by
  intro stop ts b rest read g moves stop' more follows
  cases read
  cases ts with
  | nil => exact (follows rfl).elim
  | cons t ts => rfl

theorem propertyName : propertyName.Settles := by
  intro stop ts a rest read g moves stop' more follows
  obtain ⟨named, rfl, rfl⟩ := propertyName_ok_iff.mp read
  cases ts with
  | nil => exact (follows rfl).elim
  | cons t ts =>
    refine propertyName_ok_iff.mpr ⟨?_, moves.text t, rfl⟩
    simpa [moves.kind, moves.text] using named

theorem iterate {step : σ → Token → Option (Parser σ)}
    (blind : ∀ g, Moves g → ∀ s t, step s (g t) = step s t)
    (next : ∀ s t q, step s t = some q → q.Extends F) (ends : ∀ s t, F t.kind → step s t = none)
    {s : σ} : (iterate step s).Extends F := by
  intro stop ts r rest read g moves stop' more follows
  change iterateFrom step s stop ts = _ at read
  change iterateFrom step s stop' (ts.map g ++ more) = _
  fun_induction iterateFrom step s stop ts with
  | case1 s =>
    cases read
    cases more with
    | nil => simp [iterateFrom]
    | cons m more => simp [iterateFrom, ends r m (follows rfl)]
  | case2 s t ts unknown =>
    cases read
    simp [iterateFrom, blind g moves, unknown]
  | case3 => cases read
  | case4 s t ts q known s' left taken ih =>
    have atEnd : left = [] → F (more.headD stop').kind := by
      rintro rfl
      exact follows (List.suffix_nil.mp (iterateFrom_suffix _ _ _ _ read))
    have again := next s t q known taken moves stop' more atEnd
    rw [List.map_cons, List.cons_append, iterateFrom, blind g moves, known]
    simp only
    split
    · next failed => cases failed.symm.trans again
    · next s'' left' found =>
      cases found.symm.trans again
      exact ih read

theorem many {stops : Token → Bool} {strict : p.Strict}
    (blind : ∀ g, Moves g → ∀ t, stops (g t) = stops t) (item : p.Settles) :
    (many stops p @strict).Settles := by
  intro stop ts as rest read g moves stop' more follows
  change manyFrom stops p @strict stop ts = _ at read
  change manyFrom stops p @strict stop' (ts.map g ++ more) = _
  fun_induction manyFrom stops p @strict stop ts generalizing as rest with
  | case1 =>
    cases read
    exact (follows rfl).elim
  | case2 t ts stopped =>
    cases read
    simp [manyFrom, blind g moves, stopped]
  | case3 => cases read
  | case4 => cases read
  | case5 t ts going a left taken as last later ih =>
    cases read
    -- The token that ends the loop is still to come, so the item does not take all of them.
    have atEnd : left = [] → False := by
      rintro rfl
      exact follows (List.suffix_nil.mp (manyFrom_suffix _ _ @strict _ _ later))
    have again := item taken moves stop' more atEnd
    have others := ih follows later
    rw [List.map_cons, List.cons_append] at again ⊢
    rw [manyFrom, blind g moves, if_neg going]
    split
    · next failed => cases failed.symm.trans again
    · next b left' found =>
      cases found.symm.trans again
      rw [others]

end Extends

end ScriptCpp.Parser
