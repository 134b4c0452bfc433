import Mathlib
import ScriptCpp.Proofs.Parsing.Continuation
import ScriptCpp.Proofs.Parsing.Depth
import ScriptCpp.Proofs.Parsing.Takes

set_option autoImplicit false

namespace ScriptCpp.Parser

open Pairing (diagonal)

/-- Pairs of streams with the same next token. Past a token both streams go on as a pair, only behind
`if` they need not; but where `if` itself stands behind a dot or behind `else`, they do. -/
structure Track (stop : Token) where
  Related : List Token → List Token → Prop
  spelled {ts us : List Token} : Related ts us → Spelled stop ts
  view {ts us : List Token} : Related ts us →
    (ts = [] ∧ us = []) ∨ ∃ t ts' us', ts = t :: ts' ∧ us = t :: us'
  tail {t : Token} {ts us : List Token} : Related (t :: ts) (t :: us) → t.kind ≠ .keyword .if_ →
    Related ts us
  second {t v : Token} {ts us : List Token} : Related (t :: v :: ts) (t :: v :: us) →
    t.kind = .symbol .dot ∨ t.kind = .keyword .else_ → Related ts us

namespace Track

variable {stop : Token} {K : Track stop} {α β γ δ σ τ : Type}

/-- A success of `p` on `ts` takes tokens as `taken` says, and `q` comes to a success on `us`. -/
def Steps (K : Track stop) (taken : List Token → Prop) (R : α → β → Prop) (p : Parser α)
    (q : Parser β) (ts us : List Token) : Prop :=
  ∀ ⦃a : α⦄ ⦃rest : List Token⦄, p.run stop ts = .ok (a, rest) → ∃ b rest' used,
    q.run stop us = .ok (b, rest') ∧ R a b ∧ K.Related rest rest' ∧ ts = used ++ rest ∧ taken used

variable {R : α → β → Prop} {S : γ → δ → Prop} {p : Parser α} {q : Parser β} {f : α → Parser γ}
  {g : β → Parser δ} {ts us : List Token} {due later : List Symbol} {t : Token}
  {taken taken' : List Token → Prop}

def Closes (due : List Symbol) (used : List Token) : Prop := Token.brackets due used = some []

theorem Closes.append {xs ys : List Token} (first : Closes due xs) (second : Closes later ys) :
    Closes (due ++ later) (xs ++ ys) := by
  have before := Token.brackets_frame first later
  rw [Closes, Token.brackets_append, before]
  exact second

theorem Closes.cons {xs : List Token} (turned : t.kind.turn due = some later)
    (rest : Closes later xs) : Closes due (t :: xs) := by
  rw [Closes, Token.brackets_cons, turned]
  exact rest

theorem Steps.bind (first : K.Steps taken R p q ts us)
    (second : ∀ {used a b rest rest'}, p.run stop ts = .ok (a, rest) → taken used → R a b →
      K.Related rest rest' → K.Steps (fun more => taken' (used ++ more)) S (f a) (g b) rest rest') :
    K.Steps taken' S (p >>= f) (q >>= g) ts us := by
  intro c rest read
  rw [run_bind] at read
  split at read
  · cases read
  · next a middle early =>
    obtain ⟨b, middle', used, early', related, rests, rfl, holds⟩ := first early
    obtain ⟨d, rest', more, late, last, ends, rfl, whole⟩ := second early holds related rests read
    refine ⟨d, rest', used ++ more, ?_, last, ends, by rw [List.append_assoc], whole⟩
    rw [run_bind, early']
    exact late

theorem Steps.mono (h : K.Steps taken R p q ts us) (less : ∀ used, taken used → taken' used) :
    K.Steps taken' R p q ts us := by
  intro a rest read
  obtain ⟨b, rest', used, read', related, rests, split, holds⟩ := h read
  exact ⟨b, rest', used, read', related, rests, split, less used holds⟩

-- A parser that takes a token and goes on as another one.
theorem Steps.cons {p' : Parser α} {q' : Parser β}
    (h : K.Steps (fun used => taken (t :: used)) R p' q' ts us)
    (first : p.run stop (t :: ts) = p'.run stop ts) (second : q.run stop (t :: us) = q'.run stop us) :
    K.Steps taken R p q (t :: ts) (t :: us) := by
  intro a rest read
  rw [first] at read
  obtain ⟨b, rest', used, read', related, rests, rfl, holds⟩ := h read
  exact ⟨b, rest', t :: used, second.trans read', related, rests, rfl, holds⟩

theorem Steps.nothing {a : α} {b : β} (related : R a b) (rests : K.Related ts us) (holds : taken [])
    (first : p.run stop ts = .ok (a, ts)) (second : q.run stop us = .ok (b, us)) :
    K.Steps taken R p q ts us := by
  intro a' rest read
  cases first.symm.trans read
  exact ⟨b, us, [], second, related, rests, rfl, holds⟩

def Follows (K : Track stop) (due : List Symbol) (R : α → β → Prop) (p : Parser α) (q : Parser β) :
    Prop :=
  ∀ ⦃ts us : List Token⦄, K.Related ts us → K.Steps (Closes due) R p q ts us

def Behind (K : Track stop) (t u : Token) (due : List Symbol) (R : α → β → Prop) (p : Parser α)
    (q : Parser β) : Prop :=
  ∀ ⦃ts us : List Token⦄, K.Related (t :: ts) (u :: us) →
    K.Steps (fun used => Closes due (t :: used)) R p q ts us

theorem like_self (t : Token) : t.Like (diagonal stop).quoted t := ⟨rfl, fun _ => rfl, fun _ => rfl⟩

theorem next_eq (related : K.Related ts us) : us.headD stop = ts.headD stop := by
  rcases K.view related with ⟨rfl, rfl⟩ | ⟨t, ts', us', rfl, rfl⟩
  · rfl
  · rfl

theorem Follows.andThen (first : K.Follows due R p q)
    (second : ∀ {a b}, R a b → K.Follows later S (f a) (g b)) :
    K.Follows (due ++ later) S (p >>= f) (q >>= g) := by
  intro ts us related
  refine (first related).bind fun _ closed values rests => ?_
  exact (second values rests).mono fun more closes => closed.append closes

theorem Follows.onToken {known : Token → Option (Parser α)} {known' : Token → Option (Parser β)}
    {other : Parser α} {other' : Parser β}
    (answers : ∀ {t u : Token}, t.Like (diagonal stop).quoted u →
      Option.Rel (K.Behind t u due R) (known t) (known' u))
    (otherwise : K.Follows due R other other') :
    K.Follows due R (onToken known other) (onToken known' other') := by
  intro ts us related
  rcases K.view related with ⟨rfl, rfl⟩ | ⟨t, ts, us, rfl, rfl⟩
  · exact otherwise related
  · have answer := answers (like_self t)
    generalize found : known t = next at answer
    generalize found' : known' t = next' at answer
    cases answer with
    | none =>
      intro a rest read
      simp only [Parser.onToken, found, found'] at read ⊢
      exact otherwise related read
    | some behind =>
      exact (behind related).cons (by simp only [Parser.onToken, found])
        (by simp only [Parser.onToken, found'])

theorem Follows.iterate {R : σ → τ → Prop} {step : σ → Token → Option (Parser σ)}
    {step' : τ → Token → Option (Parser τ)}
    (answers : ∀ {s s' t u}, R s s' → t.Like (diagonal stop).quoted u →
      Option.Rel (K.Behind t u [] R) (step s t) (step' s' u))
    {s : σ} {s' : τ} (start : R s s') : K.Follows [] R (iterate step s) (iterate step' s') := by
  intro ts us related
  induction size : ts.length using Nat.strong_induction_on generalizing s s' ts us with
  | _ size ih =>
    subst size
    rcases K.view related with ⟨rfl, rfl⟩ | ⟨t, ts, us, rfl, rfl⟩
    · exact .nothing start related rfl run_iterate_nil run_iterate_nil
    · have answer := answers start (like_self t)
      generalize found : step s t = next at answer
      generalize found' : step' s' t = next' at answer
      cases answer with
      | none =>
        exact .nothing start related rfl (run_iterate_stays found) (run_iterate_stays found')
      | @some p q behind =>
        refine Steps.cons (Steps.bind (behind related) ?_) (run_iterate_goes found)
          (run_iterate_goes found')
        intro used s s' rest rest' read closed again rests
        have shorter : rest.length ≤ ts.length := (p.suffix read).length_le
        refine (ih rest.length (Nat.lt_succ_of_le shorter) again rests rfl).mono fun more closes => ?_
        exact closed.append closes

theorem Follows.many {stops stops' : Token → Bool} {strict : p.Strict} {strict' : q.Strict}
    (same : ∀ {t u : Token}, t.Like (diagonal stop).quoted u → stops' u = stops t)
    (item : K.Follows [] R p q) :
    K.Follows [] (List.Forall₂ R) (many stops p @strict) (many stops' q @strict') := by
  intro ts us related
  induction size : ts.length using Nat.strong_induction_on generalizing ts us with
  | _ size ih =>
    subst size
    rcases K.view related with ⟨rfl, rfl⟩ | ⟨t, ts, us, rfl, rfl⟩
    · exact .nothing .nil related rfl run_many_nil run_many_nil
    · have decided := same (like_self t)
      cases going : stops t with
      | true =>
        exact .nothing .nil related rfl (run_many_stops going) (run_many_stops (decided.trans going))
      | false =>
        have each : K.Steps (Closes []) (List.Forall₂ R)
            (p >>= fun a => Parser.many stops p @strict >>= fun as => Pure.pure (a :: as))
            (q >>= fun b => Parser.many stops' q @strict' >>= fun bs => Pure.pure (b :: bs))
            (t :: ts) (t :: us) := by
          refine (item related).bind fun read closed first rests => ?_
          refine (ih _ (strict read) rests rfl).bind fun _ closes others ends => ?_
          exact .nothing (.cons first others) ends (by simpa using closed.append closes) rfl rfl
        intro as rest read
        rw [run_many_goes going] at read
        rw [run_many_goes (decided.trans going)]
        exact each read

theorem Follows.sees (sign : Symbol) {f : Bool → Parser α} {g : Bool → Parser β}
    (yes : ∀ ⦃ts us : List Token⦄, K.Related ts us → (ts.headD stop).kind = .symbol sign →
      K.Steps (Closes due) R (f true) (g true) ts us)
    (no : K.Follows due R (f false) (g false)) :
    K.Follows due R (sees sign >>= f) (sees sign >>= g) := by
  intro ts us related a rest read
  have decided : ∀ {ts : List Token} {γ : Type} {h : Bool → Parser γ}, (Parser.sees sign >>= h).run stop ts =
      (h ((ts.headD stop).kind == .symbol sign)).run stop ts := rfl
  rw [decided] at read
  rw [decided, next_eq related]
  cases seen : (ts.headD stop).kind == .symbol sign with
  | true =>
    rw [seen] at read
    exact yes related (by simpa using seen) read
  | false =>
    rw [seen] at read
    exact no related read

theorem Follows.skip {sign : Symbol} (turned : (Token.Kind.symbol sign).turn due = some later)
    (rest : K.Follows later R p q) (related : K.Related ts us)
    (next : (ts.headD stop).kind = .symbol sign) :
    K.Steps (Closes due) R (skip >>= fun _ => p) (skip >>= fun _ => q) ts us := by
  rcases K.view related with ⟨rfl, rfl⟩ | ⟨t, ts, us, rfl, rfl⟩
  · exact absurd ((K.spelled related).stop_eof.symm.trans next) nofun
  · have isSign : t.kind = .symbol sign := next
    have rests := K.tail related (by rw [isSign]; nofun)
    exact ((rest rests).mono fun used closes => closes.cons (by rw [isSign, turned])).cons rfl rfl

theorem Follows.behind {u : Token} (other : t.kind ≠ .keyword .if_)
    (turned : t.kind.turn due = some later) (rest : K.Follows later R p q) : K.Behind t u due R p q := by
  intro ts us related
  obtain rfl : u = t := by simpa using next_eq related
  exact (rest (K.tail related other)).mono fun used closes => closes.cons turned

theorem behind_dot {u : Token} (isDot : t.kind = .symbol .dot) {f : String → α} {g : String → β}
    (values : ∀ name, R (f name) (g name)) :
    K.Behind t u [] R (f <$> propertyName) (g <$> propertyName) := by
  intro ts us related
  obtain rfl : u = t := by simpa using next_eq related
  have rests := K.tail related (by rw [isDot]; nofun)
  have named : K.Steps (fun used => Closes [] (u :: used)) Eq propertyName propertyName ts us := by
    intro name rest read
    obtain ⟨isName, rfl, rfl⟩ := propertyName_ok_iff.mp read
    rcases K.view rests with ⟨rfl, rfl⟩ | ⟨v, ts, us, rfl, rfl⟩
    · have spelled := K.spelled related
      simp [spelled.stop_eof, spelled.stop_text] at isName
    · refine ⟨v.text, us, [v], propertyName_ok_iff.mpr ⟨isName, rfl, rfl⟩, rfl,
        K.second related (.inl isDot), rfl, ?_⟩
      -- No sign is spelled like a keyword, so the name is no bracket.
      have plain : v.kind.turn [] = some [] := by
        cases kind : v.kind with
        | symbol sign =>
          have unknown := (K.spelled rests).signs v List.mem_cons_self sign kind
          simp [kind, unknown] at isName
        | _ => rfl
      exact .cons (by rw [isDot]; rfl) (.cons plain rfl)
  refine named.bind (f := fun name => Pure.pure (f name)) fun _ closed same ends => ?_
  subst same
  exact .nothing (values _) ends (by simpa using closed) rfl rfl

theorem behind_else {u : Token} (isElse : t.kind = .keyword .else_) {f : Bool → Parser α}
    {g : Bool → Parser β} (yes : K.Follows [] R (f true) (g true))
    (no : K.Follows [] R (f false) (g false)) :
    K.Behind t u [] R (acceptWord .if_ >>= f) (acceptWord .if_ >>= g) := by
  intro ts us related
  obtain rfl : u = t := by simpa using next_eq related
  have rests := K.tail related (by rw [isElse]; nofun)
  have plain : u.kind.turn [] = some [] := by rw [isElse]; rfl
  have other : K.Steps (fun used => Closes [] (u :: used)) R (f false) (g false) ts us :=
    (no rests).mono fun used closes => closes.cons plain
  rcases K.view rests with ⟨rfl, rfl⟩ | ⟨v, ts, us, rfl, rfl⟩
  · exact other
  · by_cases isIf : v.kind = .keyword .if_
    · have taken : ∀ {γ : Type} {h : Bool → Parser γ} {ts : List Token},
          (acceptWord .if_ >>= h).run stop (v :: ts) = (h true).run stop ts := by
        intro γ h ts
        rw [run_bind, acceptWord, run_accept, if_pos isIf]
      refine Steps.cons ?_ taken taken
      refine (yes (K.second related (.inr isElse))).mono fun used closes => ?_
      exact .cons plain (.cons (by rw [isIf]; rfl) closes)
    · have kept : ∀ {γ : Type} {h : Bool → Parser γ} {ts : List Token},
          (acceptWord .if_ >>= h).run stop (v :: ts) = (h false).run stop (v :: ts) := by
        intro γ h ts
        rw [run_bind, acceptWord, run_accept, if_neg isIf]
      intro a rest read
      rw [kept] at read ⊢
      exact other read

def following (K : Track stop) : Tandem (diagonal stop) where
  Rel due R p q := K.Follows due R p q
  On kind due R p q := ∀ ⦃ts us : List Token⦄, K.Related ts us → (ts.headD stop).kind = kind →
    K.Steps (Closes due) R p q ts us
  Behind t u due R p q := K.Behind t u due R p q
  pure related _ _ rests := .nothing related rests rfl rfl rfl
  fail _ _ _ _ := nofun
  peek _ _ rests := .nothing (by rw [next_eq rests]; exact like_self _) rests rfl rfl rfl
  andThen first second := first.andThen second
  onToken answers otherwise := .onToken answers otherwise
  iterate answers _ _ start := .iterate answers start
  many same item := .many same item
  sees sign _ _ yes no := .sees sign yes no
  on whole _ _ related _ := whole related
  skip turned rest _ _ related next := Follows.skip turned rest related next
  behind other turned rest := rest.behind other turned
  dot isDot values := behind_dot isDot values
  elseIf isElse yes no := behind_else isElse yes no

def same (stop : Token) : Track stop where
  Related ts us := us = ts ∧ Spelled stop ts
  spelled related := related.2
  view := by
    rintro ts us ⟨rfl, -⟩
    cases us with
    | nil => exact .inl ⟨rfl, rfl⟩
    | cons t ts => exact .inr ⟨t, ts, ts, rfl, rfl⟩
  tail related _ := ⟨(List.cons.inj related.1).2, related.2.tail⟩
  second related _ := ⟨(List.cons.inj (List.cons.inj related.1).2).2, related.2.tail.tail⟩

def Ready (front : List Token) : Prop :=
  ∀ t, front.getLast? = some t → t.kind ≠ .symbol .dot ∧ t.kind ≠ .keyword .else_

theorem Ready.tail {front : List Token} (ready : Ready (t :: front)) : Ready front := by
  intro v last
  refine ready v ?_
  rw [List.getLast?_cons, last]
  rfl

/-- Streams that differ behind one `if`, and streams that do not differ. -/
def hole (stop first : Token) (isIf : first.kind = .keyword .if_) (filling filling' : List Token) :
    Track stop where
  Related ts us := Spelled stop ts ∧ (us = ts ∨
    ∃ front, Ready front ∧ ts = front ++ first :: filling ∧ us = front ++ first :: filling')
  spelled related := related.1
  view := by
    rintro ts us ⟨-, rfl | ⟨front, -, rfl, rfl⟩⟩
    · cases us with
      | nil => exact .inl ⟨rfl, rfl⟩
      | cons t us => exact .inr ⟨t, us, us, rfl, rfl⟩
    · cases front with
      | nil => exact .inr ⟨first, filling, filling', rfl, rfl⟩
      | cons t front => exact .inr ⟨t, _, _, rfl, rfl⟩
  tail := by
    rintro t ts us ⟨spelled, same | ⟨front, ready, split, split'⟩⟩ other
    · exact ⟨spelled.tail, .inl (List.cons.inj same).2⟩
    · cases front with
      | nil =>
        obtain ⟨rfl, -⟩ := List.cons.inj split
        exact absurd isIf other
      | cons t' front =>
        exact ⟨spelled.tail, .inr ⟨front, ready.tail, (List.cons.inj split).2, (List.cons.inj split').2⟩⟩
  second := by
    rintro t v ts us ⟨spelled, same | ⟨front, ready, split, split'⟩⟩ joint
    · exact ⟨spelled.tail.tail, .inl (List.cons.inj (List.cons.inj same).2).2⟩
    · cases front with
      | nil =>
        obtain ⟨rfl, -⟩ := List.cons.inj split
        simp [isIf] at joint
      | cons t' front =>
        obtain ⟨rfl, behind⟩ := List.cons.inj split
        obtain ⟨-, behind'⟩ := List.cons.inj split'
        cases front with
        | nil =>
          obtain ⟨noDot, noElse⟩ := ready t rfl
          exact absurd joint (by simp [noDot, noElse])
        | cons v' front =>
          exact ⟨spelled.tail.tail, .inr ⟨front, ready.tail.tail, (List.cons.inj behind).2,
            (List.cons.inj behind').2⟩⟩

end Track

open Track

variable {stop : Token}

theorem Track.Follows.behind_if {α β : Type} {R : α → β → Prop} {p : Parser α} {q : Parser β}
    {K : Track stop} {t : Token} (isIf : t.kind = .keyword .if_) {ts us : List Token}
    (whole : K.Follows [] R p q) (rests : K.Related ts us) :
    K.Steps (fun used => Closes [] (t :: used)) R p q ts us :=
  (whole rests).mono fun _ closes => closes.cons (by rw [isIf]; rfl)

theorem inside_same (stop : Token) {m n : Nat} (enough : m ≤ n) :
    (same stop).following.Inside Eq Eq (nested m) (nested n) := by
  induction m generalizing n with
  | zero => exact ⟨fun _ _ _ => nofun, fun _ _ _ => nofun, fun _ _ _ => nofun, fun _ _ _ => nofun⟩
  | succ m ih =>
    obtain ⟨n, rfl⟩ := Nat.exists_eq_add_of_lt enough
    have inside := ih (Nat.le_add_right m n)
    have layer := (diagonal stop).layer_eq fun same => same
    have chain := layer.branchStmt inside
    refine layer.around inside fun {t u} isIf ts us related => ?_
    exact Follows.behind_if isIf chain ⟨(List.cons.inj related.1).2, related.2.tail⟩

section Hole

variable {first : Token} (isIf : first.kind = .keyword .if_) {filling filling' : List Token}
  {E : Expr → Expr → Prop} {S : Stmt → Stmt → Prop} {O : Option (List Stmt) → Option (List Stmt) → Prop}

include isIf

theorem inside_hole (layer : (diagonal stop).Layer E E S S O)
    (filled : ∀ n s rest, (branch (nested n)).run stop filling = .ok (s, rest) →
      ∃ s', (branch (nested n)).run stop filling' = .ok (s', rest) ∧ S s s') (n : Nat) :
    (hole stop first isIf filling filling').following.Inside E S (nested n) (nested n) := by
  induction n with
  | zero => exact ⟨fun _ _ _ => nofun, fun _ _ _ => nofun, fun _ _ _ => nofun, fun _ _ _ => nofun⟩
  | succ n inside =>
    have chain := layer.branchStmt inside
    refine layer.around inside fun {t u} sort ts us related => ?_
    obtain ⟨spelled, same | ⟨front, ready, split, split'⟩⟩ := related
    · exact Follows.behind_if sort chain ⟨spelled.tail, .inl (List.cons.inj same).2⟩
    -- This is the `if` with the fillings behind it, or one that stands before it.
    · cases front with
      | nil =>
        obtain ⟨rfl, rfl⟩ := List.cons.inj split
        obtain ⟨rfl, rfl⟩ := List.cons.inj split'
        intro s rest read
        have balanced := ((diagonal stop).layer_eq fun same => same).branchStmt
          (inside_same stop (Nat.le_refl n))
        obtain ⟨-, -, used, -, -, -, taken, closes⟩ :=
          Follows.behind_if sort balanced ⟨rfl, spelled.tail⟩ read
        obtain ⟨s', read', related⟩ := filled n s rest read
        refine ⟨s', rest, used, read', related, ⟨?_, .inl rfl⟩, taken, closes⟩
        rw [taken] at spelled
        exact spelled.tail.of_append
      | cons t' front =>
        exact Follows.behind_if sort chain ⟨spelled.tail,
          .inr ⟨front, ready.tail, (List.cons.inj split).2, (List.cons.inj split').2⟩⟩

theorem run_replaced (layer : (diagonal stop).Layer E E S S O)
    (filled : ∀ n s rest, (branch (nested n)).run stop filling = .ok (s, rest) →
      ∃ s', (branch (nested n)).run stop filling' = .ok (s', rest) ∧ S s s')
    {front : List Token} (ready : Ready front) (spelled : Spelled stop (front ++ first :: filling))
    {p : Program} {rest : List Token}
    (read : program.run stop (front ++ first :: filling) = .ok (p, rest)) :
    ∃ p' rest', program.run stop (front ++ first :: filling') = .ok (p', rest') ∧
      List.Forall₂ S p p' := by
  have inside := inside_hole isIf layer filled maxNesting
  have whole : (hole stop first isIf filling filling').Follows [] (List.Forall₂ S) program program :=
    .many (fun _ => rfl) inside.statement
  obtain ⟨p', rest', -, read', related, -⟩ := whole ⟨spelled, .inr ⟨front, ready, rfl, rfl⟩⟩ read
  exact ⟨p', rest', read', related⟩

end Hole

end ScriptCpp.Parser
