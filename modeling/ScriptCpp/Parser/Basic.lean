import ScriptCpp.Parser.Complaint

set_option autoImplicit false

namespace ScriptCpp

/-- `run stop ts` reads from `ts`; the end token `stop` follows them and is never passed. -/
structure Parser (α : Type) where
  run : Token → List Token → Except ParseError (α × List Token)
  suffix : ∀ {stop ts a rest}, run stop ts = .ok (a, rest) → rest <:+ ts

namespace Parser

variable {α β : Type}

def pure (a : α) : Parser α where
  run _ ts := .ok (a, ts)
  suffix := by
    intro stop ts b rest h
    cases h
    exact List.suffix_refl _

def bind (p : Parser α) (f : α → Parser β) : Parser β where
  run stop ts :=
    match p.run stop ts with
    | .error e => .error e
    | .ok (a, rest) => (f a).run stop rest
  suffix := by
    intro stop ts b rest h
    split at h
    · cases h
    · next a mid first => exact ((f a).suffix h).trans (p.suffix first)

instance : Monad Parser where
  pure := pure
  bind := bind

def peek : Parser Token where
  run stop ts := .ok (ts.headD stop, ts)
  suffix := by
    intro stop ts b rest h
    cases h
    exact List.suffix_refl _

def skip : Parser Unit where
  run _ ts := .ok ((), ts.tail)
  suffix := by
    intro stop ts b rest h
    cases h
    exact List.tail_suffix _

def fail (complaint : Complaint) : Parser α where
  run stop ts := .error (.atToken complaint (ts.headD stop))
  suffix := by
    intro stop ts b rest h
    cases h

/-- Takes the current token where `f` knows how to go on from it, and reads `otherwise` from any
other. -/
def onToken (f : Token → Option (Parser α)) (otherwise : Parser α) : Parser α where
  run stop
    | [] => otherwise.run stop []
    | t :: ts =>
        match f t with
        | some next => next.run stop ts
        | none => otherwise.run stop (t :: ts)
  suffix := by
    intro stop ts b rest h
    split at h
    · exact otherwise.suffix h
    · split at h
      · next next _ => exact (next.suffix h).trans (List.suffix_cons _ _)
      · exact otherwise.suffix h

def Strict (p : Parser α) : Prop :=
  ∀ {stop ts a rest}, p.run stop ts = .ok (a, rest) → rest.length < ts.length

theorem strict_fail (complaint : Complaint) : (fail complaint : Parser α).Strict := by
  intro stop ts a rest h
  cases h

theorem strict_onToken (f : Token → Option (Parser α)) {otherwise : Parser α}
    (strict : otherwise.Strict) : (onToken f otherwise).Strict := by
  intro stop ts a rest h
  simp only [onToken] at h
  split at h
  · exact strict h
  · split at h
    · next next _ => exact Nat.lt_succ_of_le (next.suffix h).length_le
    · exact strict h

theorem strict_bind_left {p : Parser α} {f : α → Parser β} (strict : p.Strict) :
    (p >>= f).Strict := by
  intro stop ts b rest h
  change (p.bind f).run stop ts = _ at h
  simp only [bind] at h
  split at h
  · cases h
  · next a mid first => exact Nat.lt_of_le_of_lt ((f a).suffix h).length_le (strict first)

theorem strict_bind_right {p : Parser α} {f : α → Parser β} (strict : ∀ a, (f a).Strict) :
    (p >>= f).Strict := by
  intro stop ts b rest h
  change (p.bind f).run stop ts = _ at h
  simp only [bind] at h
  split at h
  · cases h
  · next a mid first => exact Nat.lt_of_lt_of_le (strict a h) (p.suffix first).length_le

def expect (kind : Token.Kind) (complaint : Complaint) : Parser String :=
  onToken (fun t => if t.kind = kind then some (pure t.text) else none) (fail complaint)

theorem strict_expect (kind : Token.Kind) (complaint : Complaint) :
    (expect kind complaint).Strict :=
  strict_onToken _ (strict_fail _)

def expectSymbol (sign : Symbol) (complaint : Complaint) : Parser Unit := do
  let _ ← expect (.symbol sign) complaint
  return ()

theorem strict_expectSymbol (sign : Symbol) (complaint : Complaint) :
    (expectSymbol sign complaint).Strict :=
  strict_bind_left (strict_expect _ _)

def accept (kind : Token.Kind) : Parser Bool :=
  onToken (fun t => if t.kind = kind then some (pure true) else none) (pure false)

def acceptSymbol (sign : Symbol) : Parser Bool := accept (.symbol sign)

def acceptWord (word : Keyword) : Parser Bool := accept (.keyword word)

def sees (sign : Symbol) : Parser Bool := do
  return (← peek).kind == .symbol sign

def iterateFrom {σ : Type} (step : σ → Token → Option (Parser σ)) (s : σ) (stop : Token)
    (ts : List Token) : Except ParseError (σ × List Token) :=
  match ts with
  | [] => .ok (s, [])
  | t :: rest =>
      match step s t with
      | none => .ok (s, t :: rest)
      | some p =>
          match _h : p.run stop rest with
          | .error e => .error e
          | .ok (next, left) => iterateFrom step next stop left
termination_by ts.length
decreasing_by exact Nat.lt_succ_of_le (p.suffix _h).length_le

theorem iterateFrom_suffix {σ : Type} (step : σ → Token → Option (Parser σ)) (s : σ)
    (stop : Token) (ts : List Token) {a : σ} {rest : List Token}
    (h : iterateFrom step s stop ts = .ok (a, rest)) : rest <:+ ts := by
  fun_induction iterateFrom step s stop ts with
  | case1 => cases h; exact List.suffix_refl _
  | case2 => cases h; exact List.suffix_refl _
  | case3 => cases h
  | case4 _ _ _ p _ _ _ taken ih =>
      exact (ih h).trans ((p.suffix taken).trans (List.suffix_cons _ _))

def iterate {σ : Type} (step : σ → Token → Option (Parser σ)) (s : σ) : Parser σ where
  run := iterateFrom step s
  suffix := iterateFrom_suffix step s _ _

def manyFrom (stops : Token → Bool) (item : Parser α) (strict : item.Strict) (stop : Token)
    (ts : List Token) : Except ParseError (List α × List Token) :=
  match ts with
  | [] => .ok ([], [])
  | t :: rest =>
      if stops t then .ok ([], t :: rest)
      else
        match _h : item.run stop (t :: rest) with
        | .error e => .error e
        | .ok (a, left) =>
            match manyFrom stops item strict stop left with
            | .error e => .error e
            | .ok (as, last) => .ok (a :: as, last)
termination_by ts.length
decreasing_by exact strict _h

theorem manyFrom_suffix (stops : Token → Bool) (item : Parser α) (strict : item.Strict)
    (stop : Token) (ts : List Token) {as : List α} {rest : List Token}
    (h : manyFrom stops item strict stop ts = .ok (as, rest)) : rest <:+ ts := by
  fun_induction manyFrom stops item strict stop ts generalizing as rest with
  | case1 => cases h; exact List.suffix_refl _
  | case2 => cases h; exact List.suffix_refl _
  | case3 => cases h
  | case4 => cases h
  | case5 _ _ _ _ _ first _ _ more ih =>
      cases h
      exact (ih more).trans (item.suffix first)

def many (stops : Token → Bool) (item : Parser α) (strict : item.Strict) : Parser (List α) where
  run := manyFrom stops item strict
  suffix := manyFrom_suffix stops item strict _ _

end Parser

end ScriptCpp
