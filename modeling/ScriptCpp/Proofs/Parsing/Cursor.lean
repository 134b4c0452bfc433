import Mathlib
import ScriptCpp.Proofs.Parsing.Lookahead
import ScriptCpp.Proofs.Parsing.Source

set_option autoImplicit false

namespace ScriptCpp

-- A place in a whole stream of tokens, those behind its first end token included.
structure Cursor where
  tokens : List Token
  position : Nat
  ended : Program.Terminated tokens

namespace Cursor

variable {c : Cursor} {stop t : Token} {ts : List Token}

theorem length_pos (c : Cursor) : 0 < c.tokens.length := by
  obtain ⟨last, isLast, -⟩ := c.ended
  exact List.length_pos_of_mem (List.mem_of_getLast? isLast)

def current (c : Cursor) : Token :=
  c.tokens.get ⟨min c.position (c.tokens.length - 1), by have := c.length_pos; omega⟩

def advance (c : Cursor) : Cursor :=
  if c.current.kind = .eof then c else { c with position := c.position + 1 }

def start {tokens : List Token} (ended : Program.Terminated tokens) : Cursor := ⟨tokens, 0, ended⟩

-- From the cursor on there stand `ts`, and behind them the next end token `stop`.
structure Ahead (c : Cursor) (stop : Token) (ts : List Token) : Prop where
  begins : ts ++ [stop] <+: c.tokens.drop c.position
  stop_eof : stop.kind = .eof
  ne_eof : ∀ t ∈ ts, t.kind ≠ .eof

namespace Ahead

theorem current_eq (ahead : c.Ahead stop ts) : c.current = ts.headD stop := by
  obtain ⟨behind, whole⟩ := ahead.begins
  have inside : c.position < c.tokens.length := by
    have size := congrArg List.length whole
    simp only [List.length_append, List.length_drop, List.length_singleton] at size
    omega
  have found : c.tokens[c.position]? = some (ts.headD stop) := by
    rw [← List.head?_drop, ← whole]
    cases ts <;> rfl
  have place : min c.position (c.tokens.length - 1) = c.position := by omega
  simp only [current, List.get_eq_getElem, place]
  exact Option.some.inj ((List.getElem?_eq_getElem inside).symm.trans found)

theorem current_cons (ahead : c.Ahead stop (t :: ts)) : c.current = t := ahead.current_eq

theorem current_eof (ahead : c.Ahead stop []) : c.current.kind = .eof := by
  rw [ahead.current_eq]
  exact ahead.stop_eof

theorem current_ne_eof (ahead : c.Ahead stop (t :: ts)) : c.current.kind ≠ .eof := by
  rw [ahead.current_cons]
  exact ahead.ne_eof t List.mem_cons_self

theorem exists_cons (ahead : c.Ahead stop ts) (going : c.current.kind ≠ .eof) : ∃ us, ts = c.current :: us := by
  cases ts with
  | nil => exact absurd ahead.current_eof going
  | cons t us => exact ⟨us, by rw [ahead.current_cons]⟩

theorem nil_or_cons (ahead : c.Ahead stop ts) :
    ts = [] ∨ c.current.kind ≠ .eof ∧ ∃ us, ts = c.current :: us := by
  by_cases isEof : c.current.kind = .eof
  · cases ts with
    | nil => exact .inl rfl
    | cons => exact absurd isEof ahead.current_ne_eof
  · exact .inr ⟨isEof, ahead.exists_cons isEof⟩

theorem advance (ahead : c.Ahead stop ts) : c.advance.Ahead stop ts.tail := by
  cases ts with
  | nil =>
    rw [Cursor.advance, if_pos ahead.current_eof]
    exact ahead
  | cons t ts =>
    rw [Cursor.advance, if_neg ahead.current_ne_eof]
    obtain ⟨behind, whole⟩ := ahead.begins
    refine ⟨⟨behind, ?_⟩, ahead.stop_eof, fun u later => ahead.ne_eof u (List.mem_cons_of_mem t later)⟩
    rw [← List.drop_drop, ← whole]
    rfl

end Ahead

theorem ahead_start {tokens : List Token} (ended : Program.Terminated tokens) :
    ∃ stop ts, (start ended).Ahead stop ts ∧
      Program.ofTokens tokens = Prod.fst <$> Parser.program.run stop ts := by
  obtain ⟨stop, isEof, begins, read⟩ := Program.ofTokens_terminated ended
  exact ⟨stop, _, ⟨begins, isEof, Program.takeWhile_ne_eof tokens⟩, read⟩

-- No end token lies behind the cursor.
def Clear (c : Cursor) : Prop := ∀ t ∈ c.tokens.take c.position, t.kind ≠ .eof

theorem clear_start {tokens : List Token} (ended : Program.Terminated tokens) : (start ended).Clear := by
  intro t present
  simp [start] at present

theorem Clear.advance (clear : c.Clear) : c.advance.Clear := by
  unfold Cursor.advance
  split
  · exact clear
  · next going =>
    intro t present
    change t ∈ c.tokens.take (c.position + 1) at present
    rw [List.take_add_one, List.mem_append] at present
    rcases present with before | here
    · exact clear t before
    · obtain ⟨inside, rfl⟩ := List.getElem?_eq_some_iff.mp (Option.mem_toList.mp here)
      have place : min c.position (c.tokens.length - 1) = c.position := by omega
      simpa only [current, List.get_eq_getElem, place] using going

theorem advance_tokens (c : Cursor) : c.advance.tokens = c.tokens := by
  unfold advance
  split <;> rfl

end Cursor

namespace Parser

variable {α β σ : Type}

-- What a parser comes to at a cursor, in terms of the current token and of moving on from it.
inductive RunsAt : {α : Type} → Parser α → Cursor → Except ParseError (α × Cursor) → Prop
  | pure {α : Type} (a : α) (c : Cursor) : RunsAt (Pure.pure a) c (.ok (a, c))
  | fail {α : Type} (complaint : Complaint) (c : Cursor) :
      RunsAt (Parser.fail complaint : Parser α) c (.error (.atToken complaint c.current))
  | peek (c : Cursor) : RunsAt Parser.peek c (.ok (c.current, c))
  | skip (c : Cursor) : RunsAt Parser.skip c (.ok ((), c.advance))
  | failed {α β : Type} {p : Parser α} {f : α → Parser β} {c : Cursor} {e : ParseError} :
      RunsAt p c (.error e) → RunsAt (p >>= f) c (.error e)
  | andThen {α β : Type} {p : Parser α} {f : α → Parser β} {a : α} {c c' : Cursor}
      {r : Except ParseError (β × Cursor)} :
      RunsAt p c (.ok (a, c')) → RunsAt (f a) c' r → RunsAt (p >>= f) c r
  | unknown {α : Type} {known : Token → Option (Parser α)} {other : Parser α} {c : Cursor}
      {r : Except ParseError (α × Cursor)} :
      c.current.kind = .eof ∨ known c.current = none → RunsAt other c r → RunsAt (onToken known other) c r
  | known {α : Type} {known : Token → Option (Parser α)} {other q : Parser α} {c : Cursor}
      {r : Except ParseError (α × Cursor)} :
      c.current.kind ≠ .eof → known c.current = some q → RunsAt q c.advance r →
        RunsAt (onToken known other) c r
  | stays {σ : Type} {step : σ → Token → Option (Parser σ)} {s : σ} {c : Cursor} :
      c.current.kind = .eof ∨ step s c.current = none → RunsAt (iterate step s) c (.ok (s, c))
  | goes {σ : Type} {step : σ → Token → Option (Parser σ)} {s : σ} {q : Parser σ} {c : Cursor}
      {r : Except ParseError (σ × Cursor)} :
      c.current.kind ≠ .eof → step s c.current = some q → RunsAt (q >>= iterate step) c.advance r →
        RunsAt (iterate step s) c r
  | last {α : Type} {stops : Token → Bool} {item : Parser α} {strict : item.Strict} {c : Cursor} :
      c.current.kind = .eof ∨ stops c.current = true → RunsAt (many stops item @strict) c (.ok ([], c))
  | more {α : Type} {stops : Token → Bool} {item : Parser α} {strict : item.Strict} {c : Cursor}
      {r : Except ParseError (List α × Cursor)} :
      c.current.kind ≠ .eof → stops c.current = false →
        RunsAt (item >>= fun a => many stops item @strict >>= fun as => Pure.pure (a :: as)) c r →
          RunsAt (many stops item @strict) c r

-- The two come to the same, and the end token `stop` is still the next one.
inductive Agree (stop : Token) : Except ParseError (α × Cursor) → Except ParseError (α × List Token) → Prop
  | error (e : ParseError) : Agree stop (.error e) (.error e)
  | ok (a : α) {c : Cursor} {rest : List Token} : c.Ahead stop rest → Agree stop (.ok (a, c)) (.ok (a, rest))

theorem Agree.fst_eq {stop : Token} {r : Except ParseError (α × Cursor)}
    {r' : Except ParseError (α × List Token)} (same : Agree stop r r') : Prod.fst <$> r' = Prod.fst <$> r := by
  cases same <;> rfl

-- A program is read up to the end token.
theorem Agree.current_eof {stop : Token} {ts : List Token} {result : Program} {c : Cursor}
    (same : Agree stop (.ok (result, c)) (program.run stop ts)) : c.current.kind = .eof := by
  generalize read : program.run stop ts = r at same
  cases same with
  | ok _ ahead =>
    obtain rfl := program_rest read
    exact ahead.current_eof

namespace RunsAt

theorem agree {p : Parser α} {c : Cursor} {r : Except ParseError (α × Cursor)} (runs : RunsAt p c r)
    {stop : Token} {ts : List Token} (ahead : c.Ahead stop ts) : Agree stop r (p.run stop ts) := by
  induction runs generalizing ts with
  | pure a c => exact .ok a ahead
  | fail complaint c =>
    rw [ahead.current_eq]
    exact .error _
  | peek c =>
    rw [ahead.current_eq]
    exact .ok _ ahead
  | skip c => exact .ok () ahead.advance
  | @failed _ _ p f c e _ ih =>
    have first := ih ahead
    rw [run_bind]
    generalize p.run stop ts = r at first ⊢
    cases first
    exact .error e
  | @andThen _ _ p f a c c' r _ _ first second =>
    have read := first ahead
    rw [run_bind]
    generalize p.run stop ts = r at read ⊢
    cases read with
    | ok _ ahead' => exact second ahead'
  | unknown rests _ ih =>
    rcases ahead.nil_or_cons with rfl | ⟨going, us, rfl⟩
    · exact ih ahead
    · simp only [onToken, rests.resolve_left going]
      exact ih ahead
  | known going present _ ih =>
    obtain ⟨us, rfl⟩ := ahead.exists_cons going
    simp only [onToken, present]
    exact ih ahead.advance
  | stays rests =>
    rcases ahead.nil_or_cons with rfl | ⟨going, us, rfl⟩
    · rw [run_iterate_nil]
      exact .ok _ ahead
    · rw [run_iterate_stays (rests.resolve_left going)]
      exact .ok _ ahead
  | goes going present _ ih =>
    obtain ⟨us, rfl⟩ := ahead.exists_cons going
    rw [run_iterate_goes present]
    exact ih ahead.advance
  | last rests =>
    rcases ahead.nil_or_cons with rfl | ⟨going, us, rfl⟩
    · rw [run_many_nil]
      exact .ok _ ahead
    · rw [run_many_stops (rests.resolve_left going)]
      exact .ok _ ahead
  | more going more _ ih =>
    obtain ⟨us, rfl⟩ := ahead.exists_cons going
    rw [run_many_goes more]
    exact ih ahead

theorem clear {p : Parser α} {c : Cursor} {r : Except ParseError (α × Cursor)} (runs : RunsAt p c r)
    (before : c.Clear) : ∀ a c', r = .ok (a, c') → c'.tokens = c.tokens ∧ c'.Clear := by
  induction runs with
  | pure | peek | stays | last =>
    intro a c' done
    cases done
    exact ⟨rfl, before⟩
  | fail | failed =>
    intro a c' done
    cases done
  | skip c =>
    intro a c' done
    cases done
    exact ⟨c.advance_tokens, before.advance⟩
  | andThen _ _ first second =>
    obtain ⟨same, between⟩ := first before _ _ rfl
    rw [← same]
    exact second between
  | unknown _ _ ih => exact ih before
  | more _ _ _ ih => exact ih before
  | @known _ _ _ _ c _ _ _ _ ih | @goes _ _ _ _ c _ _ _ _ ih =>
    rw [← c.advance_tokens]
    exact ih before.advance

end RunsAt

def Completes (p : Parser α) : Prop :=
  ∀ c : Cursor, (∃ stop ts, c.Ahead stop ts) → ∃ r, RunsAt p c r

theorem runsAt_bind {p : Parser α} {f : α → Parser β} {c : Cursor} {stop : Token} {ts : List Token}
    (ahead : c.Ahead stop ts) (first : ∃ r, RunsAt p c r)
    (second : ∀ a c' rest, p.run stop ts = .ok (a, rest) → c'.Ahead stop rest → ∃ r, RunsAt (f a) c' r) :
    ∃ r, RunsAt (p >>= f) c r := by
  obtain ⟨r, runs⟩ := first
  have same := runs.agree ahead
  generalize read : p.run stop ts = r' at same
  cases same with
  | error e => exact ⟨_, .failed runs⟩
  | ok a ahead' =>
    obtain ⟨r, later⟩ := second a _ _ read ahead'
    exact ⟨r, .andThen runs later⟩

namespace Completes

theorem pure (a : α) : (Pure.pure a : Parser α).Completes := fun c _ => ⟨_, .pure a c⟩

theorem fail (complaint : Complaint) : (fail complaint : Parser α).Completes :=
  fun c _ => ⟨_, .fail complaint c⟩

theorem peek : peek.Completes := fun c _ => ⟨_, .peek c⟩

theorem skip : skip.Completes := fun c _ => ⟨_, .skip c⟩

theorem bind {p : Parser α} {f : α → Parser β} (first : p.Completes) (second : ∀ a, (f a).Completes) :
    (p >>= f).Completes := by
  rintro c ⟨stop, ts, ahead⟩
  apply runsAt_bind ahead (first c ⟨stop, ts, ahead⟩)
  intro a c' rest _ ahead'
  exact second a c' ⟨stop, rest, ahead'⟩

theorem onToken {known : Token → Option (Parser α)} {otherwise : Parser α}
    (next : ∀ t q, known t = some q → q.Completes) (other : otherwise.Completes) :
    (onToken known otherwise).Completes := by
  rintro c ⟨stop, ts, ahead⟩
  obtain ⟨r, runs⟩ := other c ⟨stop, ts, ahead⟩
  by_cases isEof : c.current.kind = .eof
  · exact ⟨r, .unknown (.inl isEof) runs⟩
  · cases found : known c.current with
    | none => exact ⟨r, .unknown (.inr found) runs⟩
    | some q =>
      obtain ⟨r, runs⟩ := next _ q found c.advance ⟨stop, ts.tail, ahead.advance⟩
      exact ⟨r, .known isEof found runs⟩

theorem iterate {step : σ → Token → Option (Parser σ)} (next : ∀ s t q, step s t = some q → q.Completes)
    (s : σ) : (iterate step s).Completes := by
  rintro c ⟨stop, ts, ahead⟩
  -- A round takes a token, so the rounds end before the end token.
  induction size : ts.length using Nat.strong_induction_on generalizing s c ts with
  | _ size ih =>
    subst size
    cases ts with
    | nil => exact ⟨_, .stays (.inl ahead.current_eof)⟩
    | cons t ts =>
      cases found : step s c.current with
      | none => exact ⟨_, .stays (.inr found)⟩
      | some q =>
        suffices rounds : ∃ r, RunsAt (q >>= Parser.iterate step) c.advance r by
          obtain ⟨r, runs⟩ := rounds
          exact ⟨r, .goes ahead.current_ne_eof found runs⟩
        apply runsAt_bind ahead.advance (next s _ q found c.advance ⟨stop, ts, ahead.advance⟩)
        intro s' c' rest read ahead'
        have shorter : rest.length ≤ ts.length := (q.suffix read).length_le
        exact ih rest.length (Nat.lt_succ_of_le shorter) s' c' rest ahead' rfl

theorem many {stops : Token → Bool} {item : Parser α} {strict : item.Strict} (each : item.Completes) :
    (many stops item @strict).Completes := by
  rintro c ⟨stop, ts, ahead⟩
  induction size : ts.length using Nat.strong_induction_on generalizing c ts with
  | _ size ih =>
    subst size
    cases ts with
    | nil => exact ⟨_, .last (.inl ahead.current_eof)⟩
    | cons t ts =>
      cases going : stops c.current with
      | true => exact ⟨_, .last (.inr going)⟩
      | false =>
        suffices rounds : ∃ r, RunsAt (item >>= fun a =>
            Parser.many stops item @strict >>= fun as => Pure.pure (a :: as)) c r by
          obtain ⟨r, runs⟩ := rounds
          exact ⟨r, .more ahead.current_ne_eof going runs⟩
        apply runsAt_bind ahead (each c ⟨stop, _, ahead⟩)
        intro a c' rest read ahead'
        apply runsAt_bind ahead' (ih rest.length (strict read) c' rest ahead' rfl)
        intro as c _ _ _
        exact ⟨_, .pure (a :: as) c⟩

end Completes

theorem hereditary_completes : Hereditary fun _ p => p.Completes where
  pure := .pure
  fail complaint _ := .fail complaint
  peek := .peek
  skip := .skip
  bind := .bind
  onToken := .onToken
  literal next _ := .onToken next (.bind .peek fun _ => .fail _)
  iterate := .iterate
  many := .many

end Parser

namespace Program

/-- A failure is that of a token which no end token stands before, and all streams that begin with the
tokens up to this one fail with it. A success is that of all streams that begin with the tokens up to
the first end token. A cursor on the whole stream comes to the same, and a success leaves it there. -/
theorem ofTokens_looks_no_further {tokens : List Token} (ended : Terminated tokens) :
    (∀ e, ofTokens tokens = .error e →
      ∃ known t, known ++ [t] <+: tokens ∧ (∀ u ∈ known, u.kind ≠ .eof) ∧
        e.found = t.text ∧ e.position = t.position ∧
        ∀ others, Terminated others → known ++ [t] <+: others → ofTokens others = .error e) ∧
    (∀ program, ofTokens tokens = .ok program →
      ∃ known stop, known ++ [stop] <+: tokens ∧ (∀ u ∈ known, u.kind ≠ .eof) ∧ stop.kind = .eof ∧
        ∀ others, Terminated others → known ++ [stop] <+: others → ofTokens others = .ok program) ∧
    (∃ r, Parser.program.RunsAt (.start ended) r) ∧
    ∀ r, Parser.program.RunsAt (.start ended) r → ofTokens tokens = Prod.fst <$> r ∧
      ∀ program c, r = .ok (program, c) →
        c.tokens = tokens ∧ c.current.kind = .eof ∧ ∀ t ∈ tokens.take c.position, t.kind ≠ .eof := by
  obtain ⟨stop, ts, ahead, read⟩ := Cursor.ahead_start ended
  refine ⟨fun _ => blamed_of_ofTokens ended, fun _ => stop_of_ofTokens ended,
    Parser.hereditary_completes.program _ ⟨stop, ts, ahead⟩, fun r runs => ?_⟩
  have same := runs.agree ahead
  refine ⟨read.trans same.fst_eq, ?_⟩
  rintro program c rfl
  obtain ⟨tokens_eq, clear⟩ := runs.clear (Cursor.clear_start ended) _ _ rfl
  refine ⟨tokens_eq, same.current_eof, ?_⟩
  change c.tokens = tokens at tokens_eq
  rw [← tokens_eq]
  exact clear

-- `1 = 2;`, an end token, and more behind it.
def assigned : List Token :=
  [⟨.number, "1", ⟨1, 1⟩⟩, ⟨.symbol .assign, "=", ⟨1, 3⟩⟩, ⟨.number, "2", ⟨1, 5⟩⟩,
    ⟨.symbol .semicolon, ";", ⟨1, 6⟩⟩, .eof ⟨1, 7⟩, ⟨.identifier, "x", ⟨2, 1⟩⟩, .eof ⟨2, 2⟩]

-- `break;`, an end token, and tokens behind it that no program begins with.
def broken : List Token :=
  [⟨.keyword .break_, "break", ⟨1, 1⟩⟩, ⟨.symbol .semicolon, ";", ⟨1, 6⟩⟩, .eof ⟨1, 7⟩,
    ⟨.symbol .closeBrace, "\x7d", ⟨2, 1⟩⟩, .eof ⟨2, 2⟩]

theorem ofTokens_looks_no_further_assigned :
    (Terminated assigned ∧ ofTokens assigned = .error ⟨.assignmentTarget, "=", ⟨1, 3⟩⟩ ∧
      ∃ known t, known ++ [t] <+: assigned ∧ (∀ u ∈ known, u.kind ≠ .eof) ∧
        "=" = t.text ∧ ⟨1, 3⟩ = t.position ∧
        ∀ others, Terminated others → known ++ [t] <+: others →
          ofTokens others = .error ⟨.assignmentTarget, "=", ⟨1, 3⟩⟩) ∧
    Terminated broken ∧ ofTokens broken = .ok [.breakLoop] ∧
      ∃ known stop, known ++ [stop] <+: broken ∧ (∀ u ∈ known, u.kind ≠ .eof) ∧ stop.kind = .eof ∧
        ∀ others, Terminated others → known ++ [stop] <+: others → ofTokens others = .ok [.breakLoop] := by
  have ended : Terminated assigned := ⟨.eof ⟨2, 2⟩, rfl, rfl⟩
  have failed : ofTokens assigned = .error ⟨.assignmentTarget, "=", ⟨1, 3⟩⟩ := by with_unfolding_all rfl
  have ended' : Terminated broken := ⟨.eof ⟨2, 2⟩, rfl, rfl⟩
  have accepted : ofTokens broken = .ok [.breakLoop] := by with_unfolding_all rfl
  exact ⟨⟨ended, failed, (ofTokens_looks_no_further ended).1 _ failed⟩,
    ended', accepted, (ofTokens_looks_no_further ended').2.1 _ accepted⟩

end Program

end ScriptCpp
