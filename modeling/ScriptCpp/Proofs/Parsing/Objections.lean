import Mathlib
import ScriptCpp.Proofs.Parsing.Grammar
import ScriptCpp.Proofs.Parsing.Legible

set_option autoImplicit false

namespace ScriptCpp

def Token.Readable (ts : List Token) : Prop :=
  ∀ t ∈ ts, t.kind = .number → Binary64.ofText? t.text ≠ none

namespace Parser

variable {α β σ : Type}

def Plain (p : Parser α) : Prop :=
  ∀ (stop : Token) (ts : List Token) (e : ParseError), stop.kind ≠ .number → Token.Readable ts →
    p.run stop ts = .error e → e.complaint.isPlain = true

namespace Plain

variable {p : Parser α} {f : α → Parser β}

theorem pure (a : α) : (Pure.pure a : Parser α).Plain := by
  intro stop ts e _ _ failed
  cases failed

theorem fail {complaint : Complaint} (plain : complaint.isPlain = true) :
    (fail complaint : Parser α).Plain := by
  intro stop ts e _ _ failed
  cases failed
  exact plain

theorem peek : peek.Plain := by
  intro stop ts e _ _ failed
  cases failed

theorem skip : skip.Plain := by
  intro stop ts e _ _ failed
  cases failed

theorem bind (first : p.Plain) (second : ∀ a, (f a).Plain) : (p >>= f).Plain := by
  intro stop ts e ended readable failed
  rw [run_bind] at failed
  split at failed
  · next stopped =>
    cases failed
    exact first _ _ _ ended readable stopped
  · next a rest taken =>
    have later : Token.Readable rest := fun t present => readable t ((p.suffix taken).subset present)
    exact second a _ _ _ ended later failed

theorem onToken {known : Token → Option (Parser α)} {otherwise : Parser α}
    (next : ∀ t q, known t = some q → q.Plain) (other : otherwise.Plain) :
    (onToken known otherwise).Plain := by
  intro stop ts e ended readable failed
  cases ts with
  | nil => exact other _ _ _ ended readable failed
  | cons t ts =>
    cases found : known t with
    | none =>
      simp only [Parser.onToken, found] at failed
      exact other _ _ _ ended readable failed
    | some q =>
      simp only [Parser.onToken, found] at failed
      exact next t q found _ _ _ ended (List.forall_mem_cons.mp readable).2 failed

-- Here the complaint depends on the token, and a number that can be read was taken.
theorem literal {known : Token → Option (Parser Expr)} (next : ∀ t q, known t = some q → q.Plain)
    (taken : ∀ t, t.kind = .number → Binary64.ofText? t.text ≠ none → known t ≠ none) :
    (Parser.onToken known (Parser.peek >>= fun t =>
      Parser.fail (if t.kind = .number then .numeral else .unexpectedToken))).Plain := by
  intro stop ts e ended readable failed
  cases ts with
  | nil =>
    cases failed
    change (if stop.kind = .number then Complaint.numeral else .unexpectedToken).isPlain = true
    rw [if_neg ended]
    rfl
  | cons t ts =>
    obtain ⟨here, later⟩ := List.forall_mem_cons.mp readable
    cases found : known t with
    | none =>
      have other : t.kind ≠ .number := fun isNumber => taken t isNumber (here isNumber) found
      simp only [Parser.onToken, found] at failed
      cases failed
      change (if t.kind = .number then Complaint.numeral else .unexpectedToken).isPlain = true
      rw [if_neg other]
      rfl
    | some q =>
      simp only [Parser.onToken, found] at failed
      exact next t q found _ _ _ ended later failed

theorem iterate {step : σ → Token → Option (Parser σ)} (next : ∀ s t q, step s t = some q → q.Plain)
    (s : σ) : (iterate step s).Plain := by
  intro stop ts e ended readable failed
  change iterateFrom step s stop ts = _ at failed
  fun_induction iterateFrom step s stop ts with
  | case1 => cases failed
  | case2 => cases failed
  | case3 s t ts q known e' stopped =>
    cases failed
    exact next s t q known _ _ _ ended (List.forall_mem_cons.mp readable).2 stopped
  | case4 s t ts q known s' left taken ih =>
    refine ih (fun u present => readable u ?_) failed
    exact List.mem_cons_of_mem t ((q.suffix taken).subset present)

theorem many {stops : Token → Bool} {strict : p.Strict} (item : p.Plain) :
    (many stops p @strict).Plain := by
  intro stop ts e ended readable failed
  change manyFrom stops p @strict stop ts = _ at failed
  fun_induction manyFrom stops p @strict stop ts with
  | case1 => cases failed
  | case2 => cases failed
  | case3 t ts going e' stopped =>
    cases failed
    exact item _ _ _ ended readable stopped
  | case4 t ts going a left taken e' stopped ih =>
    cases failed
    exact ih (fun u present => readable u ((p.suffix taken).subset present)) stopped
  | case5 => cases failed

end Plain

theorem hereditary_plain : Hereditary fun _ p => p.Plain where
  pure := .pure
  fail _ plain := .fail plain
  peek := .peek
  skip := .skip
  bind := .bind
  onToken := .onToken
  literal := .literal
  iterate := .iterate
  many := .many

end Parser

theorem Token.readable_of_lexemes {ts : List Token}
    (lexemes : ∀ t ∈ ts, ∃ raw, IsLexeme t.kind t.text.toList raw) : Readable ts := by
  intro t present isNumber unread
  obtain ⟨raw, lexeme⟩ := lexemes t present
  rw [isNumber] at lexeme
  obtain ⟨d, numeral⟩ := lexeme.numeral
  cases unread.symm.trans numeral.ofText?

namespace Program

theorem isPlain_of_ofText {text : String} {e : ParseError} (failed : ofText text = .error (.grammar e)) :
    e.complaint.isPlain = true := by
  unfold ofText at failed
  cases lexed : Token.ofText text with
  | error cause =>
    rw [lexed] at failed
    cases failed
  | ok tokens =>
    obtain ⟨ts, rfl, lexemes⟩ := Token.ofText_lexemes lexed
    simp only [lexed, ofTokens_lexemes lexemes] at failed
    cases run : Parser.program.run (.eof (.behind text.toList)) ts with
    | ok result =>
      rw [run] at failed
      cases failed
    | error e' =>
      rw [run] at failed
      cases failed
      have ended : (Token.eof (.behind text.toList)).kind ≠ .number := Token.Kind.noConfusion
      exact Parser.hereditary_plain.program _ _ _ ended (Token.readable_of_lexemes lexemes) run

theorem message_of_isPlain {complaint : Complaint} (plain : complaint.isPlain = true) :
    complaint.message ∉
      ["Invalid numeric literal", "token stream is empty", "token stream must end with EOF"] := by
  cases complaint with
  | emptyStream | endMissing | numeral => cases plain
  | conditionOpen construct | conditionClose construct => cases construct <;> decide
  | blockOpen place | blockClose place => cases place <;> decide
  | _ => decide

/-- No text is refused for a number or for its stream of tokens, and the numbers of a text that is
accepted are neither negative nor NaN. -/
theorem ofText_objections (text : String) :
    (∀ e, ofText text = .error (.grammar e) → e.complaint.message ∉
      ["Invalid numeric literal", "token stream is empty", "token stream must end with EOF"]) ∧
    ∀ program, ofText text = .ok program → ∀ s ∈ program, ∀ value,
      (Phrase.stmt s).Holds (.expr (.number value)) → value.Unsigned := by
  refine ⟨fun e failed => message_of_isPlain (isPlain_of_ofText failed), ?_⟩
  intro program read s present value occurs
  have parsed : (Expr.number value).Parsed := ⟨text, program, read, s, present, occurs⟩
  exact parsed.legible (.numeral (some value)) (List.mem_singleton_self _) value rfl

theorem ofText_objections_mixed :
    ofText "x = -1.;" = .ok [.expr (.assign (.ident "x")
      (.negate (.number (.finite false (2 ^ 52) (-52)))))] ∧
    (Binary64.finite false (2 ^ 52) (-52)).Unsigned ∧
    ofText "1.2.3;" = .error (.grammar ⟨.propertyName, "3", ⟨1, 5⟩⟩) ∧
    Complaint.propertyName.message ∉
      ["Invalid numeric literal", "token stream is empty", "token stream must end with EOF"] := by
  have read : ofText "x = -1.;" = .ok [.expr (.assign (.ident "x")
      (.negate (.number (.finite false (2 ^ 52) (-52)))))] := by with_unfolding_all rfl
  have failed : ofText "1.2.3;" = .error (.grammar ⟨.propertyName, "3", ⟨1, 5⟩⟩) := by
    with_unfolding_all rfl
  refine ⟨read, ?_, failed, (ofText_objections "1.2.3;").1 _ failed⟩
  refine (ofText_objections "x = -1.;").2 _ read _ (List.mem_singleton_self _) _ ?_
  have assigned : (Phrase.stmt (.expr (.assign (.ident "x")
      (.negate (.number (.finite false (2 ^ 52) (-52))))))).Holds
        (.expr (.assign (.ident "x") (.negate (.number (.finite false (2 ^ 52) (-52)))))) :=
    .single (List.mem_singleton_self _)
  refine (assigned.tail (c := .expr (.negate (.number (.finite false (2 ^ 52) (-52))))) ?_).tail ?_
  · simp [Phrase.children, Expr.children]
  · exact List.mem_singleton_self _

end Program

end ScriptCpp
