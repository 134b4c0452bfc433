import Mathlib
import ScriptCpp.Program
import ScriptCpp.Proofs.Lexing.Partition
import ScriptCpp.Proofs.Parsing.RoundTrip

set_option autoImplicit false

namespace ScriptCpp

theorem Token.ofText_lexemes {text : String} {tokens : List Token}
    (read : Token.ofText text = .ok tokens) :
    ∃ ts, tokens = ts ++ [eof (.behind text.toList)] ∧
      ∀ t ∈ ts, ∃ raw, IsLexeme t.kind t.text.toList raw := by
  have start : Position.start = .behind [] := rfl
  obtain ⟨parts, last, -, laid, rfl⟩ := scan_laid read start
  refine ⟨parts.map Part.token, rfl, fun t present => ?_⟩
  obtain ⟨part, among, rfl⟩ := List.mem_map.mp present
  obtain ⟨left, right, split⟩ := List.append_of_mem among
  exact ⟨part.raw, ((laid_split laid).2 left part right split).lexeme⟩

theorem Token.lexemes_of_ofText {text : String} {ts : List Token} {p : Position}
    (read : Token.ofText text = .ok (ts ++ [eof p])) :
    ∀ t ∈ ts, ∃ raw, IsLexeme t.kind t.text.toList raw := by
  obtain ⟨found, same, lexemes⟩ := ofText_lexemes read
  obtain ⟨rfl, -⟩ := List.append_inj' same rfl
  exact lexemes

theorem Parser.program_rest {stop : Token} {ts rest : List Token} {program : Program}
    (read : Parser.program.run stop ts = .ok (program, rest)) : rest = [] := by
  change manyFrom (fun _ => false) _ _ stop ts = _ at read
  fun_induction manyFrom (fun _ => false) (nested maxNesting).statement (nested maxNesting).strict stop ts
    generalizing program rest with
  | case1 =>
    cases read
    rfl
  | case2 _ _ stopped => cases stopped
  | case3 => cases read
  | case4 => cases read
  | case5 _ _ _ _ _ _ _ _ more ih =>
    cases read
    exact ih more

theorem Program.ofTokens_lexemes {ts : List Token} {p : Position}
    (lexemes : ∀ t ∈ ts, ∃ raw, Token.IsLexeme t.kind t.text.toList raw) :
    Program.ofTokens (ts ++ [.eof p]) = Prod.fst <$> Parser.program.run (.eof p) ts := by
  refine ofTokens_before_eof (fun t present => ?_) rfl
  obtain ⟨raw, lexeme⟩ := lexemes t present
  exact lexeme.ne_eof

theorem Program.ofText_eq_ok_iff {text : String} {program : Program} :
    Program.ofText text = .ok program ↔
      ∃ ts, Token.ofText text = .ok (ts ++ [.eof (.behind text.toList)]) ∧
        Parser.program.run (.eof (.behind text.toList)) ts = .ok (program, []) := by
  unfold Program.ofText
  cases read : Token.ofText text with
  | error e => simp
  | ok tokens =>
    obtain ⟨ts, rfl, lexemes⟩ := Token.ofText_lexemes read
    simp only [ofTokens_lexemes lexemes, Except.ok.injEq, List.append_left_inj, exists_eq_left']
    cases run : Parser.program.run (.eof (.behind text.toList)) ts with
    | error e => simp [Except.mapError]
    | ok result =>
      obtain ⟨found, rest⟩ := result
      obtain rfl := Parser.program_rest run
      simp [Except.mapError]

end ScriptCpp
