import Mathlib
import ScriptCpp.Proofs.Binary64.Printing
import ScriptCpp.Proofs.Emission.Outcome
import ScriptCpp.Proofs.Lexing.Layout
import ScriptCpp.Proofs.Parsing.Source

set_option autoImplicit false

namespace ScriptCpp

namespace Numeral

variable {cs rest : List Char} {b : Char} {d : Decimal} {text : String}

theorem numeral_before (numeral : Numeral cs d) (digit : b.isDigit = false) (point : b ≠ '.') :
    Token.numeral (cs ++ b :: rest) = cs := by
  cases numeral with
  | whole some digits => exact Token.numeral_before digits digit point
  | point some digits decimals =>
    rw [List.append_assoc, List.cons_append, Token.numeral_point digits,
      Token.takeWhile_before decimals digit]

theorem lexed (numeral : Numeral text.toList d) : ∃ p q, Token.ofText (text ++ ";") =
    .ok ([⟨.number, text, .start⟩, ⟨.symbol .semicolon, ";", p⟩] ++ [.eof q]) := by
  obtain ⟨c, rest, spelled, digit, -⟩ := numeral.cons
  have stops : Token.numeral (c :: (rest ++ [';'])) = text.toList := by
    rw [← List.cons_append, ← spelled]
    exact numeral.numeral_before (by decide) (by decide)
  have shape : c :: (rest ++ [';']) = text.toList ++ [';'] := by rw [spelled, List.cons_append]
  have first : Token.piece c (rest ++ [';']) = .ok (.lexeme .number text.toList text.toList) := by
    rw [Token.piece_digit digit, stops]
  have second : Token.piece ';' [] = .ok (.lexeme (.symbol .semicolon) [';'] [';']) :=
    Token.piece_symbol (by decide) (by decide) (by decide)
  have semicolon (p : Position) :
      Token.scan p [';'] = .ok [⟨.symbol .semicolon, ";", p⟩, .eof (p.step ';')] := by
    rw [Token.scan_lexeme rfl second, Token.scan]
    rfl
  refine ⟨Position.start.after text.toList, (Position.start.after text.toList).step ';', ?_⟩
  rw [Token.ofText, String.toList_append, show ";".toList = [';'] from rfl, ← shape,
    Token.scan_lexeme shape first, semicolon, String.ofList_toList]
  rfl

theorem parsed (numeral : Numeral text.toList d) :
    Program.ofText (text ++ ";") = .ok [.expr (.number (.ofDecimal false d))] := by
  obtain ⟨p, q, lexed⟩ := numeral.lexed
  have regular : Stmt.RegularEach [.expr (.number (.ofDecimal false d))] := by
    simp [Stmt.RegularEach, Stmt.Regular, Expr.Regular]
  have shown : Parser.Shown (Stmt.bodyItems [.expr (.number (.ofDecimal false d))])
      [⟨.number, text, .start⟩, ⟨.symbol .semicolon, ";", p⟩] := by
    simp [Parser.Shown, Item.Shows, Stmt.bodyItems, Stmt.items, Expr.items, numeral.ofText?]
  have within : Stmt.nestingEach [.expr (.number (.ofDecimal false d))] ≤ Parser.maxNesting := by
    simp [Stmt.nestingEach, Stmt.nesting, Expr.nesting, Parser.maxNesting]
  have isEof : (Token.eof q).kind = .eof := rfl
  rw [Program.ofText, lexed]
  simp only [(Program.ofTokens_rendering regular shown isEof).1 within]
  rfl

theorem value_nonneg (d : Decimal) : 0 ≤ d.value :=
  mul_nonneg (Nat.cast_nonneg _) (zpow_nonneg (by norm_num) _)

theorem ne_inf (numeral : Numeral text.toList d) : text ≠ "inf" := by
  rintro rfl
  obtain ⟨c, rest, spelled, digit, -⟩ := numeral.cons
  cases spelled
  exact absurd digit (by decide)

end Numeral

namespace Emission

/-- Every number of a script is read as a value and emitted; what is emitted is again a numeral, with
no bare point at its end, and read as the same value, exactly if the number does not overflow. -/
theorem number_roundTrip {source : String} {tokens : List Token}
    (lexed : Token.ofText source = .ok tokens) {t : Token} (present : t ∈ tokens)
    (number : t.kind = .number) :
    ∃ d value out, Numeral t.text.toList d ∧
      Program.ofText (t.text ++ ";") = .ok [.expr (.number value)] ∧
      (∀ features depth, expr features depth (.number value) = .ok out) ∧
      (((∃ written, Numeral out.toList written) ∧ (∀ c ∈ out.toList.getLast?, c.isDigit = true) ∧
        Program.ofText (out ++ ";") = .ok [.expr (.number value)]) ↔ d.value < Binary64.overflow) ∧
      (Binary64.overflow ≤ d.value → out = "inf") := by
  obtain ⟨ts, rfl, lexemes⟩ := Token.ofText_lexemes lexed
  have among : t ∈ ts := by
    rcases List.mem_append.mp present with inside | ending
    · exact inside
    · rw [List.mem_singleton.mp ending] at number
      cases number
  obtain ⟨raw, lexeme⟩ := lexemes t among
  rw [number] at lexeme
  obtain ⟨d, numeral⟩ := lexeme.numeral
  refine ⟨d, .ofDecimal false d, _, numeral, numeral.parsed, fun _ _ => rfl, ?_⟩
  rw [Binary64.ofDecimal_eq_nearest]
  rcases Binary64.nearest_cases false (Numeral.value_nonneg d) with
    ⟨reached, infinite⟩ | ⟨below, m, e, canonical, finite⟩
  · rw [infinite]
    refine ⟨iff_of_false ?_ reached.not_gt, fun _ => rfl⟩
    rintro ⟨⟨written, spelled⟩, -⟩
    exact spelled.ne_inf rfl
  · rw [finite]
    obtain ⟨written, spelled, same, last⟩ := canonical.text_numeral
    refine ⟨iff_of_true ⟨⟨written, spelled⟩, last, ?_⟩ below, fun reached => ?_⟩
    · rw [spelled.parsed, same]
    · exact absurd below reached.not_gt

theorem number_roundTrip_trailingZero :
    Token.ofText "x = 0.10;" = .ok [⟨.identifier, "x", ⟨1, 1⟩⟩, ⟨.symbol .assign, "=", ⟨1, 3⟩⟩,
      ⟨.number, "0.10", ⟨1, 5⟩⟩, ⟨.symbol .semicolon, ";", ⟨1, 9⟩⟩, .eof ⟨1, 10⟩] ∧
    ∃ value out, Program.ofText "0.10;" = .ok [.expr (.number value)] ∧
      expr ⟨false, false⟩ 0 (.number value) = .ok out ∧
      Program.ofText (out ++ ";") = .ok [.expr (.number value)] := by
  have lexed : Token.ofText "x = 0.10;" = .ok [⟨.identifier, "x", ⟨1, 1⟩⟩,
      ⟨.symbol .assign, "=", ⟨1, 3⟩⟩, ⟨.number, "0.10", ⟨1, 5⟩⟩, ⟨.symbol .semicolon, ";", ⟨1, 9⟩⟩,
      .eof ⟨1, 10⟩] := by with_unfolding_all rfl
  obtain ⟨d, value, out, numeral, parsed, emitted, kept, -⟩ :=
    number_roundTrip lexed (t := ⟨.number, "0.10", ⟨1, 5⟩⟩) (by simp) rfl
  have read : some d = some ⟨10, -2⟩ := numeral.readDecimal?.symm.trans (by decide +kernel)
  cases read
  have small : Decimal.value ⟨10, -2⟩ < Binary64.overflow := by
    have finite : Binary64.ofDecimal false ⟨10, -2⟩ ≠ .infinite false := by decide +kernel
    rw [Binary64.ofDecimal_eq_nearest] at finite
    rcases Binary64.nearest_cases false (Numeral.value_nonneg ⟨10, -2⟩) with ⟨-, infinite⟩ | ⟨below, -⟩
    · exact absurd infinite finite
    · exact below
  exact ⟨lexed, value, out, parsed, emitted _ _, (kept.mpr small).2.2⟩

theorem overflow_emitted_as_word :
    Program.ofText (String.ofList ('1' :: Decimal.zeros 309) ++ ";") =
      .ok [.expr (.number (.infinite false))] ∧
    expr ⟨false, false⟩ 0 (.number (.infinite false)) = .ok "inf" ∧
    ¬ ∃ d, Numeral "inf".toList d := by
  have numeral : Numeral (String.ofList ('1' :: Decimal.zeros 309)).toList
      (.ofParts ('1' :: Decimal.zeros 309) []) := by
    rw [String.toList_ofList]
    exact .whole (List.cons_ne_nil _ _)
      (List.forall_mem_cons.mpr ⟨by decide, Decimal.zeros_isDigit 309⟩)
  have infinite : Binary64.ofDecimal false (.ofParts ('1' :: Decimal.zeros 309) []) =
      .infinite false := by decide +kernel
  refine ⟨?_, rfl, ?_⟩
  · rw [numeral.parsed, infinite]
  · rintro ⟨d, spelled⟩
    exact spelled.ne_inf rfl

end Emission

end ScriptCpp
