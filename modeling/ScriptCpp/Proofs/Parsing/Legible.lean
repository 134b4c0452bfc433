import Mathlib
import ScriptCpp.Proofs.Binary64.Numeral
import ScriptCpp.Proofs.Emission.History
import ScriptCpp.Proofs.OperatorGrouping

set_option autoImplicit false

namespace ScriptCpp

namespace Binary64

def Unsigned (value : Binary64) : Prop :=
  (∃ significand exponent, value = .finite false significand exponent) ∨ value = .infinite false

theorem ofRatio_unsigned (n d : Nat) : (ofRatio false n d).Unsigned := by
  unfold ofRatio
  split
  · exact .inl ⟨_, _, rfl⟩
  · dsimp only
    -- Rounding up may take one more bit.
    split <;> dsimp only <;> split
    all_goals first
      | exact .inr rfl
      | exact .inl ⟨_, _, rfl⟩

theorem ofDecimal_unsigned (d : Decimal) : (ofDecimal false d).Unsigned := by
  unfold ofDecimal
  split
  · exact .inl ⟨_, _, rfl⟩
  · split
    · exact .inr rfl
    · split
      · exact .inl ⟨_, _, rfl⟩
      · exact ofRatio_unsigned _ _

theorem ofText?_unsigned {text : String} {c : Char} {cs : List Char} {value : Binary64}
    (spelled : text.toList = c :: cs) (digit : c.isDigit = true) (read : ofText? text = some value) :
    value.Unsigned := by
  rw [ofText?_digit spelled digit] at read
  obtain ⟨d, -, rfl⟩ := Option.map_eq_some_iff.mp read
  exact ofDecimal_unsigned d

end Binary64

theorem Token.IsLexeme.isName {kind : Kind} {text raw : List Char} (lexeme : IsLexeme kind text raw)
    (word : kind = .identifier) : IsName (String.ofList text) := by
  cases lexeme with
  | string | whole | point | symbol => cases word
  | word start parts => exact ⟨_, _, String.toList_ofList, start, List.all_eq_true.mpr parts⟩

theorem Token.IsLexeme.digit_first {kind : Kind} {text raw : List Char} (lexeme : IsLexeme kind text raw)
    (number : kind = .number) : ∃ c cs, text = c :: cs ∧ c.isDigit = true := by
  cases lexeme with
  | string | symbol => cases number
  | word =>
    unfold Kind.ofWord at number
    split at number <;> cases number
  | whole some digits =>
    obtain ⟨c, cs, rfl⟩ := List.exists_cons_of_ne_nil some
    exact ⟨c, cs, rfl, digits c List.mem_cons_self⟩
  | point some digits _ =>
    obtain ⟨c, cs, rfl⟩ := List.exists_cons_of_ne_nil some
    exact ⟨c, _, rfl, digits c List.mem_cons_self⟩

instance (name : String) : Decidable (IsName name) :=
  match spelled : name.toList with
  | [] => .isFalse (by rintro ⟨c, cs, same, -⟩; cases spelled.symm.trans same)
  | c :: cs =>
    if h : Token.isNameStart c = true ∧ cs.all Token.isNamePart = true then
      .isTrue ⟨c, cs, spelled, h⟩
    else .isFalse (by
      rintro ⟨d, ds, same, named⟩
      cases spelled.symm.trans same
      exact h named)

theorem Keyword.isName {text : String} (known : (Keyword.ofText? text).isSome = true) : IsName text := by
  have all : ∀ row ∈ spellings, IsName row.1 := by decide +kernel
  obtain ⟨row, among, same⟩ := List.lookup_isSome_iff.mp known
  rw [beq_iff_eq.mp same]
  exact all row among

def Material.Legible : Material → Prop
  | .name text => IsName text
  | .numeral value => ∀ v ∈ value, v.Unsigned
  | .quoted _ | .operator _ => True

theorem Program.legible_of_ofText {text : String} {program : Program}
    (read : Program.ofText text = .ok program) : ∀ m ∈ Stmt.materialEach program, m.Legible := by
  obtain ⟨ts, lexed, keeps⟩ := keeps_of_ofText read
  have lexemes := Token.lexemes_of_ofText lexed
  intro m present
  cases m with
  | quoted | operator => trivial
  | name text =>
    rcases keeps.named text present with ⟨t, among, isName, rfl⟩ | keyword
    · obtain ⟨raw, lexeme⟩ := lexemes t among
      simpa [Material.Legible] using lexeme.isName isName
    · exact Keyword.isName keyword
  | numeral value =>
    obtain ⟨t, among, isNumber, rfl⟩ := Token.numeral_mem_materialFrom (keeps.subperm.subset present)
    obtain ⟨raw, lexeme⟩ := lexemes t among
    obtain ⟨c, cs, spelled, digit⟩ := lexeme.digit_first isNumber
    exact fun v read => Binary64.ofText?_unsigned spelled digit read

theorem Expr.Parsed.legible {e : Expr} (h : e.Parsed) : ∀ m ∈ e.material, m.Legible := by
  obtain ⟨text, program, read, inside⟩ := h.material
  exact fun m own => Program.legible_of_ofText read m (inside own)

-- A name is a word that starts like one, a number has no sign, and a string has no quote or newline
-- that is not escaped.
def Material.Proper (m : Material) : Prop := m.Fine ∧ m.Legible

def AllProper (ms : List Material) : Prop := ∀ m ∈ ms, m.Proper

theorem allProper_append {ms ns : List Material} : AllProper (ms ++ ns) ↔ AllProper ms ∧ AllProper ns :=
  List.forall_mem_append

theorem allProper_cons {m : Material} {ms : List Material} :
    AllProper (m :: ms) ↔ m.Proper ∧ AllProper ms :=
  List.forall_mem_cons

theorem AllProper.isName {params : List String} (proper : AllProper (params.map .name)) :
    ∀ p ∈ params, IsName p :=
  fun p present => (proper (.name p) (List.mem_map_of_mem present)).2

theorem Expr.Parsed.allProper {e : Expr} (h : e.Parsed) : AllProper e.material :=
  fun m own => ⟨h.allFine m own, h.legible m own⟩

end ScriptCpp
