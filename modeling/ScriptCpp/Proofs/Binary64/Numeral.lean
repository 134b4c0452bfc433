import Mathlib
import ScriptCpp.Binary64.Numeral
import ScriptCpp.Proofs.Lexing.Lexeme

set_option autoImplicit false

namespace ScriptCpp

def Decimal.ofParts (whole fraction : List Char) : Decimal :=
  ⟨Binary64.digitsValue (whole ++ fraction), -fraction.length⟩

/-- How a numeral is written, and the decimal it stands for. -/
inductive Numeral : List Char → Decimal → Prop
  | whole {ds : List Char} (some : ds ≠ []) (digits : ∀ d ∈ ds, d.isDigit = true) :
      Numeral ds (.ofParts ds [])
  | point {ds es : List Char} (some : ds ≠ []) (digits : ∀ d ∈ ds, d.isDigit = true)
      (decimals : ∀ d ∈ es, d.isDigit = true) : Numeral (ds ++ '.' :: es) (.ofParts ds es)

namespace Binary64

variable {c : Char} {cs : List Char} {text : String}

theorem readSign_digit (digit : c.isDigit = true) : readSign (c :: cs) = (false, c :: cs) := by
  unfold readSign
  split
  · next same => cases same; cases digit
  · next same => cases same; cases digit
  · rfl

theorem toLower_isDigit (digit : c.isDigit = true) : c.toLower.isDigit = true := by
  have noUpper : c.isUpper = false := by
    simp only [Char.isDigit, Char.isUpper, Bool.and_eq_true, decide_eq_true_eq,
      decide_eq_false_iff_not] at digit ⊢
    rintro ⟨low, -⟩
    exact absurd (UInt32.le_trans low digit.2) (by decide)
  rw [Char.toLower_eq_of_not_isUpper] <;> simp [digit, noUpper]

-- A digit has no case, and none of the words for values starts with one.
theorem ofText?_digit (spelled : text.toList = c :: cs) (digit : c.isDigit = true) :
    ofText? text = (readDecimal? (c :: cs)).map (ofDecimal false) := by
  have noWord (d : Char) (ds : List Char) (letter : d.isDigit = false) :
      String.ofList ((c :: cs).map Char.toLower) ≠ String.ofList (d :: ds) := by
    intro same
    obtain ⟨rfl, -⟩ := List.cons.inj (String.ofList_injective same)
    cases letter.symm.trans (toLower_isDigit digit)
  simp only [ofText?, spelled, readSign_digit digit]
  rw [if_neg, if_neg (noWord 'n' ['a', 'n'] rfl)]
  simp only [Bool.or_eq_true, decide_eq_true_eq]
  rintro (word | word)
  · exact noWord 'i' ['n', 'f'] rfl word
  · exact noWord 'i' "nfinity".toList rfl word

end Binary64

namespace Numeral

variable {cs : List Char} {d : Decimal}

theorem cons (numeral : Numeral cs d) : ∃ c rest, cs = c :: rest ∧ c.isDigit = true ∧
    ∀ x ∈ rest, x.isDigit = true ∨ x = '.' := by
  cases numeral with
  | whole some digits =>
    obtain ⟨c, rest, rfl⟩ := List.exists_cons_of_ne_nil some
    obtain ⟨first, others⟩ := List.forall_mem_cons.mp digits
    exact ⟨c, rest, rfl, first, fun x member => .inl (others x member)⟩
  | @point ds es some digits decimals =>
    obtain ⟨c, rest, rfl⟩ := List.exists_cons_of_ne_nil some
    obtain ⟨first, others⟩ := List.forall_mem_cons.mp digits
    refine ⟨c, rest ++ '.' :: es, rfl, first, List.forall_mem_append.mpr ⟨?_, ?_⟩⟩
    · exact fun x member => .inl (others x member)
    · exact List.forall_mem_cons.mpr ⟨.inr rfl, fun x member => .inl (decimals x member)⟩

theorem readDecimal? (numeral : Numeral cs d) : Binary64.readDecimal? cs = some d := by
  cases numeral with
  | whole some digits =>
    have taken : cs.takeWhile Char.isDigit = cs := List.takeWhile_eq_self_iff.mpr digits
    have left : cs.dropWhile Char.isDigit = [] := List.dropWhile_eq_nil_iff.mpr digits
    simp [Binary64.readDecimal?, taken, left, some, Binary64.readExponent?, Decimal.ofParts]
  | @point ds es some digits decimals =>
    have point : Char.isDigit '.' = false := by decide
    have taken : (ds ++ '.' :: es).takeWhile Char.isDigit = ds := by
      simp [List.takeWhile_append_of_pos digits, point]
    have left : (ds ++ '.' :: es).dropWhile Char.isDigit = '.' :: es := by
      simp [List.dropWhile_append_of_pos digits, point]
    have takenBehind : es.takeWhile Char.isDigit = es := List.takeWhile_eq_self_iff.mpr decimals
    have leftBehind : es.dropWhile Char.isDigit = [] := List.dropWhile_eq_nil_iff.mpr decimals
    simp [Binary64.readDecimal?, taken, left, takenBehind, leftBehind, some, Binary64.readExponent?,
      Decimal.ofParts]

theorem ofText? {text : String} (numeral : Numeral text.toList d) :
    Binary64.ofText? text = some (.ofDecimal false d) := by
  obtain ⟨c, rest, spelled, digit, -⟩ := numeral.cons
  rw [Binary64.ofText?_digit spelled digit, ← spelled, numeral.readDecimal?, Option.map_some]

end Numeral

theorem Token.IsLexeme.numeral {text raw : List Char} (lexeme : IsLexeme .number text raw) :
    ∃ d, Numeral text d := by
  generalize kind : Kind.number = found at lexeme
  cases lexeme with
  | string | symbol => cases kind
  | word =>
    unfold Kind.ofWord at kind
    split at kind <;> cases kind
  | whole some digits => exact ⟨_, .whole some digits⟩
  | point some digits decimals => exact ⟨_, .point some digits decimals⟩

end ScriptCpp
