import Mathlib
import ScriptCpp.Binary64.Shortest
import ScriptCpp.Proofs.Binary64.Numeral
import ScriptCpp.Proofs.Binary64.Rounding

set_option autoImplicit false

namespace ScriptCpp

namespace Decimal

theorem zeros_isDigit (n : Nat) : ∀ c ∈ zeros n, c.isDigit = true := by
  intro c member
  rw [zeros, List.mem_replicate] at member
  rw [member.2]
  rfl

theorem toDigits_isDigit (n : Nat) : ∀ c ∈ Nat.toDigits 10 n, c.isDigit = true := by
  intro c member
  exact Nat.isDigit_of_mem_toDigits (by decide) (by decide) member

theorem digitsValue_zeros (n k : Nat) :
    Binary64.digitsValue (Nat.toDigits 10 n ++ zeros k) = 10 ^ k * n := by
  change Nat.ofDigitChars 10 _ 0 = _
  rw [Nat.ofDigitChars_append, Nat.ofDigitChars_ten_toDigits, zeros, Nat.ofDigitChars_replicate_zero]

theorem digitsValue_padded (n k : Nat) :
    Binary64.digitsValue (zeros k ++ Nat.toDigits 10 n) = n := by
  change Nat.ofDigitChars 10 _ 0 = _
  rw [Nat.ofDigitChars_append, zeros, Nat.ofDigitChars_replicate_zero, Nat.mul_zero,
    Nat.ofDigitChars_ten_toDigits]

theorem text_numeral (d : Decimal) : ∃ read, Numeral d.text.toList read ∧ read.value = d.value ∧
    ∀ c ∈ d.text.toList.getLast?, c.isDigit = true := by
  have last {cs : List Char} (digits : ∀ c ∈ cs, c.isDigit = true) :
      ∀ c ∈ cs.getLast?, c.isDigit = true := fun c found => digits c (List.mem_of_getLast? found)
  unfold text
  simp only
  split_ifs with whole
  · rw [String.toList_ofList]
    have digits : ∀ c ∈ Nat.toDigits 10 d.digits ++ zeros d.exponent.toNat, c.isDigit = true :=
      List.forall_mem_append.mpr ⟨toDigits_isDigit _, zeros_isDigit _⟩
    refine ⟨_, .whole (by simp [Nat.toDigits_ne_nil]) digits, ?_, last digits⟩
    obtain ⟨k, same⟩ := Int.eq_ofNat_of_zero_le whole
    simp only [value, ofParts, List.append_nil, digitsValue_zeros, same, Int.toNat_natCast,
      List.length_nil, Nat.cast_mul, Nat.cast_pow, zpow_natCast]
    norm_num [mul_comm]
  · rw [String.toList_ofList]
    generalize placed : (-d.exponent).toNat = places
    generalize filled : zeros (places + 1 - (Nat.toDigits 10 d.digits).length) ++
      Nat.toDigits 10 d.digits = padded
    have digits : ∀ c ∈ padded, c.isDigit = true := by
      rw [← filled]
      exact List.forall_mem_append.mpr ⟨zeros_isDigit _, toDigits_isDigit _⟩
    have long : places < padded.length := by
      rw [← filled, List.length_append, zeros, List.length_replicate]
      omega
    have behind : (padded.drop (padded.length - places)).length = places := by
      rw [List.length_drop]
      omega
    have decimals : ∀ c ∈ padded.drop (padded.length - places), c.isDigit = true :=
      fun c member => digits c (List.mem_of_mem_drop member)
    refine ⟨_, .point ?_ (fun c member => digits c (List.mem_of_mem_take member)) decimals, ?_, ?_⟩
    · rw [← List.length_pos_iff, List.length_take]
      omega
    · rw [value, ofParts, behind, List.take_append_drop, ← filled, digitsValue_padded, value]
      have exponent : -(places : ℤ) = d.exponent := by omega
      rw [exponent]
    · have some : padded.drop (padded.length - places) ≠ [] := by
        rw [← List.length_pos_iff, behind]
        omega
      rw [List.append_cons, List.getLast?_append_of_ne_nil _ some]
      exact last decimals

theorem text_chars (d : Decimal) :
    ∃ c cs, d.text.toList = c :: cs ∧ c.isDigit = true ∧ ∀ x ∈ cs, x.isDigit = true ∨ x = '.' := by
  obtain ⟨read, numeral, -⟩ := d.text_numeral
  exact numeral.cons

theorem trim_value (fuel : Nat) (d : Decimal) : (trim fuel d).value = d.value := by
  induction fuel generalizing d with
  | zero => rfl
  | succ fuel ih =>
    rw [trim]
    split_ifs with ends
    · rw [ih, value, value, zpow_add_one₀ (by norm_num)]
      simp only [Bool.and_eq_true, decide_eq_true_eq] at ends
      have exact : (d.digits : ℚ) = 10 * (d.digits / 10 : ℕ) := by
        exact_mod_cast (Nat.mul_div_cancel' (Nat.dvd_of_mod_eq_zero ends.1)).symm
      rw [exact]
      ring_nf
    · rfl

end Decimal

namespace Binary64

variable {m n d count : Nat} {e k : Int} {target : Binary64} {found : Decimal}

theorem neighbour?_reads (chosen : neighbour? target n d k count = some found) :
    ofDecimal false found = target := by
  unfold neighbour? at chosen
  simp only at chosen
  split at chosen
  · next below above =>
    cases chosen
    split_ifs
    · exact beq_iff_eq.mp below
    · exact beq_iff_eq.mp above
  · next below _ =>
    cases chosen
    exact beq_iff_eq.mp below
  · next _ above =>
    cases chosen
    exact beq_iff_eq.mp above
  · cases chosen

theorem exactDecimal_value : (exactDecimal m e).value = m * 2 ^ e := by
  unfold exactDecimal
  split_ifs with whole
  · lift e to ℕ using whole
    simp [Decimal.value]
  · obtain ⟨j, rfl⟩ : ∃ j : ℕ, e = -j := ⟨(-e).toNat, by omega⟩
    have split : (10 : ℚ) ^ j = 5 ^ j * 2 ^ j := by rw [← mul_pow]; norm_num
    simp only [Decimal.value, neg_neg, Int.toNat_natCast, Nat.pow_eq, Nat.cast_mul, Nat.cast_pow,
      zpow_neg, zpow_natCast, split, Nat.cast_ofNat]
    field_simp

theorem shortestFrom_reads (canonical : Canonical m e) (fuel count : Nat) :
    ofDecimal false (shortestFrom m e n d k fuel count) = .finite false m e := by
  induction fuel generalizing count with
  | zero => rw [shortestFrom, ofDecimal_eq_nearest, exactDecimal_value, canonical.nearest]
  | succ fuel ih =>
    rw [shortestFrom]
    cases chosen : neighbour? (.finite false m e) n d k count with
    | none => exact ih (count + 1)
    | some found => exact neighbour?_reads chosen

theorem shortest_reads (canonical : Canonical m e) :
    ofDecimal false (shortest m e) = .finite false m e := by
  unfold shortest
  split_ifs with none
  · have lowest : e = minExponent := canonical.full.resolve_left (by rw [none]; decide)
    rw [none, lowest]
    rfl
  · rw [ofDecimal_eq_nearest, Decimal.trim_value, ← ofDecimal_eq_nearest]
    exact shortestFrom_reads canonical 17 1

theorem Canonical.text_numeral (canonical : Canonical m e) :
    ∃ d, Numeral (text (.finite false m e)).toList d ∧ ofDecimal false d = .finite false m e ∧
      ∀ c ∈ (text (.finite false m e)).toList.getLast?, c.isDigit = true := by
  obtain ⟨d, numeral, same, last⟩ := (shortest m e).text_numeral
  have plain : text (.finite false m e) = (shortest m e).text := by
    simp [text]
  rw [plain]
  refine ⟨d, numeral, ?_, last⟩
  rw [ofDecimal_eq_nearest, same, ← ofDecimal_eq_nearest, shortest_reads canonical]

end Binary64

end ScriptCpp
