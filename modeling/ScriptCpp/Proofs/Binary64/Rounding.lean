import Mathlib
import ScriptCpp.Binary64

set_option autoImplicit false

namespace ScriptCpp

def Decimal.value (d : Decimal) : ℚ := d.digits * 10 ^ d.exponent

namespace Binary64

variable {negative : Bool} {n d m k : ℕ} {e : ℤ} {q : ℚ}

def lastPlace (q : ℚ) : ℤ := max (Int.log 2 q - 52) minExponent

def nearestWhole (q : ℚ) : ℕ :=
  if 2 * Int.fract q < 1 then ⌊q⌋₊
  else if 1 < 2 * Int.fract q then ⌊q⌋₊ + 1
  else ⌊q⌋₊ + ⌊q⌋₊ % 2

def nearest (negative : Bool) (q : ℚ) : Binary64 :=
  if q = 0 then zero negative
  else
    let (m, e) :=
      if nearestWhole (q / 2 ^ lastPlace q) = 2 * hiddenBit then (hiddenBit, lastPlace q + 1)
      else (nearestWhole (q / 2 ^ lastPlace q), lastPlace q)
    if maxExponent < e then .infinite negative else .finite negative m e

/-- From here on values round to infinity: half a step above the largest. -/
def overflow : ℚ := 2 ^ 1024 - 2 ^ 970

structure Canonical (m : ℕ) (e : ℤ) : Prop where
  below : m < 2 * hiddenBit
  full : hiddenBit ≤ m ∨ e = minExponent
  low : minExponent ≤ e
  high : e ≤ maxExponent

theorem hiddenBit_eq : (hiddenBit : ℚ) = 2 ^ (52 : ℤ) := by
  norm_num [hiddenBit]

theorem nearestWhole_natCast (k : ℕ) : nearestWhole k = k := by
  simp [nearestWhole]

theorem le_nearestWhole (within : (k : ℚ) ≤ q) : k ≤ nearestWhole q := by
  have floored : k ≤ ⌊q⌋₊ := Nat.le_floor within
  unfold nearestWhole
  split_ifs <;> omega

theorem nearestWhole_le (nonneg : 0 ≤ q) (within : q ≤ k) : nearestWhole q ≤ k := by
  rcases within.eq_or_lt with rfl | less
  · exact (nearestWhole_natCast k).le
  · have floored : ⌊q⌋₊ < k := (Nat.floor_lt nonneg).mpr less
    unfold nearestWhole
    split_ifs <;> omega

theorem floor_add_fract (nonneg : 0 ≤ q) : (⌊q⌋₊ : ℚ) + Int.fract q = q := by
  rw [natCast_floor_eq_intCast_floor nonneg, Int.floor_add_fract]

-- Ties below an even number go up to it.
theorem even_le_nearestWhole_iff (nonneg : 0 ≤ q) (even : k % 2 = 0) :
    k ≤ nearestWhole q ↔ (k : ℚ) - 1 / 2 ≤ q := by
  have whole := floor_add_fract nonneg
  have fraction := Int.fract_nonneg q
  have small := Int.fract_lt_one q
  unfold nearestWhole
  generalize ⌊q⌋₊ = f at whole ⊢
  rcases lt_trichotomy k (f + 1) with less | same | more
  · have cast : (k : ℚ) ≤ f := by exact_mod_cast Nat.lt_succ_iff.mp less
    refine iff_of_true ?_ (by linarith)
    split_ifs <;> omega
  · have cast : (k : ℚ) = f + 1 := by exact_mod_cast same
    split_ifs with low high
    · exact iff_of_false (by omega) (by linarith)
    · exact iff_of_true (by omega) (by linarith)
    · exact iff_of_true (by omega) (by linarith)
  · have cast : (f : ℚ) + 2 ≤ k := by exact_mod_cast more
    refine iff_of_false ?_ (by linarith)
    split_ifs <;> omega

theorem nearestWhole_eq_zero (nonneg : 0 ≤ q) (small : q < 1 / 2) : nearestWhole q = 0 := by
  have floored : ⌊q⌋₊ = 0 := Nat.floor_eq_zero.mpr (by linarith)
  have whole := floor_add_fract nonneg
  rw [floored, Nat.cast_zero, zero_add] at whole
  rw [nearestWhole, whole, if_pos (by linarith), floored]

theorem roundHalfEven_eq (pos : 0 < d) : roundHalfEven n d = nearestWhole (n / d) := by
  have posCast : (0 : ℚ) < d := by exact_mod_cast pos
  have double : 2 * (((n % d : ℕ) : ℚ) / d) = ((2 * (n % d) : ℕ) : ℚ) / d := by
    push_cast
    ring
  rw [roundHalfEven, nearestWhole, Nat.floor_div_eq_div, Int.fract_div_natCast_eq_div_natCast_mod,
    double]
  simp only [div_lt_one posCast, one_lt_div posCast, Nat.cast_lt]

theorem scaled_value (base : ℕ) (pos : 0 < base) :
    ((scaled base n d e).1 : ℚ) / (scaled base n d e).2 = n / d / base ^ e := by
  have nonzero : (base : ℚ) ≠ 0 := by exact_mod_cast pos.ne'
  unfold scaled
  split_ifs with up
  · lift e to ℕ using up
    simp [div_div]
  · obtain ⟨j, rfl⟩ : ∃ j : ℕ, e = -j := ⟨(-e).toNat, by omega⟩
    simp only [neg_neg, Int.toNat_natCast, zpow_neg, zpow_natCast, div_inv_eq_mul, Nat.cast_mul,
      Nat.pow_eq, Nat.cast_pow]
    ring

theorem scaled_pos (base : ℕ) (posBase : 0 < base) (pos : 0 < d) : 0 < (scaled base n d e).2 := by
  unfold scaled
  split_ifs
  · exact Nat.mul_pos pos (Nat.pow_pos posBase)
  · exact pos

theorem log_bounds (posN : 0 < n) (posD : 0 < d) :
    (n.log2 : ℤ) - d.log2 - 1 ≤ Int.log 2 ((n : ℚ) / d) ∧
      Int.log 2 ((n : ℚ) / d) ≤ (n.log2 : ℤ) - d.log2 := by
  have castN : (0 : ℚ) < n := by exact_mod_cast posN
  have castD : (0 : ℚ) < d := by exact_mod_cast posD
  have lowN : (2 : ℚ) ^ n.log2 ≤ n := by exact_mod_cast Nat.log2_self_le posN.ne'
  have highN : (n : ℚ) < 2 ^ (n.log2 + 1) := by exact_mod_cast Nat.lt_log2_self
  have lowD : (2 : ℚ) ^ d.log2 ≤ d := by exact_mod_cast Nat.log2_self_le posD.ne'
  have highD : (d : ℚ) < 2 ^ (d.log2 + 1) := by exact_mod_cast Nat.lt_log2_self
  constructor
  · rw [← Int.zpow_le_iff_le_log (by decide) (div_pos castN castD), le_div_iff₀ castD]
    calc ((2 : ℕ) : ℚ) ^ ((n.log2 : ℤ) - d.log2 - 1) * d
        ≤ 2 ^ ((n.log2 : ℤ) - d.log2 - 1) * 2 ^ (d.log2 + 1) := by push_cast; gcongr
      _ = 2 ^ n.log2 := by
        rw [← zpow_natCast, ← zpow_add₀ two_ne_zero, ← zpow_natCast]
        congr 1
        push_cast
        ring
      _ ≤ n := lowN
  · rw [← Int.lt_add_one_iff, ← Int.lt_zpow_iff_log_lt (by decide) (div_pos castN castD),
      div_lt_iff₀ castD]
    calc (n : ℚ) < 2 ^ (n.log2 + 1) := highN
      _ = 2 ^ ((n.log2 : ℤ) - d.log2 + 1) * 2 ^ d.log2 := by
        rw [← zpow_natCast, ← zpow_natCast, ← zpow_add₀ two_ne_zero]
        congr 1
        push_cast
        ring
      _ ≤ ((2 : ℕ) : ℚ) ^ ((n.log2 : ℤ) - d.log2 + 1) * d := by push_cast; gcongr

theorem exponentOf_eq (posN : 0 < n) (posD : 0 < d) : exponentOf n d = lastPlace (n / d) := by
  obtain ⟨low, high⟩ := log_bounds posN posD
  have castN : (0 : ℚ) < n := by exact_mod_cast posN
  have castD : (0 : ℚ) < d := by exact_mod_cast posD
  unfold exponentOf lastPlace
  simp only
  generalize guessed : (n.log2 : ℤ) - d.log2 - 52 = guess
  have posB := scaled_pos (n := n) (e := guess) 2 (by decide) posD
  have castB : (0 : ℚ) < (scaled 2 n d guess).2 := by exact_mod_cast posB
  have test : (scaled 2 n d guess).1 / (scaled 2 n d guess).2 < hiddenBit ↔
      Int.log 2 ((n : ℚ) / d) < guess + 52 := by
    rw [← Int.lt_zpow_iff_log_lt (by decide) (div_pos castN castD), Nat.div_lt_iff_lt_mul posB,
      ← Nat.cast_lt (α := ℚ), Nat.cast_mul, ← div_lt_iff₀ castB, scaled_value 2 (by decide),
      div_lt_iff₀ (by positivity), hiddenBit_eq, Nat.cast_ofNat, ← zpow_add₀ two_ne_zero, add_comm]
  simp only [test]
  congr 1
  split_ifs <;> omega

theorem ofRatio_eq_nearest (pos : 0 < d) : ofRatio negative n d = nearest negative (n / d) := by
  have nonzero : (d : ℚ) ≠ 0 := by exact_mod_cast pos.ne'
  by_cases none : n = 0
  · simp [ofRatio, nearest, none]
  · have some : (n : ℚ) / d ≠ 0 := div_ne_zero (by exact_mod_cast none) nonzero
    have place := exponentOf_eq (Nat.pos_of_ne_zero none) pos
    have rounded : roundHalfEven (scaled 2 n d (lastPlace (n / d))).1
        (scaled 2 n d (lastPlace (n / d))).2 = nearestWhole (n / d / 2 ^ lastPlace (n / d)) := by
      rw [roundHalfEven_eq (scaled_pos 2 (by decide) pos), scaled_value 2 (by decide), Nat.cast_ofNat]
    simp only [ofRatio, nearest, if_neg none, if_neg some, place, rounded]

theorem Canonical.nearest (canonical : Canonical m e) :
    nearest negative (m * 2 ^ e) = .finite negative m e := by
  obtain ⟨below, full, low, high⟩ := canonical
  by_cases none : m = 0
  · have lowest : e = minExponent := full.resolve_left (by rw [none]; decide)
    simp [Binary64.nearest, none, lowest, zero]
  have pos : (0 : ℚ) < m := by exact_mod_cast Nat.pos_of_ne_zero none
  have power : (0 : ℚ) < 2 ^ e := by positivity
  have positive : 0 < (m : ℚ) * 2 ^ e := mul_pos pos power
  have castBelow : (m : ℚ) < 2 * 2 ^ (52 : ℤ) := by
    rw [← hiddenBit_eq]
    exact_mod_cast below
  have above : Int.log 2 ((m : ℚ) * 2 ^ e) < e + 53 := by
    rw [← Int.lt_zpow_iff_log_lt (by decide) positive, Nat.cast_ofNat, zpow_add₀ two_ne_zero, mul_comm]
    gcongr
    calc (m : ℚ) < 2 * 2 ^ (52 : ℤ) := castBelow
      _ = 2 ^ (53 : ℤ) := by norm_num
  have place : lastPlace (m * 2 ^ e) = e := by
    unfold lastPlace
    rcases full with normal | lowest
    · have castFull : (2 : ℚ) ^ (52 : ℤ) ≤ m := by
        rw [← hiddenBit_eq]
        exact_mod_cast normal
      have within : e + 52 ≤ Int.log 2 ((m : ℚ) * 2 ^ e) := by
        rw [← Int.zpow_le_iff_le_log (by decide) positive, Nat.cast_ofNat, zpow_add₀ two_ne_zero,
          mul_comm]
        gcongr
      omega
    · omega
  have exact : (m : ℚ) * 2 ^ e / 2 ^ e = m := mul_div_cancel_right₀ _ power.ne'
  simp only [Binary64.nearest, if_neg positive.ne', place, exact, nearestWhole_natCast, if_neg below.ne,
    if_neg high.not_gt]

theorem scaled_bounds (pos : 0 < q) : q / 2 ^ lastPlace q < 2 * hiddenBit ∧
    (hiddenBit ≤ q / 2 ^ lastPlace q ∨ lastPlace q = minExponent) := by
  have power : (0 : ℚ) < 2 ^ lastPlace q := by positivity
  have place : Int.log 2 q - 52 ≤ lastPlace q := le_max_left ..
  constructor
  · rw [div_lt_iff₀ power, hiddenBit_eq]
    calc q < ((2 : ℕ) : ℚ) ^ (Int.log 2 q + 1) := Int.lt_zpow_succ_log_self (by decide) q
      _ ≤ 2 ^ (53 + lastPlace q) := zpow_le_zpow_right₀ (by norm_num) (by omega)
      _ = 2 * 2 ^ (52 : ℤ) * 2 ^ lastPlace q := by
        rw [zpow_add₀ two_ne_zero]
        norm_num
  · rcases max_choice (Int.log 2 q - 52) minExponent with normal | lowest
    · left
      have placed : lastPlace q = Int.log 2 q - 52 := normal
      rw [le_div_iff₀ power, hiddenBit_eq, ← zpow_add₀ two_ne_zero, placed, add_sub_cancel]
      exact_mod_cast Int.zpow_log_le_self (by decide) pos
    · exact .inr lowest

theorem overflow_eq : overflow = (2 * hiddenBit - 1 / 2) * 2 ^ maxExponent := by
  have largest : (2 : ℚ) ^ maxExponent = 2 ^ 970 * 2 := pow_succ (2 : ℚ) 970
  have above : (2 : ℚ) ^ 1024 = 2 ^ 970 * 2 ^ 54 := pow_add (2 : ℚ) 970 54
  have bit : (hiddenBit : ℚ) = 2 ^ 52 := hiddenBit_eq
  rw [overflow, largest, above, bit]
  generalize (2 : ℚ) ^ 970 = power
  ring

theorem overflow_le_iff (pos : 0 < q) : overflow ≤ q ↔ maxExponent < lastPlace q ∨
    lastPlace q = maxExponent ∧ 2 * hiddenBit ≤ nearestWhole (q / 2 ^ lastPlace q) := by
  obtain ⟨below, full⟩ := scaled_bounds pos
  have power : (0 : ℚ) < 2 ^ lastPlace q := by positivity
  have largest : (0 : ℚ) < 2 ^ maxExponent := zpow_pos two_pos _
  have bit : (1 : ℚ) ≤ hiddenBit := by exact_mod_cast Nat.one_le_two_pow
  rw [overflow_eq]
  rcases lt_trichotomy (lastPlace q) maxExponent with less | same | more
  · refine iff_of_false (not_le.mpr ?_) (by omega)
    rw [div_lt_iff₀ power] at below
    calc q < 2 * hiddenBit * 2 ^ lastPlace q := below
      _ ≤ 2 * hiddenBit * 2 ^ (maxExponent - 1) :=
        mul_le_mul_of_nonneg_left (zpow_le_zpow_right₀ one_le_two (by omega)) (by linarith)
      _ = hiddenBit * 2 ^ maxExponent := by
        rw [zpow_sub_one₀ two_ne_zero]
        ring
      _ ≤ (2 * hiddenBit - 1 / 2) * 2 ^ maxExponent :=
        mul_le_mul_of_nonneg_right (by linarith) largest.le
  · have even : 2 * hiddenBit % 2 = 0 := Nat.mul_mod_right 2 hiddenBit
    rw [even_le_nearestWhole_iff (by positivity) even, same, le_div_iff₀ largest]
    simp
  · refine iff_of_true ?_ (.inl more)
    have normal := full.resolve_right (by rw [maxExponent] at more; rw [minExponent]; omega)
    rw [le_div_iff₀ power] at normal
    calc (2 * hiddenBit - 1 / 2 : ℚ) * 2 ^ maxExponent ≤ 2 * hiddenBit * 2 ^ maxExponent :=
          mul_le_mul_of_nonneg_right (by linarith) largest.le
      _ = hiddenBit * 2 ^ (maxExponent + 1) := by
        rw [zpow_add_one₀ two_ne_zero]
        ring
      _ ≤ hiddenBit * 2 ^ lastPlace q :=
        mul_le_mul_of_nonneg_left (zpow_le_zpow_right₀ one_le_two more) (by linarith)
      _ ≤ q := normal

theorem nearest_cases (negative : Bool) (nonneg : 0 ≤ q) :
    overflow ≤ q ∧ nearest negative q = .infinite negative ∨
      q < overflow ∧ ∃ m e, Canonical m e ∧ nearest negative q = .finite negative m e := by
  rcases nonneg.eq_or_lt with rfl | pos
  · refine .inr ⟨?_, 0, minExponent, ⟨by decide, .inr rfl, le_rfl, by decide⟩, by simp [nearest, zero]⟩
    exact sub_pos.mpr (pow_lt_pow_right₀ (by norm_num) (by norm_num))
  obtain ⟨below, full⟩ := scaled_bounds pos
  have decides := overflow_le_iff pos
  have low : minExponent ≤ lastPlace q := le_max_right ..
  have rounded : nearestWhole (q / 2 ^ lastPlace q) ≤ 2 * hiddenBit :=
    nearestWhole_le (by positivity) (by exact_mod_cast below.le)
  have normal : hiddenBit ≤ nearestWhole (q / 2 ^ lastPlace q) ∨ lastPlace q = minExponent :=
    full.imp_left le_nearestWhole
  unfold nearest
  rw [if_neg pos.ne']
  generalize nearestWhole (q / 2 ^ lastPlace q) = m at decides rounded normal ⊢
  generalize lastPlace q = e at decides low normal ⊢
  -- Rounding up can give one bit too many; the significand is halved then.
  by_cases carry : m = 2 * hiddenBit
  · simp only [if_pos carry]
    by_cases large : maxExponent < e + 1
    · exact .inl ⟨decides.mpr (by omega), if_pos large⟩
    · refine .inr ⟨not_le.mp fun beyond => ?_, hiddenBit, e + 1, ?_, if_neg large⟩
      · have := decides.mp beyond
        omega
      · exact ⟨by decide, .inl le_rfl, by omega, by omega⟩
  · simp only [if_neg carry]
    by_cases large : maxExponent < e
    · exact .inl ⟨decides.mpr (.inl large), if_pos large⟩
    · refine .inr ⟨not_le.mp fun beyond => ?_, m, e, ?_, if_neg large⟩
      · have := decides.mp beyond
        omega
      · exact ⟨by omega, normal, low, by omega⟩

theorem lt_pow_digitCount (n : ℕ) : n < 10 ^ digitCount n :=
  (Nat.length_toDigits_le_iff (by decide) Nat.length_toDigits_pos).mp le_rfl

theorem pow_digitCount_le (pos : 0 < n) : 10 ^ (digitCount n - 1) ≤ n := by
  by_contra less
  have short : 1 < digitCount n := by
    by_contra single
    rw [show digitCount n - 1 = 0 by omega] at less
    omega
  have := (Nat.length_toDigits_le_iff (by decide) (by omega)).mpr (not_le.mp less)
  unfold digitCount at this short
  omega

theorem digitCount_bounds (pos : 0 < n) (e : ℤ) :
    (10 : ℚ) ^ (digitCount n + e - 1) ≤ n * 10 ^ e ∧ n * 10 ^ e < (10 : ℚ) ^ (digitCount n + e) := by
  have low : (10 : ℚ) ^ (digitCount n - 1) ≤ n := by exact_mod_cast pow_digitCount_le pos
  have high : (n : ℚ) < 10 ^ digitCount n := by exact_mod_cast lt_pow_digitCount n
  have some : 1 ≤ digitCount n := Nat.length_toDigits_pos
  have power : (0 : ℚ) < 10 ^ e := by positivity
  constructor
  · calc (10 : ℚ) ^ (digitCount n + e - 1) = 10 ^ (digitCount n - 1) * 10 ^ e := by
          rw [← zpow_natCast, ← zpow_add₀ (by norm_num), Nat.cast_sub some]
          congr 1
          push_cast
          ring
      _ ≤ n * 10 ^ e := mul_le_mul_of_nonneg_right low power.le
  · calc (n : ℚ) * 10 ^ e < 10 ^ digitCount n * 10 ^ e := mul_lt_mul_of_pos_right high power
      _ = 10 ^ (digitCount n + e) := by rw [zpow_add₀ (by norm_num), zpow_natCast]

theorem two_pow_le_ten_pow : (2 : ℚ) ^ 1200 ≤ 10 ^ 400 :=
  calc (2 : ℚ) ^ (3 * 400) = (2 ^ 3) ^ 400 := pow_mul ..
    _ ≤ 10 ^ 400 := pow_le_pow_left₀ (by norm_num) (by norm_num) 400

theorem overflow_le_ten_pow : overflow ≤ 10 ^ (400 : ℤ) :=
  calc overflow ≤ 2 ^ 1024 := sub_le_self _ (pow_nonneg zero_le_two _)
    _ ≤ (2 : ℚ) ^ 1200 := pow_le_pow_right₀ one_le_two (by norm_num)
    _ ≤ 10 ^ (400 : ℤ) := two_pow_le_ten_pow

theorem ten_pow_le_tiny : (10 : ℚ) ^ (-400 : ℤ) ≤ 2 ^ (minExponent - 1) :=
  calc (10 : ℚ) ^ (-400 : ℤ) = (10 ^ 400)⁻¹ := zpow_neg _ _
    _ ≤ (2 ^ 1200)⁻¹ := inv_anti₀ (pow_pos two_pos _) two_pow_le_ten_pow
    _ ≤ (2 ^ 1075)⁻¹ := inv_anti₀ (pow_pos two_pos _) (pow_le_pow_right₀ one_le_two (by norm_num))
    _ = 2 ^ (minExponent - 1) := (zpow_neg (2 : ℚ) 1075).symm

theorem nearest_tiny (pos : 0 < q) (tiny : q < 2 ^ (minExponent - 1)) :
    nearest negative q = zero negative := by
  have short : Int.log 2 q < minExponent - 1 := by
    rw [← Int.lt_zpow_iff_log_lt (by decide) pos]
    exact_mod_cast tiny
  have place : lastPlace q = minExponent := max_eq_right (by omega)
  have half : q / 2 ^ minExponent < 1 / 2 := by
    rw [div_lt_iff₀ (zpow_pos two_pos _)]
    calc q < 2 ^ (minExponent - 1) := tiny
      _ = 1 / 2 * 2 ^ minExponent := by
        rw [zpow_sub_one₀ two_ne_zero]
        ring
  have rounded : nearestWhole (q / 2 ^ minExponent) = 0 :=
    nearestWhole_eq_zero (div_nonneg pos.le (zpow_nonneg zero_le_two _)) half
  simp only [nearest, if_neg pos.ne', place, rounded]
  rfl

theorem ofDecimal_eq_nearest (negative : Bool) (d : Decimal) :
    ofDecimal negative d = nearest negative d.value := by
  by_cases none : d.digits = 0
  · simp [ofDecimal, Decimal.value, nearest, none]
  obtain ⟨low, high⟩ := digitCount_bounds (Nat.pos_of_ne_zero none) d.exponent
  have pos : 0 < d.value :=
    mul_pos (by exact_mod_cast Nat.pos_of_ne_zero none) (zpow_pos (by norm_num) _)
  unfold ofDecimal
  rw [if_neg none]
  -- The two shortcuts by the number of digits answer what rounding would.
  split_ifs with large small
  · have reached : overflow ≤ d.value := by
      calc overflow ≤ 10 ^ (400 : ℤ) := overflow_le_ten_pow
        _ ≤ 10 ^ (digitCount d.digits + d.exponent - 1) :=
          zpow_le_zpow_right₀ (by norm_num) (by omega)
        _ ≤ d.value := low
    rcases nearest_cases negative pos.le with ⟨-, infinite⟩ | ⟨less, -⟩
    · exact infinite.symm
    · exact absurd less reached.not_gt
  · refine (nearest_tiny pos ?_).symm
    calc d.value < 10 ^ (digitCount d.digits + d.exponent) := high
      _ ≤ (10 : ℚ) ^ (-400 : ℤ) := zpow_le_zpow_right₀ (by norm_num) small.le
      _ ≤ 2 ^ (minExponent - 1) := ten_pow_le_tiny
  · have exact : ((scaled 10 d.digits 1 (-d.exponent)).1 : ℚ) / (scaled 10 d.digits 1 (-d.exponent)).2 =
        d.value := by
      rw [scaled_value 10 (by decide), Decimal.value, Nat.cast_one, div_one, zpow_neg, div_inv_eq_mul,
        Nat.cast_ofNat]
    simp only [ofRatio_eq_nearest (scaled_pos 10 (by decide) one_pos), exact]

end Binary64

end ScriptCpp
