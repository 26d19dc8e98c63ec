import TabletopChat.Proofs.Decimal.Rounding
import Mathlib.Algebra.Order.Floor.Semifield
import Mathlib.Data.Rat.Floor

/-!
# Proofs/Decimal/Shortest — the digits that are written round back

The decimal that is written for a double lies in the interval of the double. The search for it ends
with seventeen digits at most, because then the decimals are denser than the doubles.

- `Scientific.value`  : a decimal as a rational number
- `digitsOf?_isSome`  : where decimals are dense there is one in the interval
- `shortest_holds`    : the decimal that is written rounds to the double
-/

namespace TabletopChat

namespace Decimal

variable {m : Magnitude}

/-! ## Decimals as numbers -/

def Scientific.value (s : Scientific) : ℚ := s.digits * 10 ^ s.exp

theorem Scientific.ratio_pos (s : Scientific) : 0 < s.ratio.2 := by
  unfold Scientific.ratio
  split
  · exact Nat.one_pos
  · exact Nat.pow_pos (by decide)

/-- The ratio of a decimal number is its value. -/
theorem Scientific.ratio_eq (s : Scientific) : (s.ratio.1 : ℚ) / s.ratio.2 = s.value := by
  unfold Scientific.ratio Scientific.value
  split
  · rename_i k hk
    simp [hk]
  · rename_i k hk
    simp [hk, zpow_negSucc, div_eq_mul_inv]

theorem holds_ratio_iff (hm : 0 < m.mant) (s : Scientific) :
    (Interval.around m).holds s.ratio.1 s.ratio.2 = true ↔ m.Holds s.value := by
  rw [holds_iff hm s.ratio_pos, s.ratio_eq]

/-- Removing zeros at the end of the digits does not change the number. -/
theorem Scientific.trim_value (fuel : ℕ) (s : Scientific) : (trim fuel s).value = s.value := by
  induction fuel generalizing s with
  | zero => rfl
  | succ fuel ih =>
    unfold trim
    split
    · rename_i h
      rw [ih, Scientific.value, Scientific.value, zpow_add_one₀ (by norm_num)]
      have hdigits : (s.digits : ℚ) = (s.digits / 10 : ℕ) * 10 := by
        exact_mod_cast (Nat.div_mul_cancel (Nat.dvd_of_mod_eq_zero h.1)).symm
      rw [hdigits]
      ring
    · rfl

/-! ## Candidates -/

/-- The middle of the interval around a double is the double. -/
theorem Interval.around_value (m : Magnitude) :
    ((Interval.around m).value : ℚ) / (Interval.around m).den = 4 * m.mant * m.quarter := by
  have hratio := Magnitude.ratio_eq ⟨1, m.exp - 2⟩
  change ((4 * m.mant * (⟨1, m.exp - 2⟩ : Magnitude).ratio.1 : ℕ) : ℚ) /
    (⟨1, m.exp - 2⟩ : Magnitude).ratio.2 = _
  push_cast
  rw [mul_div_assoc, hratio, Magnitude.quarter]
  push_cast
  ring

theorem Interval.around_den_pos (m : Magnitude) : 0 < (Interval.around m).den :=
  Magnitude.ratio_pos ⟨1, m.exp - 2⟩

def gridRatio (i : Interval) (exp : ℤ) : ℕ × ℕ :=
  match exp with
  | .ofNat k => (i.value, i.den * Nat.pow 10 k)
  | .negSucc k => (i.value * Nat.pow 10 (k + 1), i.den)

/-- The two neighbours on the grid, the value lies from the first to before the second. -/
def neighbours (i : Interval) (exp : ℤ) : Scientific × Scientific :=
  let k := (gridRatio i exp).1 / (gridRatio i exp).2
  (⟨k, exp⟩, ⟨k + 1, exp⟩)

/-- The digits that are tried: those just below the double and those just above it. -/
theorem digitsOf?_eq (i : Interval) (exp : ℤ) :
    digitsOf? i exp =
      let (below, above) := neighbours i exp
      match i.holds below.ratio.1 below.ratio.2 && below.digits != 0,
          i.holds above.ratio.1 above.ratio.2 with
      | true, true =>
        if i.distance below.ratio.1 below.ratio.2 < i.distance above.ratio.1 above.ratio.2 then
          some below
        else if i.distance above.ratio.1 above.ratio.2 < i.distance below.ratio.1 below.ratio.2 then
          some above
        else if below.digits % 2 = 0 then some below
        else some above
      | true, false => some below
      | false, true => some above
      | false, false => none := by
  cases exp <;> rfl

/-- Digits that are found have a value in the interval. -/
theorem digitsOf?_sound {i : Interval} {exp : ℤ} {s : Scientific} (h : digitsOf? i exp = some s) :
    s.digits ≠ 0 ∧ i.holds s.ratio.1 s.ratio.2 = true := by
  rw [digitsOf?_eq] at h
  have habove : (neighbours i exp).2.digits ≠ 0 := Nat.succ_ne_zero _
  simp only [] at h
  split at h
  · rename_i hbelow hholds
    simp only [Bool.and_eq_true, bne_iff_ne] at hbelow
    split_ifs at h <;> cases h
    · exact hbelow.symm
    · exact ⟨habove, hholds⟩
    · exact hbelow.symm
    · exact ⟨habove, hholds⟩
  · rename_i hbelow hholds
    simp only [Bool.and_eq_true, bne_iff_ne] at hbelow
    cases h
    exact hbelow.symm
  · rename_i hbelow hholds
    cases h
    exact ⟨habove, hholds⟩
  · cases h

/-- If the upper neighbour is in the interval, digits are found. -/
theorem digitsOf?_isSome {i : Interval} {exp : ℤ}
    (h : i.holds (neighbours i exp).2.ratio.1 (neighbours i exp).2.ratio.2 = true) :
    (digitsOf? i exp).isSome := by
  rw [digitsOf?_eq]
  simp only []
  rw [h]
  split <;> [skip; trivial; trivial; contradiction]
  split_ifs <;> rfl

theorem gridRatio_eq (i : Interval) (exp : ℤ) :
    ((gridRatio i exp).1 : ℚ) / (gridRatio i exp).2 = i.value / i.den / 10 ^ exp := by
  unfold gridRatio
  split
  · simp [div_div]
  · simp [zpow_negSucc, mul_div_right_comm]

/-- Where the grid is denser than doubles are, the next decimal is in the interval. -/
theorem digitsOf?_dense (hm : 0 < m.mant) {exp : ℤ} (h : (10 : ℚ) ^ exp < 2 * m.quarter) :
    (digitsOf? (Interval.around m) exp).isSome := by
  have hquarter := m.quarter_pos
  have hten : (0 : ℚ) < 10 ^ exp := by positivity
  have hgrid := gridRatio_eq (Interval.around m) exp
  rw [Interval.around_value] at hgrid
  apply digitsOf?_isSome
  rw [holds_ratio_iff hm]
  have hfloor : ⌊((gridRatio (Interval.around m) exp).1 : ℚ) / (gridRatio (Interval.around m) exp).2⌋₊ =
      (gridRatio (Interval.around m) exp).1 / (gridRatio (Interval.around m) exp).2 :=
    Nat.floor_div_eq_div _ _
  have hvalue : (neighbours (Interval.around m) exp).2.value =
      (⌊4 * m.mant * m.quarter / 10 ^ exp⌋₊ + 1) * 10 ^ exp := by
    rw [← hgrid, hfloor]
    simp [neighbours, Scientific.value]
  -- the next decimal is above the value, by one step of the grid at most
  have habove : 4 * m.mant * m.quarter < (neighbours (Interval.around m) exp).2.value := by
    rw [hvalue, ← div_lt_iff₀ hten]
    exact Nat.lt_floor_add_one _
  have hstep : (neighbours (Interval.around m) exp).2.value ≤ 4 * m.mant * m.quarter + 10 ^ exp := by
    have := Nat.floor_le (div_nonneg (by positivity) hten.le :
      0 ≤ 4 * (m.mant : ℚ) * m.quarter / 10 ^ exp)
    rw [le_div_iff₀ hten] at this
    rw [hvalue]
    linarith
  have hlow : (4 * m.mant - m.below) * m.quarter < (neighbours (Interval.around m) exp).2.value :=
    (mul_le_mul_of_nonneg_right (by simp) hquarter.le).trans_lt habove
  have hhigh : (neighbours (Interval.around m) exp).2.value < (4 * m.mant + 2) * m.quarter := by
    linarith
  exact ⟨hlow.le, hhigh.le, fun _ => ⟨hlow, hhigh⟩⟩

/-! ## The search -/

/-- The digits of a positive number tell its power of ten. -/
theorem ten_pow_length_le {n : ℕ} (hn : 0 < n) : 10 ^ ((Nat.toDigits 10 n).length - 1) ≤ n := by
  rcases Nat.eq_zero_or_pos ((Nat.toDigits 10 n).length - 1) with h | h
  · rw [h]
    exact hn
  · by_contra hlt
    have := (Nat.length_toDigits_le_iff (b := 10) (by decide) h).mpr (not_le.mp hlt)
    omega

/-- The leading exponent is not too large. -/
theorem ten_zpow_leadingExponent_le {num den : ℕ} (hnum : 0 < num) (hden : 0 < den) :
    (10 : ℚ) ^ leadingExponent num den ≤ (num : ℚ) / den := by
  have hdenq : (0 : ℚ) < den := by exact_mod_cast hden
  rw [le_div_iff₀ hdenq]
  unfold leadingExponent
  split
  -- the leading digit stands before the point, or behind some zeros
  · rename_i hle
    have hquotient : 0 < num / den := Nat.div_pos hle hden
    have hlength := List.length_pos_of_ne_nil (Nat.toDigits_ne_nil (n := num / den) (b := 10))
    have hexp : ((Nat.toDigits 10 (num / den)).length : ℤ) - 1 =
        ((Nat.toDigits 10 (num / den)).length - 1 : ℕ) := by omega
    have hnat : 10 ^ ((Nat.toDigits 10 (num / den)).length - 1) * den ≤ num :=
      (Nat.mul_le_mul_right den (ten_pow_length_le hquotient)).trans (Nat.div_mul_le_self num den)
    rw [hexp, zpow_natCast]
    exact_mod_cast hnat
  · rename_i hlt
    generalize hzeros : (Nat.toDigits 10 (den / num)).length = zeros
    have hnext : den < num * 10 ^ zeros := by
      have := lt_ten_pow_length (den / num)
      rw [hzeros, Nat.div_lt_iff_lt_mul hnum, Nat.mul_comm] at this
      exact this
    have hlead : ∀ lead : ℕ, den ≤ num * 10 ^ lead → (10 : ℚ) ^ (0 - (lead : ℤ)) * den ≤ num := by
      intro lead h
      rw [zero_sub, zpow_neg, zpow_natCast, inv_mul_le_iff₀ (by positivity), mul_comm]
      exact_mod_cast h
    apply hlead
    split_ifs with h
    · exact h
    · exact hnext.le

/-- The search for digits finds some if there are any for one of the exponents. -/
theorem searchDigits_found {i : Interval} (count : ℕ) (exp : ℤ) {j : ℕ} (hj : j < count)
    (h : (digitsOf? i (exp - j)).isSome) : ∃ e, digitsOf? i e = some (searchDigits i count exp) := by
  induction count generalizing exp j with
  | zero => omega
  | succ count ih =>
    unfold searchDigits
    split
    · rename_i s hs
      exact ⟨exp, hs⟩
    · rename_i hnone
      match j, hj, h with
      | 0, _, h => simp [hnone] at h
      | j + 1, hj, h =>
        have hexp : exp - 1 - j = exp - (j + 1 : ℕ) := by omega
        exact ih (exp - 1) (Nat.lt_of_succ_lt_succ hj) (by rwa [hexp])

/-- Removing zeros at the end leaves a number that is not zero. -/
theorem Scientific.trim_digits_pos (fuel : ℕ) {s : Scientific} (h : 0 < s.digits) :
    0 < (trim fuel s).digits := by
  induction fuel generalizing s with
  | zero => exact h
  | succ fuel ih =>
    unfold trim
    split
    · rename_i hzero
      have : 0 < s.digits / 10 := by omega
      exact ih this
    · exact h

/-- The decimal that is written rounds to the double. -/
theorem shortest_holds (hm : m.IsDouble) (hpos : 0 < m.mant) :
    m.Holds (shortest m).value ∧ 0 < (shortest m).digits := by
  have hquarter := m.quarter_pos
  have hmantLow : (1 : ℚ) ≤ m.mant := by exact_mod_cast hpos
  have hmantHigh : (m.mant : ℚ) + 1 ≤ 2 ^ 53 := by exact_mod_cast hm.mant_lt
  have hden := Interval.around_den_pos m
  have hvalue := Interval.around_value m
  have hnum : 0 < (Interval.around m).value := by
    rcases Nat.eq_zero_or_pos (Interval.around m).value with h | h
    · rw [h, Nat.cast_zero, zero_div] at hvalue
      have : 0 < 4 * (m.mant : ℚ) * m.quarter := by positivity
      exact absurd hvalue (ne_of_lt this)
    · exact h
  have hlead := ten_zpow_leadingExponent_le hnum hden
  unfold shortest
  simp only []
  generalize leadingExponent (Interval.around m).value (Interval.around m).den = lead at *
  rw [hvalue] at hlead
  -- seventeen digits behind the leading one are enough
  have hdense : (10 : ℚ) ^ (lead - (17 : ℕ)) < 2 * m.quarter := by
    have hsplit : (10 : ℚ) ^ lead = 10 ^ 17 * 10 ^ (lead - (17 : ℕ)) := by
      rw [← zpow_natCast, ← zpow_add₀ (by norm_num)]
      congr 1
      omega
    have : 4 * (m.mant : ℚ) * m.quarter ≤ 2 ^ 55 * m.quarter :=
      mul_le_mul_of_nonneg_right (by linarith) hquarter.le
    rw [hsplit] at hlead
    linarith
  obtain ⟨e, he⟩ := searchDigits_found (i := Interval.around m) 18 lead (by decide : 17 < 18)
    (digitsOf?_dense hpos hdense)
  obtain ⟨hdigits, hholds⟩ := digitsOf?_sound he
  rw [Scientific.trim_value]
  exact ⟨(holds_ratio_iff hpos _).mp hholds, Scientific.trim_digits_pos _ (Nat.pos_of_ne_zero hdigits)⟩

end Decimal

end TabletopChat
