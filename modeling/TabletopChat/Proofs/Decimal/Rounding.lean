import TabletopChat.Decimal.Shortest
import TabletopChat.Proofs.Decimal.Bits
import Mathlib.Algebra.Order.Field.Power
import Mathlib.Data.Rat.Cast.Order
import Mathlib.Tactic.FieldSimp
import Mathlib.Tactic.Linarith
import Mathlib.Tactic.Positivity
import Mathlib.Tactic.SplitIfs

/-!
# Proofs/Decimal/Rounding — what rounds to a double

Every double stands for an interval of rational numbers. All numbers in the interval are rounded to
that double, whatever quotient or decimal they are given as.

- `Magnitude.Holds`  : the interval, as a set of rational numbers
- `holds_iff`        : the interval over a common denominator is the same one
- `ofRatio_eq`, `ofScientific_eq` : rounding
-/

namespace TabletopChat

namespace Decimal

/-! ## Intervals -/

def Magnitude.quarter (m : Magnitude) : ℚ := 2 ^ (m.exp - 2)

def Magnitude.below (m : Magnitude) : ℕ := if m.mant = 2 ^ 52 ∧ m.exp > -1074 then 1 else 2

/-- Whether a number rounds to a magnitude. -/
def Magnitude.Holds (m : Magnitude) (q : ℚ) : Prop :=
  (4 * m.mant - m.below) * m.quarter ≤ q ∧ q ≤ (4 * m.mant + 2) * m.quarter ∧
    (m.mant % 2 = 1 → (4 * m.mant - m.below) * m.quarter < q ∧ q < (4 * m.mant + 2) * m.quarter)

theorem Magnitude.quarter_pos (m : Magnitude) : 0 < m.quarter := by
  unfold Magnitude.quarter
  positivity

theorem Magnitude.ratio_pos (m : Magnitude) : 0 < m.ratio.2 := by
  unfold Magnitude.ratio
  split
  · exact Nat.one_pos
  · exact Nat.pow_pos (by decide)

/-- A magnitude as a quotient of integers. -/
theorem Magnitude.ratio_eq (m : Magnitude) : (m.ratio.1 : ℚ) / m.ratio.2 = m.mant * 2 ^ m.exp := by
  unfold Magnitude.ratio
  split
  · rename_i k hk
    simp [hk]
  · rename_i k hk
    simp [hk, zpow_negSucc, div_eq_mul_inv]

theorem Magnitude.below_le (m : Magnitude) : m.below ≤ 2 := by
  unfold Magnitude.below
  split <;> omega

section Comparing

variable {a r s n d : ℕ} {x : ℚ} (hs : 0 < s) (hd : 0 < d) (hx : (r : ℚ) / s = x)

include hs hd hx

theorem mul_le_mul_iff_le_div : a * r * d ≤ n * s ↔ (a : ℚ) * x ≤ (n : ℚ) / d := by
  have hs : (0 : ℚ) < s := by exact_mod_cast hs
  have hd : (0 : ℚ) < d := by exact_mod_cast hd
  rw [← hx, mul_div_assoc', div_le_div_iff₀ hs hd]
  exact_mod_cast Iff.rfl

theorem mul_le_mul_iff_div_le : n * s ≤ a * r * d ↔ (n : ℚ) / d ≤ (a : ℚ) * x := by
  have hs : (0 : ℚ) < s := by exact_mod_cast hs
  have hd : (0 : ℚ) < d := by exact_mod_cast hd
  rw [← hx, mul_div_assoc', div_le_div_iff₀ hd hs]
  exact_mod_cast Iff.rfl

end Comparing

/-- The interval around a magnitude holds what rounds to it. -/
theorem holds_iff {m : Magnitude} (hm : 0 < m.mant) {num den : ℕ} (hden : 0 < den) :
    (Interval.around m).holds num den = true ↔ m.Holds ((num : ℚ) / den) := by
  have hratio := Magnitude.ratio_eq ⟨1, m.exp - 2⟩
  have hpos := Magnitude.ratio_pos ⟨1, m.exp - 2⟩
  generalize hone : (⟨1, m.exp - 2⟩ : Magnitude).ratio = r at hratio hpos
  -- both bounds are compared as products of integers, in quarters of a unit of the last place
  have hdef : (Interval.around m).holds num den =
      if m.mant % 2 == 0 then
        decide ((4 * m.mant - m.below) * r.1 * den ≤ num * r.2) &&
          decide (num * r.2 ≤ (4 * m.mant + 2) * r.1 * den)
      else
        decide ((4 * m.mant - m.below) * r.1 * den < num * r.2) &&
          decide (num * r.2 < (4 * m.mant + 2) * r.1 * den) := by
    rw [← hone]
    rfl
  have hquarter : (r.1 : ℚ) / r.2 = m.quarter := by
    rw [hratio, Magnitude.quarter, Nat.cast_one, one_mul]
  have hbelow : ((4 * m.mant - m.below : ℕ) : ℚ) = 4 * m.mant - m.below := by
    have := m.below_le
    push_cast [show m.below ≤ 4 * m.mant by omega]
    rfl
  have habove : ((4 * m.mant + 2 : ℕ) : ℚ) = 4 * m.mant + 2 := by
    push_cast
    rfl
  rw [hdef, Magnitude.Holds, ← hbelow, ← habove]
  by_cases heven : m.mant % 2 = 0
  · simp [heven, mul_le_mul_iff_le_div hpos hden hquarter, mul_le_mul_iff_div_le hpos hden hquarter]
  · have hodd : m.mant % 2 = 1 := by omega
    have hlow := lt_iff_lt_of_le_iff_le <|
      mul_le_mul_iff_div_le (a := 4 * m.mant - m.below) (n := num) hpos hden hquarter
    have hhigh := lt_iff_lt_of_le_iff_le <|
      mul_le_mul_iff_le_div (a := 4 * m.mant + 2) (n := num) hpos hden hquarter
    simp only [hodd, Nat.reduceBEq, if_neg Bool.false_ne_true, Bool.and_eq_true, decide_eq_true_eq,
      hlow, hhigh, true_implies]
    exact ⟨fun h => ⟨h.1.le, h.2.le, h⟩, fun h => h.2.2⟩

/-! ## Nearest integers -/

/-- Division with rounding gives the number whose distance is at most one half. -/
theorem divHalfEven_eq {n d k : ℕ} (hd : 0 < d) (hlow : 2 * (k * d) ≤ 2 * n + d)
    (hhigh : 2 * n ≤ 2 * (k * d) + d)
    (hodd : k % 2 = 1 → 2 * (k * d) < 2 * n + d ∧ 2 * n < 2 * (k * d) + d) :
    divHalfEven n d = k := by
  have hn : d * (n / d) + n % d = n := Nat.div_add_mod n d
  have hr : n % d < d := Nat.mod_lt n hd
  simp only [divHalfEven]
  generalize n / d = q at *
  generalize n % d = r at *
  -- the quotient is the nearest integer or the one before
  have hle : q ≤ k := by
    by_contra hlt
    have : (k + 1) * d ≤ q * d := Nat.mul_le_mul_right d (by omega)
    nlinarith
  have hge : k ≤ q + 1 := by
    by_contra hlt
    have : (q + 2) * d ≤ k * d := Nat.mul_le_mul_right d (by omega)
    nlinarith
  rcases (by omega : k = q ∨ k = q + 1) with rfl | rfl
  · have : k * d = d * k := Nat.mul_comm _ _
    split_ifs <;> omega
  · have : (q + 1) * d = d * q + d := by ring
    split_ifs <;> omega

/-! ## Scaling -/

theorem scaled_pos {num den : ℕ} (hden : 0 < den) (e : ℤ) : 0 < (scaled num den e).2 := by
  unfold scaled
  split
  · exact Nat.mul_pos hden (Nat.pow_pos (by decide))
  · exact hden

theorem scaled_eq (num den : ℕ) (e : ℤ) :
    ((scaled num den e).1 : ℚ) / (scaled num den e).2 = num / den / 2 ^ e := by
  unfold scaled
  split
  · simp [div_div]
  · simp [zpow_negSucc, mul_div_right_comm]

theorem two_pow_bitLength_le {n : ℕ} (hn : 0 < n) : 2 ^ bitLength n ≤ 2 * n := by
  have h := Nat.log2_self_le (Nat.ne_of_gt hn)
  rw [bitLength, if_neg (Nat.ne_of_gt hn), Nat.pow_succ]
  omega

/-- A number is smaller than the power of two that its length gives. -/
theorem lt_two_pow_bitLength (n : ℕ) : n < 2 ^ bitLength n := by
  unfold bitLength
  split
  · subst n
    decide
  · exact Nat.lt_log2_self

/-- The scaled quotient tells the binary length of a quotient. -/
theorem le_scaled_div_iff {num den : ℕ} (hden : 0 < den) (e : ℤ) (k : ℕ) :
    2 ^ k ≤ (scaled num den e).1 / (scaled num den e).2 ↔ (2 : ℚ) ^ (e + k) ≤ (num : ℚ) / den := by
  have hpos : 0 < (scaled num den e).2 := scaled_pos hden e
  have hposq : (0 : ℚ) < (scaled num den e).2 := by exact_mod_cast hpos
  have hcast : 2 ^ k * (scaled num den e).2 ≤ (scaled num den e).1 ↔
      (2 : ℚ) ^ k ≤ (scaled num den e).1 / (scaled num den e).2 := by
    rw [le_div_iff₀ hposq]
    exact_mod_cast Iff.rfl
  rw [Nat.le_div_iff_mul_le hpos, hcast, scaled_eq, le_div_iff₀ (by positivity), ← zpow_natCast,
    ← zpow_add₀ two_ne_zero, add_comm]

/-- The quotient lies in a range of four binary orders around the first guess of its exponent. -/
theorem quotient_bounds {num den : ℕ} (hnum : 0 < num) (hden : 0 < den) :
    let guess : ℤ := (bitLength num : ℤ) - bitLength den - 53
    (2 : ℚ) ^ (guess + 52) ≤ (num : ℚ) / den ∧ (num : ℚ) / den < 2 ^ (guess + 54) := by
  intro guess
  have hden' : (0 : ℚ) < den := by exact_mod_cast hden
  -- a number lies within one binary order below the power that its length gives
  have hnumLow : (2 : ℚ) ^ (bitLength num : ℤ) ≤ 2 * num := by
    exact_mod_cast two_pow_bitLength_le hnum
  have hnumHigh : (num : ℚ) < 2 ^ (bitLength num : ℤ) := by
    exact_mod_cast lt_two_pow_bitLength num
  have hdenLow : (2 : ℚ) ^ (bitLength den : ℤ) ≤ 2 * den := by
    exact_mod_cast two_pow_bitLength_le hden
  have hdenHigh : (den : ℚ) < 2 ^ (bitLength den : ℤ) := by
    exact_mod_cast lt_two_pow_bitLength den
  have hsplit : (2 : ℚ) ^ (bitLength num : ℤ) = 2 ^ (guess + 53) * 2 ^ (bitLength den : ℤ) := by
    rw [← zpow_add₀ two_ne_zero]
    congr 1
    omega
  have hhalf : (2 : ℚ) ^ (guess + 53) = 2 * 2 ^ (guess + 52) := by
    rw [← zpow_one_add₀ two_ne_zero]
    congr 1
    omega
  have hdouble : (2 : ℚ) ^ (guess + 54) = 2 * 2 ^ (guess + 53) := by
    rw [← zpow_one_add₀ two_ne_zero]
    congr 1
    omega
  have hpos : (0 : ℚ) < 2 ^ (guess + 52) := by positivity
  constructor
  · rw [le_div_iff₀ hden']
    nlinarith
  · rw [div_lt_iff₀ hden', hdouble]
    nlinarith

/-- A quotient is rounded at the exponent that leaves fifty-three digits before the point, or at the
least exponent. -/
theorem exists_exponent (neg : Bool) {num den : ℕ} (hnum : 0 < num) (hden : 0 < den) :
    ∃ e : ℤ, -1074 ≤ e ∧ (num : ℚ) / den < 2 ^ (e + 53) ∧
      (e = -1074 ∨ (2 : ℚ) ^ (e + 52) ≤ (num : ℚ) / den) ∧
      ofRatio neg num den =
        assemble neg (divHalfEven (scaled num den e).1 (scaled num den e).2) e := by
  obtain ⟨hlow, hhigh⟩ := quotient_bounds hnum hden
  simp only [ofRatio, if_neg (Nat.ne_of_gt hnum)]
  generalize (bitLength num : ℤ) - bitLength den - 53 = guess at *
  have hmany : (scaled num den guess).1 / (scaled num den guess).2 ≥ Nat.pow 2 53 ↔
      (2 : ℚ) ^ (guess + 53) ≤ (num : ℚ) / den := le_scaled_div_iff hden guess 53
  have hexact : ∃ e, e = (if (scaled num den guess).1 / (scaled num den guess).2 ≥ Nat.pow 2 53
      then guess + 1 else guess) ∧
      (2 : ℚ) ^ (e + 52) ≤ (num : ℚ) / den ∧ (num : ℚ) / den < 2 ^ (e + 53) := by
    refine ⟨_, rfl, ?_⟩
    -- the guess is right, or one too small
    split_ifs with h
    · exact ⟨by convert hmany.mp h using 2; ring, by convert hhigh using 2; ring⟩
    · exact ⟨hlow, not_le.mp (hmany.not.mp h)⟩
  obtain ⟨e, he, helow, hehigh⟩ := hexact
  rw [← he]
  by_cases hleast : e < -1074
  · refine ⟨-1074, le_refl _, hehigh.trans_le ?_, .inl rfl, by rw [if_pos hleast]⟩
    exact zpow_le_zpow_right₀ one_le_two (by omega)
  · exact ⟨e, by omega, hehigh, .inr helow, by rw [if_neg hleast]⟩

/-- The integer nearest to a scaled quotient, where `c` is half a unit. -/
theorem divHalfEven_scaled {num den : ℕ} (hden : 0 < den) {e : ℤ} {c : ℚ} {k : ℕ}
    (hhalf : (2 : ℚ) ^ e = 2 * c)
    (hlow : (2 * k - 1) * c ≤ (num : ℚ) / den) (hhigh : (num : ℚ) / den ≤ (2 * k + 1) * c)
    (hodd : k % 2 = 1 → (2 * k - 1) * c < (num : ℚ) / den ∧ (num : ℚ) / den < (2 * k + 1) * c) :
    divHalfEven (scaled num den e).1 (scaled num den e).2 = k := by
  have hd : 0 < (scaled num den e).2 := scaled_pos hden e
  have hquotient := scaled_eq num den e
  generalize scaled num den e = r at hd hquotient
  have hdq : (0 : ℚ) < r.2 := by exact_mod_cast hd
  have hpos : 0 < c := by
    have : (0 : ℚ) < 2 ^ e := by positivity
    linarith
  have hq : (num : ℚ) / den = 2 * r.1 / r.2 * c := by
    rw [eq_div_iff (by positivity), hhalf] at hquotient
    rw [← hquotient]
    ring
  -- measured in half units, the quotient is twice the scaled one
  rw [hq] at hlow hhigh hodd
  have hlow' : (2 * k - 1) * r.2 ≤ (2 * r.1 : ℚ) := by
    rwa [mul_le_mul_iff_left₀ hpos, le_div_iff₀ hdq] at hlow
  have hhigh' : (2 * r.1 : ℚ) ≤ (2 * k + 1) * r.2 := by
    rwa [mul_le_mul_iff_left₀ hpos, div_le_iff₀ hdq] at hhigh
  apply divHalfEven_eq hd
  · have : (2 * (k * r.2) : ℚ) ≤ 2 * r.1 + r.2 := by linarith
    exact_mod_cast this
  · have : (2 * r.1 : ℚ) ≤ 2 * (k * r.2) + r.2 := by linarith
    exact_mod_cast this
  · intro hk
    obtain ⟨hlow, hhigh⟩ := hodd hk
    rw [mul_lt_mul_iff_left₀ hpos, lt_div_iff₀ hdq] at hlow
    rw [mul_lt_mul_iff_left₀ hpos, div_lt_iff₀ hdq] at hhigh
    constructor
    · have : (2 * (k * r.2) : ℚ) < 2 * r.1 + r.2 := by linarith
      exact_mod_cast this
    · have : (2 * r.1 : ℚ) < 2 * (k * r.2) + r.2 := by linarith
      exact_mod_cast this

theorem Magnitude.two_zpow_exp_add (m : Magnitude) (k : ℕ) :
    (2 : ℚ) ^ (m.exp + k) = 2 ^ (k + 2) * m.quarter := by
  rw [Magnitude.quarter, ← zpow_natCast, ← zpow_add₀ two_ne_zero]
  congr 1
  push_cast
  ring

theorem Magnitude.two_zpow_exp (m : Magnitude) : (2 : ℚ) ^ m.exp = 4 * m.quarter := by
  have h := m.two_zpow_exp_add 0
  norm_num at h
  exact h

/-- A significand that is rounded up to fifty-four digits is a power of two at the next exponent. -/
theorem assemble_carry (neg : Bool) (e : ℤ) :
    assemble neg (2 ^ 53) e = assemble neg (2 ^ 52) (e + 1) := by
  rfl

section Exponent

variable {m : Magnitude} (hm : m.IsDouble) {q : ℚ} (h : m.Holds q) {e : ℤ}

include hm h

/-- A number of the interval in quarters of a unit, whatever end is the nearer one. -/
theorem Magnitude.Holds.quarters :
    (4 * m.mant - 2) * m.quarter ≤ q ∧ q ≤ (2 ^ 55 - 2) * m.quarter := by
  have hquarter := m.quarter_pos.le
  have hbelow : (m.below : ℚ) ≤ 2 := by exact_mod_cast m.below_le
  have hmantHigh : (m.mant : ℚ) + 1 ≤ 2 ^ 53 := by exact_mod_cast hm.mant_lt
  exact ⟨(mul_le_mul_of_nonneg_right (by linarith) hquarter).trans h.1,
    h.2.1.trans (mul_le_mul_of_nonneg_right (by linarith) hquarter)⟩

/-- At a later exponent than its own the magnitude would have fewer than fifty-three digits. -/
theorem Magnitude.Holds.exponent_le (hlow : e = -1074 ∨ (2 : ℚ) ^ (e + 52) ≤ q) : e ≤ m.exp := by
  by_contra hgt
  have hquarter := m.quarter_pos
  have hfar : (2 : ℚ) ^ (m.exp + (53 : ℕ)) ≤ 2 ^ (e + 52) :=
    zpow_le_zpow_right₀ one_le_two (by push_cast; omega)
  have hlarge := hfar.trans (hlow.resolve_left (by have := hm.least_le; omega))
  rw [m.two_zpow_exp_add 53] at hlarge
  norm_num only at hlarge
  have hhigh := (h.quarters hm).2
  linarith

/-- Two exponents before its own the magnitude would have more than fifty-three digits. -/
theorem Magnitude.Holds.le_exponent (hmant : 2 ^ 52 ≤ m.mant) (hhigh : q < 2 ^ (e + 53)) :
    m.exp ≤ e + 1 := by
  by_contra hlt
  have hquarter := m.quarter_pos
  have hmantLow : (2 ^ 52 : ℚ) ≤ m.mant := by exact_mod_cast hmant
  have hfar : (2 : ℚ) ^ (e + 53) ≤ 2 ^ (m.exp + (51 : ℕ)) :=
    zpow_le_zpow_right₀ one_le_two (by push_cast; omega)
  have hsmall := hhigh.trans_le hfar
  rw [m.two_zpow_exp_add 51] at hsmall
  norm_num only at hsmall
  have hlow : (2 ^ 54 - 2) * m.quarter ≤ q :=
    (mul_le_mul_of_nonneg_right (by linarith) hquarter.le).trans (h.quarters hm).1
  linarith

/-- Only a power of two comes near to what is smaller than it by a digit. -/
theorem Magnitude.Holds.mant_eq (hmant : 2 ^ 52 ≤ m.mant) (hq : q < 2 ^ 54 * m.quarter) :
    m.mant = 2 ^ 52 := by
  by_contra hne
  have hquarter := m.quarter_pos
  have hmore : (2 ^ 52 + 1 : ℚ) ≤ m.mant := by
    have : 2 ^ 52 + 1 ≤ m.mant := by omega
    exact_mod_cast this
  have hlow : (2 ^ 54 + 2) * m.quarter ≤ q :=
    (mul_le_mul_of_nonneg_right (by linarith) hquarter.le).trans (h.quarters hm).1
  linarith

/-- The exponent of the quotient is the one of the magnitude, or the one before: just below a power
of two digits are denser. -/
theorem Magnitude.Holds.exponent (hleast : -1074 ≤ e) (hhigh : q < 2 ^ (e + 53))
    (hlow : e = -1074 ∨ (2 : ℚ) ^ (e + 52) ≤ q) :
    e = m.exp ∨ (e + 1 = m.exp ∧ m.mant = 2 ^ 52 ∧ q < 2 ^ 54 * m.quarter) := by
  rcases (h.exponent_le hm hlow).eq_or_lt with heq | hlt
  · exact .inl heq
  · -- above the least exponent all fifty-three digits are there
    have hmant : 2 ^ 52 ≤ m.mant := hm.normal.resolve_right (by omega)
    have hnext : e + 1 = m.exp := by
      have := h.le_exponent hm hmant hhigh
      omega
    have hq : q < 2 ^ 54 * m.quarter := by
      have hexp : e + 53 = m.exp + (52 : ℕ) := by push_cast; omega
      rwa [hexp, m.two_zpow_exp_add] at hhigh
    exact .inr ⟨hnext, h.mant_eq hm hmant hq, hq⟩

end Exponent

/-- A quotient that rounds to a magnitude is read as it. -/
theorem ofRatio_eq {m : Magnitude} (hm : m.IsDouble) {num den : ℕ}
    (hnum : 0 < num) (hden : 0 < den) (h : m.Holds ((num : ℚ) / den)) (neg : Bool) :
    ofRatio neg num den = assemble neg m.mant m.exp := by
  obtain ⟨e, hleast, hhigh, hlow, hround⟩ := exists_exponent neg hnum hden
  have hunit := m.two_zpow_exp
  have hquarter := m.quarter_pos
  have hbelow : (m.below : ℚ) ≤ 2 := by exact_mod_cast m.below_le
  rw [hround]
  rcases h.exponent hm hleast hhigh hlow with rfl | ⟨hexp, hmant, hlt⟩
  · rw [divHalfEven_scaled hden (c := 2 * m.quarter) (k := m.mant)]
    · rw [hunit]
      ring
    · nlinarith [h.1]
    · linarith [h.2.1]
    · intro hodd
      obtain ⟨h₁, h₂⟩ := h.2.2 hodd
      exact ⟨by nlinarith, by linarith⟩
  · -- the significand comes out as 2 ^ 53 and carries to the next exponent
    have hhalf : (2 : ℚ) ^ e = 2 * m.quarter := by
      have : (2 : ℚ) ^ m.exp = 2 * 2 ^ e := by rw [← hexp, zpow_add_one₀ two_ne_zero, mul_comm]
      linarith
    have hone : m.below = 1 := if_pos ⟨hmant, by omega⟩
    have hq := h.1
    rw [hone, hmant] at hq
    push_cast at hq
    rw [divHalfEven_scaled hden hhalf (k := 2 ^ 53), assemble_carry, hexp, hmant]
    · push_cast
      linarith
    · push_cast
      linarith
    · intro hodd
      exact absurd hodd (by decide)

/-! ## Decimals -/

/-- What rounds to a magnitude is neither too small nor too large for doubles. -/
theorem Magnitude.Holds.bounds {m : Magnitude} (hm : m.IsDouble) (hpos : 0 < m.mant) {q : ℚ}
    (h : m.Holds q) : (2 : ℚ) ^ (-1075 : ℤ) ≤ q ∧ q < 2 ^ (1024 : ℤ) := by
  have hquarter := m.quarter_pos
  have hbelow : (m.below : ℚ) ≤ 2 := by exact_mod_cast m.below_le
  have hmantLow : (1 : ℚ) ≤ m.mant := by exact_mod_cast hpos
  have hmantHigh : (m.mant : ℚ) + 1 ≤ 2 ^ 53 := by exact_mod_cast hm.mant_lt
  constructor
  -- below: the interval around the least double does not reach further down
  · calc (2 : ℚ) ^ (-1075 : ℤ) = 2 * 2 ^ (-1076 : ℤ) := by
          rw [← zpow_one_add₀ two_ne_zero]
          norm_num only
      _ ≤ 2 * m.quarter := by
          have := zpow_le_zpow_right₀ (one_le_two (α := ℚ)) (by have := hm.least_le; omega :
            (-1076 : ℤ) ≤ m.exp - 2)
          exact mul_le_mul_of_nonneg_left this zero_le_two
      _ ≤ (4 * m.mant - m.below) * m.quarter :=
          mul_le_mul_of_nonneg_right (by linarith) hquarter.le
      _ ≤ q := h.1
  -- above: the interval around the greatest double ends half a unit behind it
  · calc q ≤ (4 * m.mant + 2) * m.quarter := h.2.1
      _ < 2 ^ (55 : ℤ) * m.quarter := by
          apply mul_lt_mul_of_pos_right _ hquarter
          norm_num only
          linarith
      _ ≤ 2 ^ (55 : ℤ) * 2 ^ (969 : ℤ) := by
          apply mul_le_mul_of_nonneg_left _ (by positivity)
          exact zpow_le_zpow_right₀ one_le_two (by have := hm.le_greatest; omega)
      _ = 2 ^ (1024 : ℤ) := by
          rw [← zpow_add₀ two_ne_zero]
          norm_num only

theorem lt_ten_pow_length (n : ℕ) : n < 10 ^ (Nat.toDigits 10 n).length :=
  (Nat.length_toDigits_le_iff (by decide) (List.length_pos_of_ne_nil Nat.toDigits_ne_nil)).mp le_rfl

/-- Up to the exponent 1203, powers of two have four hundred and one digits at most. -/
theorem two_zpow_lt {k : ℤ} (hk : k ≤ 3 * 401) : (2 : ℚ) ^ k < 10 ^ (401 : ℤ) :=
  calc (2 : ℚ) ^ k ≤ 2 ^ (3 * 401 : ℤ) := zpow_le_zpow_right₀ one_le_two hk
    _ = 8 ^ (401 : ℤ) := by
        rw [zpow_mul]
        norm_num only
    _ < 10 ^ (401 : ℤ) := zpow_lt_zpow_left₀ (by decide) (by norm_num) (by norm_num)

section Scientific

variable {m : Magnitude} (hm : m.IsDouble) (hpos : 0 < m.mant) {num k : ℕ}

include hm hpos

/-- What a double is nearest to has no more than four hundred zeros at the end. -/
theorem Magnitude.Holds.zeros_le (hnum : 0 < num) (h : m.Holds (num * 10 ^ (Int.ofNat k))) :
    k ≤ 400 := by
  by_contra hk
  -- so large a number is above all doubles
  have hlarge : (10 : ℚ) ^ (401 : ℤ) ≤ num * 10 ^ (Int.ofNat k) :=
    calc (10 : ℚ) ^ (401 : ℤ) ≤ 10 ^ (Int.ofNat k) :=
          zpow_le_zpow_right₀ (by norm_num) (by rw [Int.ofNat_eq_natCast]; omega)
      _ ≤ num * 10 ^ (Int.ofNat k) :=
          le_mul_of_one_le_left (by positivity) (by exact_mod_cast hnum)
  have hhigh := (h.bounds hm hpos).2
  exact absurd (two_zpow_lt (k := 1024) (by decide)) (not_lt.mpr (hlarge.trans hhigh.le))

/-- What a double is nearest to has no more than four hundred zeros behind the point. -/
theorem Magnitude.Holds.places_le (h : m.Holds (num * 10 ^ (Int.negSucc k))) :
    k ≤ 400 + (Nat.toDigits 10 num).length := by
  by_contra hk
  have hdigits : (num : ℚ) < 10 ^ ((Nat.toDigits 10 num).length : ℤ) := by
    exact_mod_cast lt_ten_pow_length num
  -- so small a number is below all doubles
  have hsmall : num * (10 : ℚ) ^ (Int.negSucc k) < 2 ^ (-1075 : ℤ) :=
    calc num * (10 : ℚ) ^ (Int.negSucc k)
        < 10 ^ ((Nat.toDigits 10 num).length : ℤ) * 10 ^ (Int.negSucc k) :=
          mul_lt_mul_of_pos_right hdigits (by positivity)
      _ = 10 ^ ((Nat.toDigits 10 num).length + Int.negSucc k) := (zpow_add₀ (by norm_num) _ _).symm
      _ ≤ 10 ^ (-401 : ℤ) := zpow_le_zpow_right₀ (by norm_num) (by omega)
      _ = (10 ^ (401 : ℤ))⁻¹ := zpow_neg _ _
      _ < (2 ^ (1075 : ℤ))⁻¹ := inv_strictAnti₀ (by positivity) (two_zpow_lt (by decide))
      _ = 2 ^ (-1075 : ℤ) := (zpow_neg _ _).symm
  exact absurd (h.bounds hm hpos).1 (not_le.mpr hsmall)

/-- A decimal number that rounds to a magnitude is read as it. -/
theorem ofScientific_eq {exp : ℤ} (h : m.Holds (num * 10 ^ exp)) (neg : Bool) :
    ofScientific neg num exp = assemble neg m.mant m.exp := by
  -- what lies in the interval of a double above zero is above zero
  have hnum : 0 < num := by
    rcases Nat.eq_zero_or_pos num with rfl | hnum
    · have hlow := (h.bounds hm hpos).1
      have : (0 : ℚ) < 2 ^ (-1075 : ℤ) := by positivity
      rw [Nat.cast_zero, zero_mul] at hlow
      exact absurd hlow (not_le.mpr this)
    · exact hnum
  unfold ofScientific
  split
  · rename_i k
    rw [if_neg (Nat.ne_of_gt hnum), if_neg (not_lt.mpr (h.zeros_le hm hpos hnum))]
    apply ofRatio_eq hm (Nat.mul_pos hnum (Nat.pow_pos (by decide))) Nat.one_pos
    convert h using 1
    simp
  · rename_i k
    rw [if_neg (not_lt.mpr (h.places_le hm hpos))]
    apply ofRatio_eq hm hnum (Nat.pow_pos (by decide))
    convert h using 1
    simp [zpow_negSucc, div_eq_mul_inv]

end Scientific

end Decimal

end TabletopChat
