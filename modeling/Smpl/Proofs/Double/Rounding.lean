import Mathlib.Algebra.Order.Field.Power
import Mathlib.Data.Rat.Cast.Order
import Mathlib.Tactic.FieldSimp
import Mathlib.Tactic.Linarith
import Mathlib.Tactic.Positivity
import Mathlib.Tactic.Ring
import Smpl.Double.Decimal

namespace Smpl

theorem roundQuotient_mul_right (n d : Nat) {c : Nat} (hc : 0 < c) :
    roundQuotient (n * c) (d * c) = roundQuotient n d := by
  simp only [roundQuotient, Nat.mul_div_mul_right _ _ hc, Nat.mul_mod_mul_right, ← Nat.mul_assoc,
    Nat.mul_lt_mul_right hc]

/-- Rounding sees only the value of a fraction, not how it is written. -/
theorem roundQuotient_congr {n d n' d' : Nat} (hd : 0 < d) (hd' : 0 < d') (h : n * d' = n' * d) :
    roundQuotient n d = roundQuotient n' d' := by
  rw [← roundQuotient_mul_right n d hd', ← roundQuotient_mul_right n' d' hd, h, Nat.mul_comm d d']

theorem roundQuotient_one (n : Nat) : roundQuotient n 1 = n := by
  simp [roundQuotient, Nat.mod_one]

section

variable (n d : Nat) (power : Int)

theorem divideByPower_pos (hd : 0 < d) : 0 < (divideByPower n d power).2 := by
  simp only [divideByPower, Nat.pow_eq]
  split
  · positivity
  · exact hd

/-- Dividing by a power of two is exact. -/
theorem divideByPower_eq (hd : 0 < d) :
    ((divideByPower n d power).1 : ℚ) / (divideByPower n d power).2 = (n : ℚ) / d / 2 ^ power := by
  simp only [divideByPower, Nat.pow_eq]
  split
  · next hpower =>
    obtain ⟨k, rfl⟩ := Int.eq_ofNat_of_zero_le hpower
    simp only [Int.toNat_natCast, Nat.cast_mul, Nat.cast_pow, Nat.cast_ofNat, zpow_natCast]
    rw [div_div]
  · next hpower =>
    obtain ⟨k, hk⟩ : ∃ k : Nat, power = -k := ⟨(-power).toNat, by omega⟩
    subst hk
    simp only [neg_neg, Int.toNat_natCast, Nat.cast_mul, Nat.cast_pow, Nat.cast_ofNat, zpow_neg, zpow_natCast]
    field_simp

end

namespace Double

variable {q : ℚ} {power power' : Int} {n d : Nat}

/-- The least power of two, from the subnormal range on, at which a positive number has at most 53
    bits. -/
structure IsLastBit (q : ℚ) (power : Int) : Prop where
  range : -1074 ≤ power
  fits : q < 2 ^ (53 + power)
  least : power = -1074 ∨ 2 ^ (52 + power) ≤ q

theorem IsLastBit.le (h : IsLastBit q power) (h' : IsLastBit q power') : power' ≤ power := by
  by_contra hlt
  obtain hmin | hleast := h'.least
  · have := h.range
    omega
  · have hpow : (2 : ℚ) ^ (53 + power) ≤ 2 ^ (52 + power') := zpow_le_zpow_right₀ (by norm_num) (by omega)
    have := h.fits
    linarith

/-- A value has one last bit only. -/
theorem IsLastBit.unique (h : IsLastBit q power) (h' : IsLastBit q power') : power = power' :=
  le_antisymm (h'.le h) (h.le h')

/-- The difference of the bit lengths tells the size of a fraction up to a factor of two. -/
theorem log2_bounds (hn : 0 < n) (hd : 0 < d) :
    (2 : ℚ) ^ ((n.log2 : Int) - d.log2 - 1) < (n : ℚ) / d ∧ (n : ℚ) / d < 2 ^ ((n.log2 : Int) - d.log2 + 1) := by
  have hn₁ : (2 : ℚ) ^ n.log2 ≤ n := by exact_mod_cast Nat.log2_self_le hn.ne'
  have hn₂ : (n : ℚ) < 2 ^ (n.log2 + 1) := by exact_mod_cast Nat.lt_log2_self
  have hd₁ : (2 : ℚ) ^ d.log2 ≤ d := by exact_mod_cast Nat.log2_self_le hd.ne'
  have hd₂ : (d : ℚ) < 2 ^ (d.log2 + 1) := by exact_mod_cast Nat.lt_log2_self
  have hd₀ : (0 : ℚ) < d := by exact_mod_cast hd
  constructor
  · have hsplit : (2 : ℚ) ^ ((n.log2 : Int) - d.log2 - 1) = 2 ^ n.log2 / 2 ^ (d.log2 + 1) := by
      rw [← zpow_natCast, ← zpow_natCast, ← zpow_sub₀ (by norm_num)]
      congr 1
      push_cast
      omega
    rw [hsplit, div_lt_div_iff₀ (by positivity) hd₀]
    calc (2 : ℚ) ^ n.log2 * d < 2 ^ n.log2 * 2 ^ (d.log2 + 1) := by gcongr
      _ ≤ n * 2 ^ (d.log2 + 1) := by gcongr
  · have hsplit : (2 : ℚ) ^ ((n.log2 : Int) - d.log2 + 1) = 2 ^ (n.log2 + 1) / 2 ^ d.log2 := by
      rw [← zpow_natCast, ← zpow_natCast, ← zpow_sub₀ (by norm_num)]
      congr 1
      push_cast
      omega
    rw [hsplit, div_lt_div_iff₀ hd₀ (by positivity)]
    calc (n : ℚ) * 2 ^ d.log2 < 2 ^ (n.log2 + 1) * 2 ^ d.log2 := by gcongr
      _ ≤ 2 ^ (n.log2 + 1) * d := by gcongr

/-- The last bit that is computed from bit lengths is the right one. -/
theorem lastBit_spec (hn : 0 < n) (hd : 0 < d) : IsLastBit ((n : ℚ) / d) (lastBit n d) := by
  obtain ⟨hlower, hupper⟩ := log2_bounds hn hd
  have hdown : ∀ {p : Int}, p ≤ (n.log2 : Int) - d.log2 - 53 → (2 : ℚ) ^ (52 + p) ≤ n / d := by
    intro p hp
    have hpow : (2 : ℚ) ^ (52 + p) ≤ 2 ^ ((n.log2 : Int) - d.log2 - 1) := zpow_le_zpow_right₀ (by norm_num) (by omega)
    linarith
  have hup : ∀ {p : Int}, (n.log2 : Int) - d.log2 - 52 ≤ p → (n : ℚ) / d < 2 ^ (53 + p) := by
    intro p hp
    have hpow : (2 : ℚ) ^ ((n.log2 : Int) - d.log2 + 1) ≤ 2 ^ (53 + p) := zpow_le_zpow_right₀ (by norm_num) (by omega)
    linarith
  simp only [lastBit, Nat.pow_eq]
  generalize hguess : max ((n.log2 : Int) - d.log2 - 53) (-1074) = guess
  have hiff : (divideByPower n d guess).1 < 2 ^ 53 * (divideByPower n d guess).2 ↔
      (n : ℚ) / d < 2 ^ (53 + guess) := by
    have hpos : (0 : ℚ) < (divideByPower n d guess).2 := by exact_mod_cast divideByPower_pos n d guess hd
    have heq := divideByPower_eq n d guess hd
    rw [zpow_add₀ (by norm_num), ← div_lt_iff₀ (by positivity), ← heq, div_lt_iff₀ hpos]
    norm_cast
  split
  · next hfits =>
    refine ⟨by omega, hiff.1 hfits, ?_⟩
    by_cases hmin : guess = -1074
    · exact .inl hmin
    · exact .inr (hdown (by omega))
  · next hfits =>
    rw [hiff] at hfits
    refine ⟨by omega, hup (by omega), .inr ?_⟩
    rw [show 52 + (guess + 1) = 53 + guess by ring]
    exact not_lt.1 hfits

/-- The bits of the double nearest to a positive fraction whose last bit has that power. -/
theorem ofRatio_eq (hn : 0 < n) (hpower : lastBit n d = power) :
    ofRatio n d =
      (let bits := (power + 1074).toNat * 2 ^ fractionBits +
        roundQuotient (divideByPower n d power).1 (divideByPower n d power).2
      if bits < 2047 * 2 ^ fractionBits then ⟨UInt64.ofNat bits⟩ else infinity) := by
  simp only [ofRatio, hn.ne', if_false, hpower, Nat.pow_eq]

/-- Fractions with one value are read as one double. -/
theorem ofRatio_congr {n' d' : Nat} (hd : 0 < d) (hd' : 0 < d') (h : n * d' = n' * d) :
    ofRatio n d = ofRatio n' d' := by
  by_cases hn : n = 0
  · subst hn
    have hn' : n' = 0 := by simpa [hd.ne'] using h.symm
    simp only [ofRatio, hn', if_true]
  · have hn₀ : 0 < n := Nat.pos_of_ne_zero hn
    have hn₀' : 0 < n' := Nat.pos_of_mul_pos_right (h ▸ Nat.mul_pos hn₀ hd' : 0 < n' * d)
    have hq : (n : ℚ) / d = n' / d' := by
      rw [div_eq_div_iff (by positivity) (by positivity)]
      exact_mod_cast h
    have hpower : lastBit n d = lastBit n' d' :=
      (lastBit_spec hn₀ hd).unique (hq ▸ lastBit_spec hn₀' hd')
    rw [ofRatio_eq hn₀ hpower, ofRatio_eq hn₀' rfl]
    generalize lastBit n' d' = power
    have hround : roundQuotient (divideByPower n d power).1 (divideByPower n d power).2 =
        roundQuotient (divideByPower n' d' power).1 (divideByPower n' d' power).2 := by
      have hpos := divideByPower_pos n d power hd
      have hpos' := divideByPower_pos n' d' power hd'
      refine roundQuotient_congr hpos hpos' ?_
      have heq := divideByPower_eq n d power hd
      rw [hq, ← divideByPower_eq n' d' power hd', div_eq_div_iff (by positivity) (by positivity)] at heq
      exact_mod_cast heq
    rw [hround]

/-- Bits below those of infinity are those of a finite number without a sign. -/
theorem isFinite_ofNat {bits : Nat} (h : bits < 2047 * 2 ^ fractionBits) :
    (⟨UInt64.ofNat bits⟩ : Double).isFinite = true ∧ (⟨UInt64.ofNat bits⟩ : Double).isNegative = false := by
  have hbits : bits < 2047 * 2 ^ 52 := h
  have hword : (UInt64.ofNat bits).toNat = bits := UInt64.toNat_ofNat_of_lt' (by simp [UInt64.size]; omega)
  simp only [isFinite, isNegative, exponentField, magnitudeBits, hword, fractionBits, bne_iff_ne,
    decide_eq_false_iff_not, Nat.pow_eq]
  omega

/-- What is read is infinite, or finite and without a sign. -/
theorem ofRatio_isFinite (h : (ofRatio n d).isInfinite = false) :
    (ofRatio n d).isFinite = true ∧ (ofRatio n d).isNegative = false := by
  by_cases hn : n = 0
  · simp only [ofRatio, hn, if_true]
    decide
  · rw [ofRatio_eq (Nat.pos_of_ne_zero hn) rfl] at h ⊢
    generalize (lastBit n d + 1074).toNat * 2 ^ fractionBits + _ = bits at h ⊢
    by_cases hbits : bits < 2047 * 2 ^ fractionBits
    · simp only [hbits, if_true]
      exact isFinite_ofNat hbits
    · simp only [hbits, if_false] at h
      exact absurd h (by decide)

end Double

end Smpl
