import Smpl.Double.Text
import Smpl.Proofs.Double.Rounding

namespace Smpl

namespace Double

variable {x : Double}

theorem ratio_pos (x : Double) : 0 < x.ratio.2 := by
  simp only [ratio, Nat.pow_eq]
  split <;> positivity

/-- The value of a finite number as a fraction. -/
theorem ratio_eq (x : Double) : (x.ratio.1 : ℚ) / x.ratio.2 = x.significand * 2 ^ x.scale := by
  simp only [ratio, Nat.pow_eq]
  split
  · next hscale =>
    obtain ⟨k, hk⟩ := Int.eq_ofNat_of_zero_le hscale
    simp [hk]
  · next hscale =>
    obtain ⟨k, hk⟩ : ∃ k : Nat, x.scale = -k := ⟨(-x.scale).toNat, by omega⟩
    simp [hk, div_eq_mul_inv]

theorem abs_eq_self (hsign : x.isNegative = false) : x.abs = x := by
  obtain ⟨bits⟩ := x
  have hlt : bits.toNat < 2 ^ 63 := by simpa [isNegative] using hsign
  rw [abs, magnitudeBits, Nat.pow_eq, Nat.mod_eq_of_lt hlt, UInt64.ofNat_toNat]

theorem fractionField_lt (x : Double) : x.fractionField < 2 ^ 52 :=
  Nat.mod_lt _ (by decide)

theorem magnitudeBits_eq (x : Double) : x.magnitudeBits = x.exponentField * 2 ^ 52 + x.fractionField :=
  (Nat.div_add_mod' _ _).symm

/-- The last bit of a finite number is the one its scale gives. -/
theorem significand_isLastBit (x : Double) : IsLastBit (x.significand * 2 ^ x.scale) x.scale := by
  have hfraction := x.fractionField_lt
  have hlt : x.significand < 2 ^ 53 := by
    simp only [significand, fractionBits, Nat.pow_eq]
    split <;> omega
  have hscale : (0 : ℚ) < 2 ^ x.scale := by positivity
  refine ⟨?_, ?_, ?_⟩
  · unfold scale
    split <;> omega
  · have hcast : (x.significand : ℚ) < 2 ^ 53 := by exact_mod_cast hlt
    rw [zpow_add₀ (by norm_num)]
    gcongr
    exact_mod_cast hcast
  · by_cases hsub : x.exponentField = 0
    · exact .inl (by simp [scale, hsub])
    · right
      have hle : 2 ^ 52 ≤ x.significand := by simp [significand, hsub, fractionBits]
      rw [zpow_add₀ (by norm_num)]
      gcongr
      exact_mod_cast hle

theorem significand_pos (hpos : 0 < x.magnitudeBits) : 0 < x.significand := by
  have hbits := x.magnitudeBits_eq
  simp only [significand, fractionBits, Nat.pow_eq]
  split
  · next hsub =>
    rw [hsub] at hbits
    omega
  · omega

/-- The bits of a number are put together from its scale and its significand. -/
theorem bits_eq_magnitudeBits (x : Double) :
    (x.scale + 1074).toNat * 2 ^ 52 + x.significand = x.magnitudeBits := by
  rw [magnitudeBits_eq]
  simp only [scale, significand, fractionBits, Nat.pow_eq]
  split
  · next hsub => simp [hsub]
  · omega

/-- A finite number is the double nearest to its own value. -/
theorem ofRatio_ratio (hfinite : x.isFinite = true) (hpos : 0 < x.magnitudeBits) :
    ofRatio x.ratio.1 x.ratio.2 = x.abs := by
  have hsignificand := significand_pos hpos
  have hn : 0 < x.ratio.1 := by
    simp only [ratio, Nat.pow_eq]
    split <;> positivity
  have hd := x.ratio_pos
  have hlast : lastBit x.ratio.1 x.ratio.2 = x.scale :=
    (lastBit_spec hn hd).unique (x.ratio_eq ▸ x.significand_isLastBit)
  have hround : roundQuotient (divideByPower x.ratio.1 x.ratio.2 x.scale).1
      (divideByPower x.ratio.1 x.ratio.2 x.scale).2 = x.significand := by
    have hpos := divideByPower_pos x.ratio.1 x.ratio.2 x.scale hd
    have heq := divideByPower_eq x.ratio.1 x.ratio.2 x.scale hd
    rw [ratio_eq, mul_div_cancel_right₀ _ (by positivity), div_eq_iff (by positivity)] at heq
    rw [← roundQuotient_one x.significand]
    refine roundQuotient_congr hpos Nat.one_pos ?_
    rw [Nat.mul_one]
    exact_mod_cast heq
  have hlt : x.magnitudeBits < 2047 * 2 ^ 52 := by
    have hbits := x.magnitudeBits_eq
    have hexponent : x.exponentField ≠ 2047 := by simpa [isFinite] using hfinite
    have hmagnitude : x.magnitudeBits < 2 ^ 63 := Nat.mod_lt _ (by decide)
    have hfraction := x.fractionField_lt
    omega
  rw [ofRatio_eq hn hlast, hround]
  simp only [fractionBits, bits_eq_magnitudeBits, hlt, if_true, abs]

end Double

end Smpl
