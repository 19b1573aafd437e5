import Smpl.Proofs.Double.ReadBack

namespace Smpl

open List

namespace Double

/-- A decimal and a fraction with one value are read as one double. -/
theorem ofDecimal_eq_ofRatio {digits n d : Nat} {exponent : Int} (hd : 0 < d)
    (h : (digits : ℚ) * 10 ^ exponent = n / d) : ofDecimal digits exponent = ofRatio n d := by
  have hd₀ : (d : ℚ) ≠ 0 := by positivity
  simp only [ofDecimal, Nat.pow_eq]
  split
  · next hexponent =>
    obtain ⟨k, rfl⟩ := Int.eq_ofNat_of_zero_le hexponent
    rw [zpow_natCast, eq_div_iff hd₀] at h
    refine ofRatio_congr Nat.one_pos hd ?_
    rw [Int.toNat_natCast, Nat.mul_one]
    exact_mod_cast h
  · next hexponent =>
    obtain ⟨k, rfl⟩ : ∃ k : Nat, exponent = -k := ⟨(-exponent).toNat, by omega⟩
    rw [zpow_neg, zpow_natCast, ← div_eq_mul_inv, div_eq_div_iff (by positivity) hd₀] at h
    refine ofRatio_congr (by positivity) hd ?_
    rw [neg_neg, Int.toNat_natCast]
    exact_mod_cast h

theorem ofDecimal_congr {digits digits' : Nat} {exponent exponent' : Int}
    (h : (digits : ℚ) * 10 ^ exponent = digits' * 10 ^ exponent') :
    ofDecimal digits exponent = ofDecimal digits' exponent' := by
  have hratio : ∃ n d : Nat, 0 < d ∧ (digits' : ℚ) * 10 ^ exponent' = n / d := by
    by_cases hexponent : 0 ≤ exponent'
    · obtain ⟨k, rfl⟩ := Int.eq_ofNat_of_zero_le hexponent
      exact ⟨digits' * 10 ^ k, 1, Nat.one_pos, by simp⟩
    · obtain ⟨k, rfl⟩ : ∃ k : Nat, exponent' = -k := ⟨(-exponent').toNat, by omega⟩
      exact ⟨digits', 10 ^ k, by positivity, by simp [div_eq_mul_inv]⟩
  obtain ⟨n, d, hd, hvalue⟩ := hratio
  rw [ofDecimal_eq_ofRatio hd hvalue, ofDecimal_eq_ofRatio hd (h.trans hvalue)]

variable {x : Double}

/-- The exact decimal expansion of a finite number is read as that number. -/
theorem exactDecimal_value (hfinite : x.isFinite = true) (hpos : 0 < x.magnitudeBits) :
    x.exactDecimal.value = x.abs := by
  rw [← ofRatio_ratio hfinite hpos]
  refine ofDecimal_eq_ofRatio x.ratio_pos ?_
  rw [ratio_eq]
  simp only [exactDecimal, Nat.pow_eq]
  split
  · next hscale =>
    obtain ⟨k, hk⟩ := Int.eq_ofNat_of_zero_le hscale
    simp [hk]
  · next hscale =>
    obtain ⟨k, hk⟩ : ∃ k : Nat, x.scale = -k := ⟨(-x.scale).toNat, by omega⟩
    have hten : (10 : ℚ) ^ k = 2 ^ k * 5 ^ k := by
      rw [← mul_pow]
      norm_num
    simp only [hk, neg_neg, Int.toNat_natCast, Nat.cast_mul, Nat.cast_pow, Nat.cast_ofNat, zpow_neg, zpow_natCast, hten]
    field_simp

/-- A candidate is only taken if it reads back. -/
theorem decimalOfLength?_value {length : Nat} {d : Decimal} (h : x.decimalOfLength? length = some d) :
    d.value = x := by
  have hpick : ∀ nearer farther : Decimal,
      (if nearer.value = x then some nearer else if farther.value = x then some farther else none) = some d →
      d.value = x := by
    intro nearer farther h
    split at h
    · next hvalue =>
      cases h
      exact hvalue
    · split at h
      · next hvalue =>
        cases h
        exact hvalue
      · cases h
  exact hpick _ _ h

/-- So is what the search for a short one finds, whatever length it starts at. -/
theorem shortestFrom_value {length tries : Nat} {d : Decimal} (h : x.shortestFrom length tries = some d) :
    d.value = x := by
  induction tries generalizing length with
  | zero => cases h
  | succ tries ih =>
    unfold shortestFrom at h
    split at h
    · next hlength =>
      cases h
      exact decimalOfLength?_value hlength
    · exact ih h

end Double

namespace Decimal

/-- Zeros at the end of the digits do not count. -/
theorem trim_value (n : Nat) (d : Decimal) : (d.trim n).value = d.value := by
  induction n generalizing d with
  | zero => rfl
  | succ n ih =>
    unfold trim
    split
    · next hzero =>
      rw [ih]
      refine Double.ofDecimal_congr ?_
      have hdigits : d.digits = d.digits / 10 * 10 := by omega
      have hcast : (d.digits : ℚ) = (d.digits / 10 : Nat) * 10 := by exact_mod_cast hdigits
      rw [zpow_add₀ (by norm_num), zpow_one, hcast]
      ring
    · rfl

end Decimal

/-- The shortest decimal of a finite number without a sign is read as that number. -/
theorem Double.shortest_value {x : Double} (hfinite : x.isFinite = true) (hpos : 0 < x.magnitudeBits)
    (hsign : x.isNegative = false) : x.shortest.value = x := by
  unfold shortest
  rw [Decimal.trim_value]
  cases hshort : x.shortestFrom 1 17 with
  | none =>
    rw [Option.getD_none, exactDecimal_value hfinite hpos, abs_eq_self hsign]
  | some d => exact shortestFrom_value hshort

/-- A text of two runs of digits with a point between them that is read as the number. -/
def Double.IsText (x : Double) (text : List Char) : Prop :=
  ∃ whole fraction, text = whole ++ '.' :: fraction ∧ whole ≠ [] ∧ fraction ≠ [] ∧
    (∀ c ∈ whole, c.isDigit = true) ∧ (∀ c ∈ fraction, c.isDigit = true) ∧ Double.ofDigits whole fraction = x

namespace Decimal

theorem isDigit_toDigits {n : Nat} : ∀ c ∈ Nat.toDigits 10 n, c.isDigit = true :=
  fun _ hc => Nat.isDigit_of_mem_toDigits (by decide) (by decide) hc

theorem isDigit_replicate {n : Nat} : ∀ c ∈ List.replicate n '0', c.isDigit = true := by
  intro c hc
  rw [eq_of_mem_replicate hc]
  rfl

/-- A point before the last places of a run of digits divides by that power of ten. -/
theorem isText_of_digits {digits : List Char} {places : Nat} (hdigits : ∀ c ∈ digits, c.isDigit = true)
    (hplaces : 0 < places) (hlength : places < digits.length) :
    (Double.ofDecimal (Nat.ofDigitChars 10 digits 0) (-places)).IsText
      (digits.take (digits.length - places) ++ '.' :: digits.drop (digits.length - places)) := by
  refine ⟨_, _, rfl, ?_, ?_, ?_, ?_, ?_⟩
  · intro hnil
    have := congrArg List.length hnil
    simp only [length_take, length_nil] at this
    omega
  · intro hnil
    have := congrArg List.length hnil
    simp only [length_drop, length_nil] at this
    omega
  · exact fun c hc => hdigits c (mem_of_mem_take hc)
  · exact fun c hc => hdigits c (mem_of_mem_drop hc)
  · have hfraction : (digits.drop (digits.length - places)).length = places := by
      rw [length_drop]
      omega
    rw [Double.ofDigits, take_append_drop, hfraction]

theorem positional_isText_of_nonneg {d : Decimal} {k : Nat} (hk : d.exponent = k) :
    d.value.IsText d.positional.toList := by
  refine ⟨Nat.toDigits 10 d.digits ++ List.replicate k '0', ['0'], ?_, ?_, cons_ne_nil _ _, ?_,
    forall_mem_singleton.2 rfl, ?_⟩
  · simp [positional, hk]
  · simp [Nat.toDigits_ne_nil]
  · intro c hc
    exact (mem_append.1 hc).elim (isDigit_toDigits c) (isDigit_replicate c)
  · refine Double.ofDecimal_congr ?_
    have hdigits : Nat.ofDigitChars 10 (Nat.toDigits 10 d.digits ++ List.replicate k '0' ++ ['0']) 0 =
        10 ^ k * d.digits * 10 := by
      simp only [Nat.ofDigitChars_append, Nat.ofDigitChars_ten_toDigits, Nat.ofDigitChars_replicate_zero]
      simp [Nat.ofDigitChars_cons, Nat.ofDigitChars_nil, Nat.mul_comm]
    rw [hdigits, hk]
    push_cast
    simp only [length_cons, length_nil, zpow_natCast]
    norm_num
    ring

theorem positional_isText_of_neg {d : Decimal} {k : Nat} (hk : d.exponent = -k) (hpos : 0 < k) :
    d.value.IsText d.positional.toList := by
  have hnot : ¬(0 ≤ -(k : Int)) := by omega
  have hvalue : ∀ n, Nat.ofDigitChars 10 (List.replicate n '0' ++ Nat.toDigits 10 d.digits) 0 = d.digits := by
    intro n
    simp [Nat.ofDigitChars_append, Nat.ofDigitChars_ten_toDigits, Nat.ofDigitChars_replicate_zero]
  have hdigit : ∀ n, ∀ c ∈ List.replicate n '0' ++ Nat.toDigits 10 d.digits, c.isDigit = true :=
    fun n c hc => (mem_append.1 hc).elim (isDigit_replicate c) (isDigit_toDigits c)
  simp only [positional, hk, hnot, if_false, neg_neg, Int.toNat_natCast, String.toList_ofList]
  generalize hpadded : List.replicate (k + 1 - (Nat.toDigits 10 d.digits).length) '0' ++
    Nat.toDigits 10 d.digits = padded
  have hlength : k < padded.length := by
    rw [← hpadded, length_append, length_replicate]
    omega
  have htake : (padded.take (padded.length - k)).length = padded.length - k := by
    rw [length_take]
    omega
  have htext := isText_of_digits (hpadded ▸ hdigit _) hpos hlength
  rw [htake, value, hk, ← hvalue (k + 1 - (Nat.toDigits 10 d.digits).length), hpadded]
  exact htext

/-- Positional notation is read as the number it writes. -/
theorem positional_isText (d : Decimal) : d.value.IsText d.positional.toList := by
  by_cases hexponent : 0 ≤ d.exponent
  · exact positional_isText_of_nonneg (Int.toNat_of_nonneg hexponent).symm
  · obtain ⟨k, hk⟩ : ∃ k : Nat, d.exponent = -k := ⟨(-d.exponent).toNat, by omega⟩
    exact positional_isText_of_neg hk (by omega)

end Decimal

/-- The literal of a finite number without a sign is read as that number. -/
theorem Double.literal_isText {x : Double} (hfinite : x.isFinite = true) (hsign : x.isNegative = false) :
    x.IsText x.literal.toList := by
  have hexponent : x.exponentField ≠ 2047 := by simpa [isFinite] using hfinite
  have hnan : x.isNaN = false := by simp [isNaN, hexponent]
  have hinfinite : x.isInfinite = false := by simp [isInfinite, hexponent]
  simp only [literal, hnan, hinfinite, hsign, Bool.false_eq_true, if_false]
  by_cases hzero : x.magnitudeBits = 0
  · have hx : x = ⟨0⟩ := by
      rw [← abs_eq_self hsign, abs, hzero]
      rfl
    subst hx
    refine ⟨['0'], ['0'], ?_, cons_ne_nil _ _, cons_ne_nil _ _, forall_mem_singleton.2 rfl,
      forall_mem_singleton.2 rfl, by decide⟩
    simp only [hzero, if_true]
    rfl
  · simp only [hzero, if_false, abs_eq_self hsign]
    have htext := x.shortest.positional_isText
    rw [shortest_value hfinite (Nat.pos_of_ne_zero hzero) hsign] at htext
    simpa using htext

end Smpl
