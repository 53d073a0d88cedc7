import Mathlib.Algebra.Order.Field.Power
import Mathlib.Data.Nat.Log
import Mathlib.Data.Rat.Defs
import Mathlib.Tactic.FieldSimp
import Mathlib.Tactic.Linarith
import Mathlib.Tactic.NormNum
import Mathlib.Tactic.Positivity
import Mathlib.Tactic.Ring
import SchemaModels.Number.Binary64

/-!
Rounding a quotient to a double. Every number between the half ways to the two
neighbours of a double rounds to that double; at half way the even mantissa wins,
and below a power of two the neighbour is only half as far away.
-/
namespace SchemaModels.Binary64

/-- A number lies at most half a step from a natural, and exactly half a step only
if that is even. -/
structure IsNearest (y : ℚ) (n : Nat) : Prop where
  above : (n : ℚ) - 1 / 2 ≤ y
  below : y ≤ n + 1 / 2
  even_of_tie : y = n - 1 / 2 ∨ y = n + 1 / 2 → n % 2 = 0

/-- The nearest natural of a quotient, without division. -/
theorem IsNearest.bounds {num den n : Nat} (hDen : 0 < den) (h : IsNearest (num / den) n) :
    2 * n * den ≤ 2 * num + den ∧ 2 * num ≤ 2 * n * den + den ∧
      (2 * n * den = 2 * num + den ∨ 2 * num = 2 * n * den + den → n % 2 = 0) := by
  have hDen' : (0 : ℚ) < den := by exact_mod_cast hDen
  refine ⟨?_, ?_, ?_⟩
  · have hAbove := h.above
    rw [le_div_iff₀ hDen'] at hAbove
    have hQ : (2 * n * den : ℚ) ≤ 2 * num + den := by linarith
    exact_mod_cast hQ
  · have hBelow := h.below
    rw [div_le_iff₀ hDen'] at hBelow
    have hQ : (2 * num : ℚ) ≤ 2 * n * den + den := by linarith
    exact_mod_cast hQ
  · intro hCase
    apply h.even_of_tie
    rcases hCase with hCase | hCase
    · left
      have hQ : (2 * n * den : ℚ) = 2 * num + den := by exact_mod_cast hCase
      rw [div_eq_iff hDen'.ne']
      linarith
    · right
      have hQ : (2 * num : ℚ) = 2 * n * den + den := by exact_mod_cast hCase
      rw [div_eq_iff hDen'.ne']
      linarith

theorem nearestEven_eq {num den n : Nat} (hDen : 0 < den) (h : IsNearest (num / den) n) :
    nearestEven num den = n := by
  obtain ⟨hAbove, hBelow, hTie⟩ := h.bounds hDen
  have hNum := Nat.div_add_mod num den
  have hRest := Nat.mod_lt num hDen
  unfold nearestEven
  generalize num / den = q at *
  generalize num % den = r at *
  subst hNum
  have hUpper : q ≤ n := by
    by_contra hLt
    have : (n + 1) * den ≤ q * den := Nat.mul_le_mul_right den (by omega)
    nlinarith
  have hLower : n ≤ q + 1 := by
    by_contra hLt
    have : (q + 2) * den ≤ n * den := Nat.mul_le_mul_right den (by omega)
    nlinarith
  rcases Nat.eq_or_lt_of_le hUpper with rfl | hLt
  · have hHalf : 2 * r ≤ den := by nlinarith
    rcases Nat.eq_or_lt_of_le hHalf with hEq | hLess
    · have hEven := hTie (Or.inr (by nlinarith))
      simp [hEq, hEven]
    · simp [hLess]
  · obtain rfl : n = q + 1 := by omega
    have hHalf : den ≤ 2 * r := by nlinarith
    rcases Nat.eq_or_lt_of_le hHalf with hEq | hMore
    · have hEven := hTie (Or.inl (by nlinarith))
      have hOdd : q % 2 ≠ 0 := by omega
      simp [← hEq, hOdd]
    · simp [hMore, Nat.not_lt.mpr hMore.le]

theorem scaledQuotient_eq {num den n : Nat} {exponent : Int} (hDen : 0 < den)
    (h : IsNearest (num / den / 2 ^ exponent) n) : scaledQuotient num den exponent = n := by
  cases exponent with
  | ofNat k =>
      have hScaled : (num / den / 2 ^ (Int.ofNat k) : ℚ) = num / (den * 2 ^ k : Nat) := by
        rw [Int.ofNat_eq_natCast, zpow_natCast, div_div]
        push_cast
        rfl
      rw [hScaled] at h
      exact nearestEven_eq (Nat.mul_pos hDen (Nat.two_pow_pos k)) h
  | negSucc k =>
      have hScaled : (num / den / 2 ^ (Int.negSucc k) : ℚ) = (num * 2 ^ (k + 1) : Nat) / den := by
        rw [zpow_negSucc, div_inv_eq_mul, div_mul_eq_mul_div]
        push_cast
        rfl
      rw [hScaled] at h
      exact nearestEven_eq hDen h

theorem powerLe_iff (num : Nat) {den : Nat} (exponent : Int) (hDen : 0 < den) :
    powerLe exponent num den = true ↔ (2 : ℚ) ^ exponent ≤ num / den := by
  have hDen' : (0 : ℚ) < den := by exact_mod_cast hDen
  cases exponent with
  | ofNat k =>
      rw [powerLe, decide_eq_true_iff, Int.ofNat_eq_natCast, zpow_natCast, le_div_iff₀ hDen',
        mul_comm]
      exact_mod_cast Iff.rfl
  | negSucc k =>
      rw [powerLe, decide_eq_true_iff, zpow_negSucc, le_div_iff₀ hDen', inv_mul_eq_div,
        div_le_iff₀ (by positivity)]
      exact_mod_cast Iff.rfl

/-- A natural lies between two powers of two, as its binary length says. -/
theorem two_zpow_log2 {n : Nat} (h : 0 < n) :
    (2 : ℚ) ^ (n.log2 : Int) ≤ n ∧ (n : ℚ) < 2 ^ ((n.log2 : Int) + 1) := by
  have hLow := Nat.log2_self_le h.ne'
  have hHigh := Nat.lt_log2_self (n := n)
  constructor
  · rw [zpow_natCast]
    exact_mod_cast hLow
  · have hCast : ((n.log2 : Int) + 1) = ((n.log2 + 1 : Nat) : Int) := by push_cast; rfl
    rw [hCast, zpow_natCast]
    exact_mod_cast hHigh

/-- The binary length of a quotient is that of its parts, up to one. -/
theorem ratio_log2 {num den : Nat} (hNum : 0 < num) (hDen : 0 < den) :
    (2 : ℚ) ^ ((num.log2 : Int) - den.log2 - 1) ≤ num / den ∧
      (num / den : ℚ) < 2 ^ ((num.log2 : Int) - den.log2 + 1) := by
  obtain ⟨hNumLow, hNumHigh⟩ := two_zpow_log2 hNum
  obtain ⟨hDenLow, hDenHigh⟩ := two_zpow_log2 hDen
  have hDen' : (0 : ℚ) < den := by exact_mod_cast hDen
  constructor
  · rw [le_div_iff₀ hDen']
    calc (2 : ℚ) ^ ((num.log2 : Int) - den.log2 - 1) * den
        ≤ 2 ^ ((num.log2 : Int) - den.log2 - 1) * 2 ^ ((den.log2 : Int) + 1) := by gcongr
      _ = 2 ^ (num.log2 : Int) := by rw [← zpow_add₀ two_ne_zero]; congr 1; ring
      _ ≤ num := hNumLow
  · rw [div_lt_iff₀ hDen']
    calc (num : ℚ) < 2 ^ ((num.log2 : Int) + 1) := hNumHigh
      _ = 2 ^ ((num.log2 : Int) - den.log2 + 1) * 2 ^ (den.log2 : Int) := by
          rw [← zpow_add₀ two_ne_zero]; congr 1; ring
      _ ≤ 2 ^ ((num.log2 : Int) - den.log2 + 1) * den := by gcongr

/-- The leading power of two is at or below a quotient, and the next is above. -/
theorem leadingPower_spec {num den : Nat} (hNum : 0 < num) (hDen : 0 < den) :
    (2 : ℚ) ^ leadingPower num den ≤ num / den ∧
      (num / den : ℚ) < 2 ^ (leadingPower num den + 1) := by
  obtain ⟨hLow, hHigh⟩ := ratio_log2 hNum hDen
  have hPower := powerLe_iff num ((num.log2 : Int) - den.log2) hDen
  unfold leadingPower
  by_cases hGuess : powerLe ((num.log2 : Int) - den.log2) num den = true
  · simp only [hGuess, if_true]
    exact ⟨hPower.mp hGuess, hHigh⟩
  · simp only [hGuess]
    refine ⟨hLow, ?_⟩
    rw [hPower, not_le] at hGuess
    simpa using hGuess

/-- A power of two that is at or below a number is no greater than its leading one. -/
theorem le_leadingPower {num den : Nat} {exponent : Int} (hNum : 0 < num) (hDen : 0 < den)
    (h : (2 : ℚ) ^ exponent ≤ num / den) : exponent ≤ leadingPower num den := by
  have hLess := h.trans_lt (leadingPower_spec hNum hDen).2
  have := (zpow_lt_zpow_iff_right₀ (by norm_num : (1 : ℚ) < 2)).mp hLess
  omega

theorem leadingPower_lt {num den : Nat} {exponent : Int} (hNum : 0 < num) (hDen : 0 < den)
    (h : (num / den : ℚ) < 2 ^ exponent) : leadingPower num den < exponent := by
  have hLess := (leadingPower_spec hNum hDen).1.trans_lt h
  exact (zpow_lt_zpow_iff_right₀ (by norm_num : (1 : ℚ) < 2)).mp hLess

/-- The value of a mantissa and an exponent. -/
def value (mantissa : Nat) (exponent : Int) : ℚ := mantissa * 2 ^ exponent

/-- Half way to the neighbour below. -/
def lowEnd (mantissa : Nat) (exponent : Int) : ℚ :=
  if mantissa = 2 ^ 52 ∧ -1074 < exponent then (4 * mantissa - 1) * 2 ^ (exponent - 2)
  else (2 * mantissa - 1) * 2 ^ (exponent - 1)

/-- Half way to the neighbour above. -/
def highEnd (mantissa : Nat) (exponent : Int) : ℚ := (2 * mantissa + 1) * 2 ^ (exponent - 1)

/-- The numbers that round to a double. Its ends count if the mantissa is even. -/
structure RoundsTo (y : ℚ) (mantissa : Nat) (exponent : Int) : Prop where
  above : lowEnd mantissa exponent ≤ y
  below : y ≤ highEnd mantissa exponent
  even_of_end : y = lowEnd mantissa exponent ∨ y = highEnd mantissa exponent → mantissa % 2 = 0

section

variable {y : ℚ} {mantissa : Nat} {exponent : Int}

theorem highEnd_eq (mantissa : Nat) (exponent : Int) : highEnd mantissa exponent = (mantissa + 1 / 2) * 2 ^ exponent := by
  rw [highEnd, zpow_sub_one₀ two_ne_zero]
  ring

/-- The end below a power of two is a quarter of a step away, others half a step. -/
theorem lowEnd_cases (mantissa : Nat) (exponent : Int) :
    (mantissa = 2 ^ 52 ∧ lowEnd mantissa exponent = (mantissa - 1 / 4) * 2 ^ exponent) ∨
      lowEnd mantissa exponent = (mantissa - 1 / 2) * 2 ^ exponent := by
  unfold lowEnd
  split
  · rename_i hPower
    left
    rw [zpow_sub₀ two_ne_zero]
    refine ⟨hPower.1, ?_⟩
    norm_num
    ring
  · right
    rw [zpow_sub_one₀ two_ne_zero]
    ring

/-- Below a power of two the end is nearer than half a step. -/
theorem le_lowEnd (mantissa : Nat) (exponent : Int) : ((mantissa : ℚ) - 1 / 2) * 2 ^ exponent ≤ lowEnd mantissa exponent := by
  have hPositive : (0 : ℚ) < 2 ^ exponent := by positivity
  rcases lowEnd_cases mantissa exponent with ⟨-, hEnd⟩ | hEnd
  · rw [hEnd]
    linarith
  · exact hEnd.ge

theorem lowEnd_pos (hPositive : 0 < mantissa) : 0 < lowEnd mantissa exponent := by
  have hHalf : (1 : ℚ) ≤ mantissa := by exact_mod_cast hPositive
  refine lt_of_lt_of_le ?_ (le_lowEnd _ _)
  exact mul_pos (by linarith) (by positivity)

theorem highEnd_lt (hBound : mantissa < 2 ^ 53) : highEnd mantissa exponent < 2 ^ (exponent + 53) := by
  have hBound' : (mantissa : ℚ) + 1 ≤ 2 ^ 53 := by exact_mod_cast hBound
  have hPositive : (0 : ℚ) < 2 ^ exponent := by positivity
  have hPower : (2 : ℚ) ^ (exponent + 53) = 2 ^ 53 * 2 ^ exponent := by
    rw [zpow_add₀ two_ne_zero, mul_comm]
    norm_num
  rw [highEnd_eq, hPower]
  exact mul_lt_mul_of_pos_right (by linarith) hPositive

/-- Everything strictly between the ends rounds to a double. -/
theorem RoundsTo.of_between (hLow : lowEnd mantissa exponent < y)
    (hHigh : y < highEnd mantissa exponent) : RoundsTo y mantissa exponent :=
  ⟨hLow.le, hHigh.le, fun h => h.elim (fun h => (hLow.ne' h).elim) fun h => (hHigh.ne h).elim⟩

/-- In its own binade a double is the nearest natural number of steps. -/
theorem RoundsTo.isNearest (h : RoundsTo y mantissa exponent) :
    IsNearest (y / 2 ^ exponent) mantissa := by
  have hPositive : (0 : ℚ) < 2 ^ exponent := by positivity
  have hLow := le_lowEnd mantissa exponent
  refine ⟨?_, ?_, ?_⟩
  · rw [le_div_iff₀ hPositive]
    exact hLow.trans h.above
  · rw [div_le_iff₀ hPositive, ← highEnd_eq]
    exact h.below
  · rintro (hTie | hTie)
    · rw [div_eq_iff hPositive.ne'] at hTie
      exact h.even_of_end (Or.inl (le_antisymm (hTie.trans_le hLow) h.above))
    · rw [div_eq_iff hPositive.ne', ← highEnd_eq] at hTie
      exact h.even_of_end (Or.inr hTie)

/-- What is just below a power of two is rounded with the smaller steps there. -/
theorem RoundsTo.isNearest_below (h : RoundsTo y (2 ^ 52) exponent) (hExponent : -1074 < exponent)
    (hBelow : y < 2 ^ (exponent + 52)) : IsNearest (y / 2 ^ (exponent - 1)) (2 ^ 53) := by
  have hPositive : (0 : ℚ) < 2 ^ (exponent - 1) := by positivity
  have hLow : lowEnd (2 ^ 52) exponent = (2 ^ 53 - 1 / 2) * 2 ^ (exponent - 1) := by
    have hStep : (2 : ℚ) ^ (exponent - 1) = 2 * 2 ^ (exponent - 2) := by
      rw [← zpow_one_add₀ two_ne_zero]
      congr 1
      ring
    rw [lowEnd, if_pos ⟨rfl, hExponent⟩, hStep]
    push_cast
    ring
  have hPower : (2 : ℚ) ^ (exponent + 52) = 2 ^ 53 * 2 ^ (exponent - 1) := by
    rw [← zpow_natCast, ← zpow_add₀ two_ne_zero]
    congr 1
    ring
  have hAbove := h.above
  rw [hLow] at hAbove
  rw [hPower] at hBelow
  refine ⟨?_, ?_, fun _ => rfl⟩
  · rw [le_div_iff₀ hPositive]
    push_cast
    exact hAbove
  · rw [div_le_iff₀ hPositive]
    push_cast
    linarith

end

theorem ofRatio_of_scaledQuotient {num den mantissa : Nat} {exponent : Int} (negative : Bool)
    (hCanonical : Canonical mantissa exponent) (hNum : 0 < num) (hDen : 0 < den)
    (hExponent : max (leadingPower num den - 52) (-1074) = exponent)
    (h : IsNearest (num / den / 2 ^ exponent) mantissa) :
    ofRatio negative num den = .finite negative mantissa exponent hCanonical := by
  have hMantissa := scaledQuotient_eq hDen h
  have hSmall : mantissa ≠ Nat.pow 2 53 := hCanonical.1.ne
  unfold ofRatio
  rw [if_neg hNum.ne']
  simp only [hExponent, hMantissa, hSmall, if_false, ofParts, hCanonical, dif_pos]

/-- What rounds to a mantissa above the least full one is in its own binade. -/
theorem RoundsTo.two_zpow_le {y : ℚ} {mantissa : Nat} {exponent : Int}
    (h : RoundsTo y mantissa exponent) (hNormal : 2 ^ 52 < mantissa) :
    2 ^ (exponent + 52) ≤ y := by
  have hPositive : (0 : ℚ) < 2 ^ exponent := by positivity
  have hNormal' : (2 : ℚ) ^ 52 + 1 ≤ mantissa := by exact_mod_cast hNormal
  have hPower : (2 : ℚ) ^ (exponent + 52) = 2 ^ 52 * 2 ^ exponent := by
    rw [zpow_add₀ two_ne_zero, mul_comm]
    norm_num
  rw [hPower]
  calc (2 : ℚ) ^ 52 * 2 ^ exponent ≤ (mantissa - 1 / 2) * 2 ^ exponent := by
        apply mul_le_mul_of_nonneg_right _ hPositive.le
        linarith
    _ ≤ lowEnd mantissa exponent := le_lowEnd _ _
    _ ≤ y := h.above

/-- Just below a power of two the mantissa is rounded up to all its digits and one
more, which moves into the exponent. -/
theorem ofRatio_below {num den : Nat} {exponent : Int} (negative : Bool)
    (hCanonical : Canonical (2 ^ 52) exponent) (hNum : 0 < num) (hDen : 0 < den)
    (h : RoundsTo (num / den) (2 ^ 52) exponent) (hExponent : -1074 < exponent)
    (hBelow : (num / den : ℚ) < 2 ^ (exponent + 52)) :
    ofRatio negative num den = .finite negative (2 ^ 52) exponent hCanonical := by
  have hNearest := h.isNearest_below hExponent hBelow
  have hHalf : (2 : ℚ) ^ (exponent + 51) ≤ num / den := by
    have hPositive : (0 : ℚ) < 2 ^ exponent := by positivity
    have hPower : (2 : ℚ) ^ (exponent + 51) = 2 ^ 51 * 2 ^ exponent := by
      rw [zpow_add₀ two_ne_zero, mul_comm]
      norm_num
    rw [hPower]
    calc (2 : ℚ) ^ 51 * 2 ^ exponent ≤ (((2 ^ 52 : Nat) : ℚ) - 1 / 2) * 2 ^ exponent := by
          apply mul_le_mul_of_nonneg_right _ hPositive.le
          norm_num
      _ ≤ lowEnd (2 ^ 52) exponent := le_lowEnd _ _
      _ ≤ num / den := h.above
  have hLess := leadingPower_lt hNum hDen hBelow
  have hLeast := le_leadingPower hNum hDen hHalf
  have hLeading : max (leadingPower num den - 52) (-1074) = exponent - 1 := by omega
  have hMantissa := scaledQuotient_eq hDen hNearest
  have hParts : Canonical (Nat.pow 2 52) (exponent - 1 + 1) := by
    rw [sub_add_cancel]
    exact hCanonical
  unfold ofRatio
  rw [if_neg hNum.ne']
  simp only [hLeading, hMantissa]
  have hFull : (2 ^ 53 : Nat) = Nat.pow 2 53 := rfl
  rw [if_pos hFull, ofParts, dif_pos hParts]
  congr 1
  exact sub_add_cancel ..

/-- A quotient between the ends of a double rounds to it. -/
theorem ofRatio_eq {num den mantissa : Nat} {exponent : Int} (negative : Bool)
    (hCanonical : Canonical mantissa exponent) (hMantissa : 0 < mantissa) (hDen : 0 < den)
    (h : RoundsTo (num / den) mantissa exponent) :
    ofRatio negative num den = .finite negative mantissa exponent hCanonical := by
  obtain ⟨hBound, hLeast, -, hNormal⟩ := id hCanonical
  have hNum : 0 < num := by
    rcases Nat.eq_zero_or_pos num with rfl | hNum
    · have := (lowEnd_pos hMantissa).trans_le h.above
      simp at this
    · exact hNum
  have hUpper := leadingPower_lt hNum hDen (h.below.trans_lt (highEnd_lt hBound))
  by_cases hSubnormal : exponent = -1074
  · refine ofRatio_of_scaledQuotient negative hCanonical hNum hDen ?_ h.isNearest
    omega
  · have hFull : 2 ^ 52 ≤ mantissa := hNormal.resolve_right hSubnormal
    by_cases hBelow : (num / den : ℚ) < 2 ^ (exponent + 52)
    · have hPower : mantissa = 2 ^ 52 := by
        by_contra hMore
        have := h.two_zpow_le (by omega)
        exact absurd hBelow (not_lt.mpr this)
      subst hPower
      exact ofRatio_below negative hCanonical hNum hDen h (by omega) hBelow
    · refine ofRatio_of_scaledQuotient negative hCanonical hNum hDen ?_ h.isNearest
      have := le_leadingPower hNum hDen (not_lt.mp hBelow)
      omega

section

variable {y : ℚ} {mantissa : Nat} {exponent : Int}

/-- No finite double reaches the bound from which on numbers count as infinite. -/
theorem RoundsTo.lt_ten_pow (h : RoundsTo y mantissa exponent)
    (hCanonical : Canonical mantissa exponent) : y < 10 ^ 400 := by
  calc y ≤ highEnd mantissa exponent := h.below
    _ < 2 ^ (exponent + 53) := highEnd_lt hCanonical.1
    _ ≤ 2 ^ ((1024 : Nat) : Int) := by
        apply zpow_le_zpow_right₀ (by norm_num)
        have := hCanonical.2.2.1
        omega
    _ = (2 ^ 128) ^ 8 := by rw [zpow_natCast, ← pow_mul]
    _ ≤ (10 ^ 50) ^ 8 := pow_le_pow_left₀ (by norm_num) (by norm_num) 8
    _ = 10 ^ 400 := by rw [← pow_mul]

/-- No positive double is below the bound under which numbers count as zero. -/
theorem RoundsTo.ten_zpow_lt (h : RoundsTo y mantissa exponent)
    (hCanonical : Canonical mantissa exponent) (hMantissa : 0 < mantissa) :
    (10 : ℚ) ^ (-330 : Int) ≤ y := by
  have hHalf : (1 / 2 : ℚ) ≤ mantissa - 1 / 2 := by
    have : (1 : ℚ) ≤ mantissa := by exact_mod_cast hMantissa
    linarith
  have hPowers : (2 : ℚ) ^ 1075 ≤ 10 ^ 330 := by
    calc (2 : ℚ) ^ 1075 = (2 ^ 215) ^ 5 := by rw [← pow_mul]
      _ ≤ (10 ^ 66) ^ 5 := pow_le_pow_left₀ (by norm_num) (by norm_num) 5
      _ = 10 ^ 330 := by rw [← pow_mul]
  calc (10 : ℚ) ^ (-330 : Int) = (10 ^ 330)⁻¹ := by
        rw [zpow_neg]
        rfl
    _ ≤ (2 ^ 1075)⁻¹ := inv_anti₀ (by positivity) hPowers
    _ = 2 ^ (-1075 : Int) := by
        rw [zpow_neg]
        rfl
    _ ≤ 2 ^ (exponent - 1) := by
        apply zpow_le_zpow_right₀ (by norm_num)
        have := hCanonical.2.1
        omega
    _ = 1 / 2 * 2 ^ exponent := by
        rw [zpow_sub_one₀ two_ne_zero]
        ring
    _ ≤ (mantissa - 1 / 2) * 2 ^ exponent := mul_le_mul_of_nonneg_right hHalf (by positivity)
    _ ≤ lowEnd mantissa exponent := le_lowEnd _ _
    _ ≤ y := h.above

end

/-- A decimal is below the power of ten that its binary length allows. -/
theorem lt_ten_pow_log2 (digits : Nat) : (digits : ℚ) < 10 ^ (digits.log2 / 3 + 1) := by
  have hNat : digits < 10 ^ (digits.log2 / 3 + 1) := by
    calc digits < 2 ^ (digits.log2 + 1) := Nat.lt_log2_self
      _ ≤ 2 ^ (3 * (digits.log2 / 3 + 1)) := Nat.pow_le_pow_right (by norm_num) (by omega)
      _ = 8 ^ (digits.log2 / 3 + 1) := Nat.pow_mul ..
      _ ≤ 10 ^ (digits.log2 / 3 + 1) := Nat.pow_le_pow_left (by norm_num) _
  exact_mod_cast hNat

/-- A decimal between the ends of a double rounds to it. The bounds by which large
and small decimals are settled are never in the way. -/
theorem ofDecimal_eq {digits mantissa : Nat} {scale exponent : Int} (negative : Bool)
    (hCanonical : Canonical mantissa exponent) (hMantissa : 0 < mantissa)
    (h : RoundsTo (digits * 10 ^ scale) mantissa exponent) :
    ofDecimal negative digits scale = .finite negative mantissa exponent hCanonical := by
  have hTen : (0 : ℚ) < 10 ^ scale := by positivity
  have hDigits : digits ≠ 0 := by
    rintro rfl
    have := (lowEnd_pos hMantissa).trans_le h.above
    simp at this
  have hLarge : ¬400 < scale := by
    intro hScale
    have hOne : (1 : ℚ) ≤ digits := by exact_mod_cast Nat.one_le_iff_ne_zero.mpr hDigits
    have hPower : (10 : ℚ) ^ ((400 : Nat) : Int) ≤ 10 ^ scale :=
      zpow_le_zpow_right₀ (by norm_num) (by omega)
    rw [zpow_natCast] at hPower
    have hLess := h.lt_ten_pow hCanonical
    have hMore := le_mul_of_one_le_left hTen.le hOne
    exact absurd (hPower.trans hMore) (not_le.mpr hLess)
  have hSmall : ¬scale + digits.log2 / 3 + 1 < -330 := by
    intro hScale
    have hPower : (10 : ℚ) ^ (digits.log2 / 3 + 1) * 10 ^ scale ≤ 10 ^ (-330 : Int) := by
      rw [← zpow_natCast, ← zpow_add₀ (by norm_num)]
      apply zpow_le_zpow_right₀ (by norm_num)
      push_cast
      omega
    have hLess := mul_lt_mul_of_pos_right (lt_ten_pow_log2 digits) hTen
    have := h.ten_zpow_lt hCanonical hMantissa
    linarith
  unfold ofDecimal
  rw [if_neg hDigits, if_neg hLarge, if_neg hSmall]
  cases scale with
  | ofNat k =>
      apply ofRatio_eq negative hCanonical hMantissa Nat.one_pos
      have hValue : ((digits * Nat.pow 10 k : Nat) : ℚ) / (1 : Nat) = digits * 10 ^ (Int.ofNat k) := by
        rw [Int.ofNat_eq_natCast, zpow_natCast, Nat.pow_eq]
        push_cast
        rw [div_one]
      rw [hValue]
      exact h
  | negSucc k =>
      apply ofRatio_eq negative hCanonical hMantissa (Nat.pow_pos (by norm_num))
      have hValue : (digits : ℚ) / (10 ^ (k + 1) : Nat) = digits * 10 ^ (Int.negSucc k) := by
        rw [zpow_negSucc, div_eq_mul_inv]
        push_cast
        rfl
      rw [hValue]
      exact h

end SchemaModels.Binary64
