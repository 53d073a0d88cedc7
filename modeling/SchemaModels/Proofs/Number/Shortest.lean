import SchemaModels.Number.Shortest
import SchemaModels.Proofs.Number.Rounding

/-!
The shortest decimal of a double rounds to that double. With seventeen digits a
decimal grid is finer than the steps between doubles, so the search always ends
with a decimal between the ends of the double.
-/
namespace SchemaModels.Decimal

open Binary64 (Canonical RoundsTo lowEnd highEnd)

/-- The value of a quotient. -/
def Ratio.value (r : Ratio) : ℚ := r.1 / r.2

theorem lt_iff (digits : Nat) (scale : Int) {bound : Ratio} (h : 0 < bound.2) :
    lt digits scale bound = true ↔ (digits * 10 ^ scale : ℚ) < bound.value := by
  have h' : (0 : ℚ) < bound.2 := by exact_mod_cast h
  cases scale with
  | ofNat k =>
      rw [lt, decide_eq_true_iff, Nat.pow_eq, Int.ofNat_eq_natCast, zpow_natCast, Ratio.value,
        lt_div_iff₀ h']
      exact_mod_cast Iff.rfl
  | negSucc k =>
      rw [lt, decide_eq_true_iff, Nat.pow_eq, zpow_negSucc, Ratio.value, ← div_eq_mul_inv,
        div_lt_div_iff₀ (by positivity) h']
      exact_mod_cast Iff.rfl

theorem eq_iff (digits : Nat) (scale : Int) {bound : Ratio} (h : 0 < bound.2) :
    eq digits scale bound = true ↔ (digits * 10 ^ scale : ℚ) = bound.value := by
  have h' : (bound.2 : ℚ) ≠ 0 := by exact_mod_cast h.ne'
  cases scale with
  | ofNat k =>
      rw [eq, beq_iff_eq, Nat.pow_eq, Int.ofNat_eq_natCast, zpow_natCast, Ratio.value,
        eq_div_iff h']
      exact_mod_cast Iff.rfl
  | negSucc k =>
      rw [eq, beq_iff_eq, Nat.pow_eq, zpow_negSucc, Ratio.value, ← div_eq_mul_inv,
        div_eq_div_iff (by positivity) h']
      exact_mod_cast Iff.rfl

/-- A value lies on a step of a grid or before the next one. -/
theorem floor_spec (scale : Int) {value : Ratio} (h : 0 < value.2) :
    (floor scale value * 10 ^ scale : ℚ) ≤ value.value ∧
      value.value < (floor scale value + 1) * 10 ^ scale := by
  have h' : (0 : ℚ) < value.2 := by exact_mod_cast h
  cases scale with
  | ofNat k =>
      have hStep : 0 < value.2 * Nat.pow 10 k := Nat.mul_pos h (Nat.pow_pos (by norm_num))
      have hLow := Nat.div_mul_le_self value.1 (value.2 * Nat.pow 10 k)
      have hHigh := Nat.lt_div_mul_add (a := value.1) hStep
      rw [floor]
      generalize value.1 / (value.2 * Nat.pow 10 k) = n at *
      rw [Int.ofNat_eq_natCast, zpow_natCast, Ratio.value, le_div_iff₀ h', div_lt_iff₀ h']
      rw [Nat.pow_eq] at hLow hHigh
      constructor
      · have hLow' : (n * (value.2 * 10 ^ k) : ℚ) ≤ value.1 := by exact_mod_cast hLow
        linarith
      · have hHigh' : (value.1 : ℚ) < n * (value.2 * 10 ^ k) + value.2 * 10 ^ k := by
          exact_mod_cast hHigh
        linarith
  | negSucc k =>
      have hPower : (0 : ℚ) < 10 ^ (k + 1) := by positivity
      have hLow := Nat.div_mul_le_self (value.1 * Nat.pow 10 (k + 1)) value.2
      have hHigh := Nat.lt_div_mul_add (a := value.1 * Nat.pow 10 (k + 1)) h
      rw [floor]
      generalize value.1 * Nat.pow 10 (k + 1) / value.2 = n at *
      rw [zpow_negSucc, Ratio.value, ← div_eq_mul_inv, ← div_eq_mul_inv,
        div_le_div_iff₀ hPower h', div_lt_div_iff₀ h' hPower]
      rw [Nat.pow_eq] at hLow hHigh
      constructor
      · exact_mod_cast hLow
      · have hHigh' : (value.1 * 10 ^ (k + 1) : ℚ) < n * value.2 + value.2 := by
          exact_mod_cast hHigh
        linarith

theorem binaryRatio_pos (mantissa : Nat) (exponent : Int) :
    0 < (binaryRatio mantissa exponent).2 := by
  cases exponent with
  | ofNat k => exact Nat.one_pos
  | negSucc k => exact Nat.two_pow_pos (k + 1)

theorem binaryRatio_value (mantissa : Nat) (exponent : Int) :
    (binaryRatio mantissa exponent).value = mantissa * 2 ^ exponent := by
  cases exponent with
  | ofNat k =>
      rw [binaryRatio, Ratio.value, Nat.pow_eq, Int.ofNat_eq_natCast, zpow_natCast]
      push_cast
      exact div_one _
  | negSucc k =>
      rw [binaryRatio, Ratio.value, Nat.pow_eq, zpow_negSucc, div_eq_mul_inv]
      push_cast
      rfl

theorem interval_low {mantissa : Nat} (exponent : Int) (hMantissa : 0 < mantissa) :
    (interval mantissa exponent).low.value = lowEnd mantissa exponent ∧
      0 < (interval mantissa exponent).low.2 := by
  unfold interval lowEnd
  by_cases hPower : mantissa = 2 ^ 52 ∧ -1074 < exponent
  · simp only [Nat.pow_eq, if_pos hPower]
    refine ⟨?_, binaryRatio_pos _ _⟩
    rw [binaryRatio_value, Nat.cast_sub (by omega)]
    push_cast
    rfl
  · simp only [Nat.pow_eq, if_neg hPower]
    refine ⟨?_, binaryRatio_pos _ _⟩
    rw [binaryRatio_value, Nat.cast_sub (by omega)]
    push_cast
    rfl

theorem interval_high (mantissa : Nat) (exponent : Int) :
    (interval mantissa exponent).high.value = highEnd mantissa exponent ∧
      0 < (interval mantissa exponent).high.2 := by
  refine ⟨?_, binaryRatio_pos _ _⟩
  rw [interval, binaryRatio_value, highEnd]
  push_cast
  rfl

/-- The interval of a double has the numbers that round to it. -/
theorem contains_iff {mantissa : Nat} {exponent : Int} (hMantissa : 0 < mantissa) {digits : Nat} {scale : Int} :
    (interval mantissa exponent).contains digits scale = true ↔
      RoundsTo (digits * 10 ^ scale) mantissa exponent := by
  obtain ⟨hLow, hLowPos⟩ := interval_low exponent hMantissa
  obtain ⟨hHigh, hHighPos⟩ := interval_high mantissa exponent
  have hClosed : (interval mantissa exponent).closed = true ↔ mantissa % 2 = 0 := beq_iff_eq
  have hLtLow := lt_iff digits scale hLowPos
  have hEqLow := eq_iff digits scale hLowPos
  have hLtHigh := lt_iff digits scale hHighPos
  have hEqHigh := eq_iff digits scale hHighPos
  rw [hLow] at hLtLow hEqLow
  rw [hHigh] at hLtHigh hEqHigh
  simp only [Interval.contains, Bool.and_eq_true, Bool.or_eq_true, Bool.not_eq_true',
    ← Bool.not_eq_true, hLtLow, hEqLow, hLtHigh, hEqHigh, hClosed, not_lt]
  generalize (digits * 10 ^ scale : ℚ) = y
  constructor
  · rintro ⟨⟨hAbove, hLowTie⟩, hBelow⟩
    refine ⟨hAbove, hBelow.elim le_of_lt fun h => h.2.le, ?_⟩
    rintro (hTie | hTie)
    · exact hLowTie.resolve_right fun h => h hTie
    · exact hBelow.elim (fun h => absurd hTie h.ne) fun h => h.1
  · intro h
    refine ⟨⟨h.above, ?_⟩, ?_⟩
    · by_cases hTie : y = lowEnd mantissa exponent
      · exact Or.inl (h.even_of_end (Or.inl hTie))
      · exact Or.inr hTie
    · rcases h.below.lt_or_eq with hLess | hTie
      · exact Or.inl hLess
      · exact Or.inr ⟨h.even_of_end (Or.inr hTie), hTie⟩

theorem onGrid?_contains {i : Interval} {value : Ratio} {scale : Int} {digits : Nat}
    (h : onGrid? i value scale = some digits) : i.contains digits scale = true := by
  unfold onGrid? at h
  dsimp only at h
  split at h
  · cases h
    assumption
  · cases h
    assumption
  · cases h
  · rename_i hLow hHigh
    split at h
    · cases h
      exact hHigh
    · split at h
      · cases h
        split <;> assumption
      · cases h
        exact hLow

theorem onGrid?_eq_none {i : Interval} {value : Ratio} {scale : Int}
    (h : onGrid? i value scale = none) :
    i.contains (floor scale value) scale = false ∧
      i.contains (floor scale value + 1) scale = false := by
  unfold onGrid? at h
  dsimp only at h
  split at h
  · cases h
  · cases h
  · exact ⟨by assumption, by assumption⟩
  · split at h
    · cases h
    · split at h
      · cases h
      · cases h

/-- Powers of two bases compare like two powers of them that are known. -/
theorem pow_le_pow_of_known {a b u v p q : Nat} (hu : u ≠ 0) (hb : 0 < b) (hKnown : a ^ u ≤ b ^ v)
    (h : v * p ≤ u * q) : a ^ p ≤ b ^ q := by
  rw [← Nat.pow_le_pow_iff_left hu]
  calc (a ^ p) ^ u = (a ^ u) ^ p := by rw [← pow_mul, ← pow_mul, mul_comm]
    _ ≤ (b ^ v) ^ p := Nat.pow_le_pow_left hKnown p
    _ = b ^ (v * p) := by rw [← pow_mul]
    _ ≤ b ^ (u * q) := Nat.pow_le_pow_right hb h
    _ = (b ^ q) ^ u := by rw [← pow_mul, mul_comm]

/-- Powers of ten and two with exponents that are close to each other in the
ratio of their logarithms. -/
theorem ten_zpow_le_two_zpow {place length : Int} (hLength : -2000 ≤ length ∧ length ≤ 2000)
    (hPlace : 100000 * (place + 1) ≤ 30103 * length) :
    (10 : ℚ) ^ place ≤ 2 ^ length := by
  rcases lt_or_ge length 0 with hNegative | hNonnegative
  · obtain ⟨p, rfl⟩ : ∃ p : Nat, place = -p := ⟨place.natAbs, by omega⟩
    obtain ⟨l, rfl⟩ : ∃ l : Nat, length = -l := ⟨length.natAbs, by omega⟩
    have hPowers : 2 ^ l ≤ 10 ^ p :=
      pow_le_pow_of_known (by decide : 93 ≠ 0) (by decide) (by norm_num : 2 ^ 93 ≤ 10 ^ 28)
        (by omega)
    rw [zpow_neg, zpow_neg, zpow_natCast, zpow_natCast]
    apply inv_anti₀ (by positivity)
    exact_mod_cast hPowers
  · obtain ⟨l, rfl⟩ : ∃ l : Nat, length = l := ⟨length.natAbs, by omega⟩
    rcases lt_or_ge place 0 with hSmall | hPlaces
    · calc (10 : ℚ) ^ place ≤ 1 := zpow_le_one_of_nonpos₀ (by norm_num) hSmall.le
        _ ≤ 2 ^ (l : Int) := one_le_zpow₀ (by norm_num) (by omega)
    · obtain ⟨p, rfl⟩ : ∃ p : Nat, place = p := ⟨place.natAbs, by omega⟩
      have hPowers : 10 ^ p ≤ 2 ^ l :=
        pow_le_pow_of_known (by decide : 59 ≠ 0) (by decide) (by norm_num : 10 ^ 59 ≤ 2 ^ 196)
          (by omega)
      rw [zpow_natCast, zpow_natCast]
      exact_mod_cast hPowers

/-- The decimal exponent of a quotient that is found from its binary length is not
too large. -/
theorem leadingPlace_le {value : Ratio} (hNum : 0 < value.1) (hDen : 0 < value.2)
    (hLength : value.1.log2 ≤ 1100 ∧ value.2.log2 ≤ 1100) :
    (10 : ℚ) ^ leadingPlace value ≤ value.value := by
  have hGuess : (10 : ℚ) ^ (((value.1.log2 : Int) - value.2.log2 - 1) * 30103 / 100000 - 1) ≤
      value.value := by
    refine le_trans (ten_zpow_le_two_zpow (by omega) ?_) (Binary64.ratio_log2 hNum hDen).1
    omega
  unfold leadingPlace
  dsimp only
  split
  · rename_i k hFound
    have hBelow := List.find?_some hFound
    have hLt := lt_iff 1
      (((value.1.log2 : Int) - value.2.log2 - 1) * 30103 / 100000 - 1 + k) hDen
    have hEq := eq_iff 1
      (((value.1.log2 : Int) - value.2.log2 - 1) * 30103 / 100000 - 1 + k) hDen
    rw [Nat.cast_one, one_mul] at hLt hEq
    simp only [Bool.not_eq_true', Bool.and_eq_false_iff, Bool.not_eq_false', hLt, hEq] at hBelow
    exact hBelow.elim le_of_lt le_of_eq
  · exact hGuess

theorem log2_le_of_lt {n k : Nat} (h : n < 2 ^ k) : n.log2 ≤ k := by
  rcases Nat.eq_zero_or_pos n with rfl | hPositive
  · simp
  · exact ((Nat.log2_lt hPositive.ne').mpr h).le

/-- The parts of the quotient of a double are no longer than its exponents allow. -/
theorem binaryRatio_log2 {mantissa : Nat} {exponent : Int} (h : Canonical mantissa exponent) :
    (binaryRatio mantissa exponent).1.log2 ≤ 1100 ∧
      (binaryRatio mantissa exponent).2.log2 ≤ 1100 := by
  obtain ⟨hBound, hLeast, hMost, -⟩ := h
  cases exponent with
  | ofNat k =>
      have hSize : mantissa * 2 ^ k < 2 ^ (53 + k) := by
        rw [pow_add]
        exact Nat.mul_lt_mul_of_pos_right hBound (Nat.two_pow_pos k)
      have := log2_le_of_lt hSize
      refine ⟨?_, by change Nat.log2 1 ≤ 1100; decide⟩
      change (mantissa * 2 ^ k).log2 ≤ 1100
      rw [Int.ofNat_eq_natCast] at hMost
      omega
  | negSucc k =>
      have hLog := log2_le_of_lt hBound
      have hPower : (2 ^ (k + 1)).log2 = k + 1 := Nat.log2_two_pow
      refine ⟨by change mantissa.log2 ≤ 1100; omega, ?_⟩
      change (2 ^ (k + 1)).log2 ≤ 1100
      omega

theorem binaryRatio_fst_pos {mantissa : Nat} (exponent : Int) (h : 0 < mantissa) :
    0 < (binaryRatio mantissa exponent).1 := by
  cases exponent with
  | ofNat k => exact Nat.mul_pos h (Nat.two_pow_pos k)
  | negSucc k => exact h

/-- On the grid of seventeen digits there is a point between the ends of a double. -/
theorem exists_onGrid {mantissa : Nat} {exponent : Int} (hCanonical : Canonical mantissa exponent)
    (hMantissa : 0 < mantissa) :
    onGrid? (interval mantissa exponent) (binaryRatio mantissa exponent)
      (leadingPlace (binaryRatio mantissa exponent) - 16) ≠ none := by
  intro hNone
  have hPlace := leadingPlace_le (binaryRatio_fst_pos exponent hMantissa) (binaryRatio_pos _ _)
    (binaryRatio_log2 hCanonical)
  obtain ⟨hLow, hHigh⟩ := onGrid?_eq_none hNone
  obtain ⟨hFloor, hCeil⟩ := floor_spec (leadingPlace (binaryRatio mantissa exponent) - 16)
    (binaryRatio_pos mantissa exponent)
  rw [binaryRatio_value] at hPlace hFloor hCeil
  rw [← Bool.not_eq_true, contains_iff hMantissa] at hLow hHigh
  generalize leadingPlace (binaryRatio mantissa exponent) = place at *
  generalize floor (place - 16) (binaryRatio mantissa exponent) = n at *
  have hStep : (10 : ℚ) ^ (place - 16) * 10 ^ 16 = 10 ^ place := by
    rw [← zpow_natCast, ← zpow_add₀ (by norm_num)]
    congr 1
    ring
  have hUnit : (0 : ℚ) < 2 ^ exponent := by positivity
  have hTop := Binary64.highEnd_eq mantissa exponent
  have hBottom : lowEnd mantissa exponent < mantissa * 2 ^ exponent := by
    rcases Binary64.lowEnd_cases mantissa exponent with ⟨-, hEnd⟩ | hEnd <;>
      rw [hEnd] <;> linarith
  -- neither neighbour on the grid lies between the ends, so a step is wider than they are apart
  have hBelow : (n * 10 ^ (place - 16) : ℚ) ≤ lowEnd mantissa exponent := by
    by_contra hInside
    exact hLow (.of_between (not_le.mp hInside) (by linarith))
  have hAbove : highEnd mantissa exponent ≤ (n + 1) * 10 ^ (place - 16) := by
    by_contra hInside
    rw [Nat.cast_succ] at hHigh
    exact hHigh (.of_between (by linarith) (not_le.mp hInside))
  rcases Binary64.lowEnd_cases mantissa exponent with ⟨hPower, hEnd⟩ | hEnd
  · have hCast : (mantissa : ℚ) = 2 ^ 52 := by exact_mod_cast hPower
    rw [hCast] at hPlace hTop hEnd
    linarith
  · have hBound : (mantissa : ℚ) * 2 ^ exponent ≤ 2 ^ 53 * 2 ^ exponent := by
      apply mul_le_mul_of_nonneg_right _ hUnit.le
      exact_mod_cast hCanonical.1.le
    linarith

/-- Moving zeros into the scale changes no value. -/
theorem strip_value (fuel digits : Nat) (scale : Int) :
    ((strip fuel digits scale).digits * 10 ^ (strip fuel digits scale).scale : ℚ) =
      digits * 10 ^ scale := by
  induction fuel generalizing digits scale with
  | zero => rfl
  | succ fuel ih =>
      rw [strip]
      split
      · rename_i hZero
        have hDigits : (digits : ℚ) = (digits / 10 : Nat) * 10 := by
          exact_mod_cast (Nat.div_mul_cancel (Nat.dvd_of_mod_eq_zero hZero.1)).symm
        rw [ih, zpow_add_one₀ (by norm_num), hDigits]
        ring
      · rfl

/-- The shortest decimal of a double rounds to it. -/
theorem shortest_roundsTo {mantissa : Nat} {exponent : Int} (hCanonical : Canonical mantissa exponent)
    (hMantissa : 0 < mantissa) :
    RoundsTo ((shortest mantissa exponent).digits * 10 ^ (shortest mantissa exponent).scale)
      mantissa exponent := by
  unfold shortest
  dsimp only
  split
  · rename_i digits scale hFound
    obtain ⟨n, -, hFound⟩ := List.exists_of_findSome?_eq_some hFound
    obtain ⟨found, hGrid, hPair⟩ := Option.map_eq_some_iff.mp hFound
    cases hPair
    rw [strip_value, ← contains_iff hMantissa]
    exact onGrid?_contains hGrid
  · rename_i hNone
    rw [List.findSome?_eq_none_iff] at hNone
    have hLast := hNone 16 (by simp)
    rw [Option.map_eq_none_iff] at hLast
    exact (exists_onGrid hCanonical hMantissa hLast).elim

end SchemaModels.Decimal
