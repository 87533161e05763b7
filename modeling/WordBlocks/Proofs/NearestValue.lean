import WordBlocks.Number.Layout
import WordBlocks.Proofs.ShortestDecimal

/-!
Nearest values and shortest decimals, said without the algorithms. `RoundsTo` is rounding to the
nearest value with ties to the even significand, and `Binary64.IsShortest` is a decimal that is
rounded to a value, has the fewest digits, and is the nearest one of these. The interval that a
value covers is just what is rounded to it (`roundsTo_iff_covers`), and the search for the shortest
decimal finds one (`isShortest_shortest`).
-/

namespace WordBlocks

namespace Binary64

/-- The sign as a factor. -/
def sign (x : Binary64) : ℚ :=
  if x.negative then -1 else 1

theorem value_eq (x : Binary64) : x.value = x.sign * x.exactMagnitude := rfl

theorem abs_sign_mul (x : Binary64) (r : ℚ) : |x.sign * r| = |r| := by
  unfold sign
  split <;> simp

theorem exactMagnitude_nonneg (x : Binary64) : 0 ≤ x.exactMagnitude := by
  unfold exactMagnitude
  positivity

theorem exactMagnitude_pos {x : Binary64} (hzero : x.isZero = false) : 0 < x.exactMagnitude :=
  x.covers_exactMagnitude.pos hzero

theorem abs_sign_mul_sub_value (x : Binary64) (r : ℚ) :
    |x.sign * r - x.value| = |r - x.exactMagnitude| := by
  rw [value_eq, ← mul_sub, abs_sign_mul]

theorem abs_sub_exactMagnitude_le (x y : Binary64) {r : ℚ} (hr : 0 ≤ r) :
    |r - y.exactMagnitude| ≤ |x.sign * r - y.value| := by
  have h := abs_abs_sub_abs_le (x.sign * r) y.value
  rwa [abs_sign_mul, value_eq, abs_sign_mul, abs_of_nonneg hr,
    abs_of_nonneg y.exactMagnitude_nonneg] at h

end Binary64

/-- A number is rounded to a value: no value is nearer, and the significand is even if another value
is just as near. An infinity counts as the power of two above the finite values of its sign. -/
structure RoundsTo (r : ℚ) (x : Binary64) : Prop where
  nearest : ∀ y : Binary64, y.isNaN = false → |r - x.value| ≤ |r - y.value|
  even : ∀ y : Binary64, y.isNaN = false → y.value ≠ x.value → |r - x.value| = |r - y.value| →
    x.significand % 2 = 0

namespace Binary64

theorem exists_multiple {x y : Binary64} (h : x.power ≤ y.power) :
    ∃ n : Nat, y.exactMagnitude = n * 2 ^ x.power := by
  refine ⟨y.significand * 2 ^ (y.power - x.power).toNat, ?_⟩
  rw [exactMagnitude]
  push_cast
  rw [← zpow_natCast, mul_assoc, ← zpow_add₀ (by norm_num)]
  congr 2
  omega

theorem exactMagnitude_le_of_power_lt {x y : Binary64} (h : y.power < x.power) :
    y.exactMagnitude ≤ (2 ^ 54 - 2) * 2 ^ (x.power - 2) := by
  have hm : (y.significand : ℚ) ≤ 2 ^ 53 - 1 := by
    have hlt : y.significand + 1 ≤ 2 ^ 53 := y.significand_lt
    have hcast : (y.significand : ℚ) + 1 ≤ 2 ^ 53 := by exact_mod_cast hlt
    linarith
  have hpower : (2 : ℚ) ^ y.power ≤ 2 ^ (x.power - 1) :=
    zpow_le_zpow_right₀ (by norm_num) (by omega)
  calc y.exactMagnitude ≤ (2 ^ 53 - 1) * 2 ^ (x.power - 1) := by
        unfold exactMagnitude
        gcongr
    _ = (2 ^ 54 - 2) * 2 ^ (x.power - 2) := by
        rw [two_zpow_power_sub_one]
        ring

theorem quarters_le_of_lt {x y : Binary64} (h : x.exactMagnitude < y.exactMagnitude) :
    (4 * x.significand + 4) * 2 ^ (x.power - 2) ≤ y.exactMagnitude := by
  have hv : (0 : ℚ) < 2 ^ (x.power - 2) := by positivity
  rcases le_or_gt x.power y.power with hle | hlt
  · obtain ⟨n, hn⟩ := exists_multiple hle
    have hlt : x.significand + 1 ≤ n := by
      rw [hn, exactMagnitude, mul_lt_mul_iff_left₀ (by positivity), Nat.cast_lt] at h
      exact h
    have hcast : (x.significand : ℚ) + 1 ≤ n := by exact_mod_cast hlt
    rw [hn, two_zpow_power]
    linarith [mul_le_mul_of_nonneg_right hcast hv.le]
  · exfalso
    have hfull : 2 ^ 52 ≤ x.significand := le_significand (by have := y.le_power; omega)
    have hcast : (2 : ℚ) ^ 52 ≤ x.significand := by exact_mod_cast hfull
    have hbelow := exactMagnitude_le_of_power_lt hlt
    rw [exactMagnitude_eq] at h
    linarith [mul_le_mul_of_nonneg_right hcast hv.le]

theorem le_quarters_of_lt {x y : Binary64} (h : y.exactMagnitude < x.exactMagnitude) :
    y.exactMagnitude ≤ (4 * x.significand - 2 * x.lowerGap) * 2 ^ (x.power - 2) := by
  have hv : (0 : ℚ) < 2 ^ (x.power - 2) := by positivity
  have hgap : (x.lowerGap : ℚ) ≤ 2 := by exact_mod_cast x.lowerGap_le
  rcases le_or_gt x.power y.power with hle | hlt
  · obtain ⟨n, hn⟩ := exists_multiple hle
    have hlt : n + 1 ≤ x.significand := by
      rw [hn, exactMagnitude, mul_lt_mul_iff_left₀ (by positivity), Nat.cast_lt] at h
      exact h
    have hcast : (n : ℚ) + 1 ≤ x.significand := by exact_mod_cast hlt
    rw [hn, two_zpow_power]
    linarith [mul_le_mul_of_nonneg_right hcast hv.le, mul_le_mul_of_nonneg_right hgap hv.le]
  · have hpower : -1074 < x.power := by
      have := y.le_power
      omega
    refine (exactMagnitude_le_of_power_lt hlt).trans (mul_le_mul_of_nonneg_right ?_ hv.le)
    -- The gap is halved just where the significand is the least one.
    rcases (le_significand hpower).eq_or_lt with hleast | hmore
    · rw [lowerGap_eq_one hpower hleast.symm, ← hleast, twoPow_52]
      norm_num
    · have hcast : (2 : ℚ) ^ 52 + 1 ≤ x.significand := by exact_mod_cast hmore
      linarith

theorem exactMagnitude_of_power {x y : Binary64} {j : Nat} (h : y.power = x.power - 2 + j) :
    y.exactMagnitude = (y.significand * 2 ^ j : Nat) * 2 ^ (x.power - 2) := by
  rw [exactMagnitude, h, zpow_add₀ (by norm_num), zpow_natCast]
  push_cast
  ring

theorem exists_above {x : Binary64} (hfin : x.isFinite = true) :
    ∃ y : Binary64, y.isNaN = false ∧ y.sign = x.sign ∧
      y.exactMagnitude = (4 * x.significand + 4) * 2 ^ (x.power - 2) := by
  have he := x.exponent.isLt
  have hf := x.fraction.isLt
  have h52 := twoPow_52
  simp only [isFinite, bne_iff_ne] at hfin
  by_cases hlast : x.fraction.val + 1 < twoPow 52
  · let y : Binary64 := ⟨x.negative, x.exponent, ⟨x.fraction.val + 1, hlast⟩⟩
    have hpower : y.power = x.power - 2 + (2 : Nat) := by
      simp only [power, y]
      split <;> omega
    have hm : y.significand * 2 ^ 2 = 4 * x.significand + 4 := by
      simp only [significand, y]
      split <;> omega
    refine ⟨y, by simp [isNaN, y, hfin], rfl, ?_⟩
    rw [exactMagnitude_of_power hpower, hm]
    push_cast
    rfl
  · let y : Binary64 := ⟨x.negative, ⟨x.exponent.val + 1, by omega⟩, ⟨0, twoPow_pos 52⟩⟩
    have hm : y.significand = twoPow 52 := by
      simp only [significand, y]
      split <;> omega
    refine ⟨y, by simp [isNaN, y], rfl, ?_⟩
    -- The least normal values and the greatest subnormal ones have the same power.
    by_cases hsub : x.exponent.val = 0
    · have hpower : y.power = x.power - 2 + (2 : Nat) := by
        simp only [power, y, hsub, if_true]
        omega
      have hx : x.significand + 1 = twoPow 52 := by
        simp only [significand, hsub, if_true]
        omega
      rw [exactMagnitude_of_power hpower, hm, ← hx]
      push_cast
      ring
    · have hpower : y.power = x.power - 2 + (3 : Nat) := by
        simp only [power, y, hsub, if_false]
        omega
      have hx : x.significand + 1 = 2 * twoPow 52 := by
        simp only [significand, hsub, if_false]
        omega
      have hquarters : y.significand * 2 ^ 3 = 4 * x.significand + 4 := by
        omega
      rw [exactMagnitude_of_power hpower, hquarters]
      push_cast
      rfl

theorem exactMagnitude_of_significand_succ {x y : Binary64} (hpower : y.power = x.power)
    (hm : y.significand + 1 = x.significand) (hgap : x.lowerGap = 2) :
    y.exactMagnitude = (4 * x.significand - 2 * x.lowerGap) * 2 ^ (x.power - 2) := by
  rw [exactMagnitude_of_power (x := x) (j := 2) (by omega), hgap, ← hm]
  push_cast
  ring

theorem exists_below {x : Binary64} (hfin : x.isFinite = true) (hzero : x.isZero = false) :
    ∃ y : Binary64, y.isNaN = false ∧ y.sign = x.sign ∧
      y.exactMagnitude = (4 * x.significand - 2 * x.lowerGap) * 2 ^ (x.power - 2) := by
  have he := x.exponent.isLt
  have hf := x.fraction.isLt
  have h52 := twoPow_52
  simp only [isFinite, bne_iff_ne] at hfin
  simp only [isZero, Bool.and_eq_false_iff, beq_eq_false_iff_ne] at hzero
  by_cases hfirst : x.fraction.val = 0
  · let y : Binary64 := ⟨x.negative, ⟨x.exponent.val - 1, by omega⟩, ⟨twoPow 52 - 1, by omega⟩⟩
    have hx : x.significand = twoPow 52 := by
      unfold significand
      split <;> omega
    have hnan : y.isNaN = false := by
      simp only [isNaN, y, Bool.and_eq_false_iff, beq_eq_false_iff_ne]
      omega
    refine ⟨y, hnan, rfl, ?_⟩
    by_cases hleast : x.exponent.val = 1
    · have hpower : y.power = x.power := by
        simp only [power, y]
        split <;> split <;> omega
      have hgap : x.lowerGap = 2 := by
        unfold lowerGap
        split <;> omega
      have hm : y.significand + 1 = x.significand := by
        rw [hx]
        simp only [significand, y]
        split <;> omega
      exact exactMagnitude_of_significand_succ hpower hm hgap
    · have hpower : y.power = x.power - 2 + (1 : Nat) := by
        simp only [power, y]
        split <;> split <;> omega
      have hgap : x.lowerGap = 1 := by
        unfold lowerGap
        split <;> omega
      have hm : y.significand + 1 = 2 * x.significand := by
        rw [hx]
        simp only [significand, y]
        split <;> omega
      have hcast : (y.significand : ℚ) = 2 * x.significand - 1 := by
        rw [eq_sub_iff_add_eq]
        exact_mod_cast hm
      rw [exactMagnitude_of_power hpower, hgap]
      push_cast
      rw [hcast]
      ring
  · let y : Binary64 := ⟨x.negative, x.exponent, ⟨x.fraction.val - 1, by omega⟩⟩
    have hpower : y.power = x.power := rfl
    have hgap : x.lowerGap = 2 := by
      unfold lowerGap
      split <;> omega
    have hm : y.significand + 1 = x.significand := by
      simp only [significand, y]
      split <;> omega
    exact ⟨y, by simp [isNaN, y, hfin], rfl, exactMagnitude_of_significand_succ hpower hm hgap⟩

/-- What a value covers is nearer to its magnitude than to any other, or just as near if the
significand is even. -/
theorem Covers.abs_sub_le {x : Binary64} {r : ℚ} (h : x.Covers r) (y : Binary64) :
    |r - x.exactMagnitude| ≤ |r - y.exactMagnitude| ∧
      (y.exactMagnitude ≠ x.exactMagnitude → |r - x.exactMagnitude| = |r - y.exactMagnitude| →
        x.significand % 2 = 0) := by
  have hx := x.exactMagnitude_eq
  have hlow := h.low
  have hhigh := h.high
  have hv : (0 : ℚ) < 2 ^ (x.power - 2) := by positivity
  have hgap : (0 : ℚ) < x.lowerGap * 2 ^ (x.power - 2) :=
    mul_pos (by exact_mod_cast x.lowerGap_pos) hv
  rcases lt_trichotomy y.exactMagnitude x.exactMagnitude with hlt | heq | hgt
  · have hy := le_quarters_of_lt hlt
    rw [abs_of_nonneg (a := r - y.exactMagnitude) (by linarith)]
    refine ⟨abs_le.mpr ⟨by linarith, by linarith⟩, fun _ htie =>
      Nat.mod_two_ne_one.mp fun hodd => ?_⟩
    have hstrict := (h.odd hodd).1
    rcases abs_cases (r - x.exactMagnitude) with ⟨habs, _⟩ | ⟨habs, _⟩ <;> linarith
  · exact ⟨by rw [heq], fun hne => absurd heq hne⟩
  · have hy := quarters_le_of_lt hgt
    rw [abs_of_nonpos (a := r - y.exactMagnitude) (by linarith)]
    refine ⟨abs_le.mpr ⟨by linarith, by linarith⟩, fun _ htie =>
      Nat.mod_two_ne_one.mp fun hodd => ?_⟩
    have hstrict := (h.odd hodd).2
    rcases abs_cases (r - x.exactMagnitude) with ⟨habs, _⟩ | ⟨habs, _⟩ <;> linarith

theorem Covers.roundsTo {x : Binary64} {r : ℚ} (h : x.Covers r) (hzero : x.isZero = false) :
    RoundsTo (x.sign * r) x := by
  have hr := h.pos hzero
  constructor
  · intro y _
    rw [abs_sign_mul_sub_value]
    exact (h.abs_sub_le y).1.trans (abs_sub_exactMagnitude_le x y hr.le)
  · intro y _ hne htie
    rw [abs_sign_mul_sub_value] at htie
    have hle := abs_sub_exactMagnitude_le x y hr.le
    refine (h.abs_sub_le y).2 (fun heq => ?_) ((h.abs_sub_le y).1.antisymm (hle.trans htie.ge))
    -- Only the value of the other sign has the same magnitude, and that one is farther away.
    have hopposite : y.value = -x.value := by
      have habs : |y.value| = |x.value| := by
        rw [value_eq, value_eq, abs_sign_mul, abs_sign_mul, heq]
      exact (abs_eq_abs.mp habs).resolve_left hne
    have hx := exactMagnitude_pos hzero
    rw [hopposite, value_eq, sub_neg_eq_add, ← mul_add, abs_sign_mul,
      abs_of_pos (add_pos hr hx)] at htie
    rcases abs_cases (r - x.exactMagnitude) with ⟨habs, _⟩ | ⟨habs, _⟩ <;> linarith

theorem covers_of_roundsTo {x : Binary64} {r : ℚ} (hfin : x.isFinite = true)
    (hzero : x.isZero = false) (h : RoundsTo (x.sign * r) x) : x.Covers r := by
  have hx := x.exactMagnitude_eq
  have hv : (0 : ℚ) < 2 ^ (x.power - 2) := by positivity
  have hgap : (0 : ℚ) < x.lowerGap * 2 ^ (x.power - 2) :=
    mul_pos (by exact_mod_cast x.lowerGap_pos) hv
  have hnearer {y : Binary64} (hnan : y.isNaN = false) (hsign : y.sign = x.sign)
      (hne : y.exactMagnitude ≠ x.exactMagnitude) :
      |r - x.exactMagnitude| ≤ |r - y.exactMagnitude| ∧
        (x.significand % 2 = 1 → |r - x.exactMagnitude| ≠ |r - y.exactMagnitude|) := by
    have hy : |x.sign * r - y.value| = |r - y.exactMagnitude| := by
      rw [← hsign, abs_sign_mul_sub_value]
    have hvalue : y.value ≠ x.value := by
      intro heq
      have habs := congrArg abs heq
      rw [value_eq, value_eq, abs_sign_mul, abs_sign_mul, abs_of_nonneg y.exactMagnitude_nonneg,
        abs_of_nonneg x.exactMagnitude_nonneg] at habs
      exact hne habs
    rw [← hy, ← abs_sign_mul_sub_value]
    refine ⟨h.nearest y hnan, fun hodd htie => ?_⟩
    have heven := h.even y hnan hvalue htie
    omega
  obtain ⟨a, hanan, hasign, ha⟩ := exists_above hfin
  obtain ⟨b, hbnan, hbsign, hb⟩ := exists_below hfin hzero
  obtain ⟨hale, hatie⟩ := hnearer hanan hasign (by linarith)
  obtain ⟨hble, hbtie⟩ := hnearer hbnan hbsign (by linarith)
  have hhigh : r ≤ (4 * x.significand + 2) * 2 ^ (x.power - 2) := by
    rcases abs_cases (r - x.exactMagnitude) with ⟨habs, _⟩ | ⟨habs, _⟩ <;>
      rcases abs_cases (r - a.exactMagnitude) with ⟨habs', _⟩ | ⟨habs', _⟩ <;> linarith
  have hlow : (4 * x.significand - x.lowerGap) * 2 ^ (x.power - 2) ≤ r := by
    rcases abs_cases (r - x.exactMagnitude) with ⟨habs, _⟩ | ⟨habs, _⟩ <;>
      rcases abs_cases (r - b.exactMagnitude) with ⟨habs', _⟩ | ⟨habs', _⟩ <;> linarith
  refine ⟨hlow, hhigh, fun hodd => ⟨lt_of_le_of_ne hlow fun hend => hbtie hodd ?_,
    lt_of_le_of_ne hhigh fun hend => hatie hodd ?_⟩⟩
  · rw [abs_of_nonpos (by linarith), abs_of_nonneg (by linarith)]
    linarith
  · rw [abs_of_nonneg (by linarith), abs_of_nonpos (by linarith)]
    linarith

/-- What is rounded to a value which is finite and not zero is what it covers. -/
theorem roundsTo_iff_covers {x : Binary64} (hfin : x.isFinite = true) (hzero : x.isZero = false)
    (r : ℚ) : RoundsTo (x.sign * r) x ↔ x.Covers r :=
  ⟨covers_of_roundsTo hfin hzero, fun h => h.roundsTo hzero⟩

/-- A decimal that is rounded to a value, has as few digits as any decimal that is, and is no
farther from the value than any other of so few digits. -/
structure IsShortest (x : Binary64) (d : Decimal) : Prop where
  rounds : RoundsTo (x.sign * d.value) x
  fewest : ∀ d' : Decimal, RoundsTo (x.sign * d'.value) x → d.text.length ≤ d'.text.length
  nearest : ∀ d' : Decimal, RoundsTo (x.sign * d'.value) x → d'.text.length = d.text.length →
    |d.value - x.exactMagnitude| ≤ |d'.value - x.exactMagnitude|

theorem least_ten_zpow : (8 : ℚ) * 2 ^ (-1074 - 2 : Int) < 10 ^ (-323 : Int) ∧
    10 * (10 : ℚ) ^ (-323 : Int) < 84 * 2 ^ (-1074 - 2 : Int) := by
  have htwo : (2 : ℚ) ^ (-1074 - 2 : Int) = (twoPow 1076 : ℚ)⁻¹ := by
    rw [cast_twoPow, ← zpow_natCast, ← zpow_neg]
    rfl
  have hten : (10 : ℚ) ^ (-323 : Int) = (tenPow 323 : ℚ)⁻¹ := by
    rw [cast_tenPow, ← zpow_natCast, ← zpow_neg]
    rfl
  have htwo₀ : (0 : ℚ) < twoPow 1076 := Nat.cast_pos.mpr (twoPow_pos _)
  have hten₀ : (0 : ℚ) < tenPow 323 := Nat.cast_pos.mpr (tenPow_pos _)
  have hlow : 8 * tenPow 323 < twoPow 1076 := by decide +kernel
  have hhigh : 10 * twoPow 1076 < 84 * tenPow 323 := by decide +kernel
  rw [htwo, hten, ← div_eq_mul_inv, ← div_eq_mul_inv, ← div_eq_mul_inv, inv_eq_one_div,
    div_lt_div_iff₀ htwo₀ hten₀, div_lt_div_iff₀ hten₀ htwo₀, one_mul]
  exact ⟨by exact_mod_cast hlow, by exact_mod_cast hhigh⟩

/-- A power of ten that a value covers is not far above the value. Only a few of the least values
cover anything that is, and no power of ten is among that. -/
theorem Covers.ten_zpow_le {x : Binary64} {k : Int} (h : x.Covers (10 ^ k))
    (hzero : x.isZero = false) : 19 / 20 * 10 ^ k ≤ x.exactMagnitude := by
  by_contra hfar
  rw [not_le, exactMagnitude_eq] at hfar
  have hhigh := h.high
  have hv : (0 : ℚ) < 2 ^ (x.power - 2) := by positivity
  have hsmall : x.significand < 10 := by
    have hlt : (x.significand : ℚ) * 2 ^ (x.power - 2) < 10 * 2 ^ (x.power - 2) := by linarith
    rw [mul_lt_mul_iff_left₀ hv] at hlt
    exact_mod_cast hlt
  have hpower : x.power = -1074 := by
    by_contra hne
    have hfull := le_significand (x := x) (by have := x.le_power; omega)
    rw [twoPow_52] at hfull
    omega
  rw [hpower] at hfar hhigh hv
  obtain ⟨hlow, htop⟩ := least_ten_zpow
  generalize (2 : ℚ) ^ (-1074 - 2 : Int) = v at hfar hhigh hv hlow htop
  generalize ht : (10 : ℚ) ^ (-323 : Int) = t at hlow htop
  have hm : (1 : ℚ) ≤ x.significand := by exact_mod_cast significand_pos hzero
  have hm' : (x.significand : ℚ) ≤ 9 := by exact_mod_cast Nat.le_of_lt_succ hsmall
  have hmv := mul_le_mul_of_nonneg_right hm hv.le
  have hmv' := mul_le_mul_of_nonneg_right hm' hv.le
  rcases lt_trichotomy k (-323) with hlt | rfl | hgt
  · have hle : (10 : ℚ) ^ k ≤ 10 ^ (-323 - 1 : Int) :=
      zpow_le_zpow_right₀ (by norm_num) (by omega)
    rw [zpow_sub_one₀ (by norm_num), ht] at hle
    linarith
  · rw [ht] at hfar hhigh
    have hone : x.significand < 2 := by
      have hlt : (x.significand : ℚ) * v < 2 * v := by linarith
      rw [mul_lt_mul_iff_left₀ hv] at hlt
      exact_mod_cast hlt
    have hm₁ : (x.significand : ℚ) ≤ 1 := by exact_mod_cast Nat.le_of_lt_succ hone
    linarith [mul_le_mul_of_nonneg_right hm₁ hv.le]
  · have hle : (10 : ℚ) ^ (-323 + 1 : Int) ≤ 10 ^ k :=
      zpow_le_zpow_right₀ (by norm_num) (by omega)
    rw [zpow_add_one₀ (by norm_num), ht] at hle
    linarith

theorem digits_ne_zero {x : Binary64} {d : Decimal} (h : x.Covers d.value)
    (hzero : x.isZero = false) : d.digits ≠ 0 := by
  intro hnone
  simpa [Decimal.value, hnone] using h.pos hzero

theorem leadingExponent_bounds {d : Decimal} (h : d.digits ≠ 0) :
    (10 : ℚ) ^ d.leadingExponent ≤ d.value ∧ d.value < 10 ^ (d.leadingExponent + 1) := by
  have hlead : d.leadingExponent = ((decimalDigits d.digits).length : Int) + d.exponent - 1 := by
    unfold Decimal.leadingExponent Decimal.text
    omega
  rw [hlead, sub_add_cancel]
  exact decimal_bounds h d.exponent

section

variable {x : Binary64} {d d' : Decimal} (h : x.IsCoarsest d) (hzero : x.isZero = false)
  (hd' : x.Covers d'.value)

include h hzero hd'

/-- If a value covers a decimal with a lower leading digit, a power of ten lies in between, and so
the coarsest decimal has a single digit. -/
theorem IsCoarsest.single_digit (hlead : d'.leadingExponent < d.leadingExponent) :
    d.text.length = 1 ∧ x.Covers (10 ^ d.exponent) := by
  have hpower : x.Covers (10 ^ d.leadingExponent) := by
    refine hd'.between h.covers ?_ (leadingExponent_bounds (digits_ne_zero h.covers hzero)).1
    refine (leadingExponent_bounds (digits_ne_zero hd' hzero)).2.le.trans ?_
    exact zpow_le_zpow_right₀ (by norm_num) (by omega)
  have hle : d.leadingExponent ≤ d.exponent := h.coarsest 1 _ (by simpa using hpower)
  have hpos : 0 < d.text.length := Nat.length_toDigits_pos
  have hone : d.text.length = 1 := by
    unfold Decimal.leadingExponent at hle
    omega
  have hexp : d.leadingExponent = d.exponent := by
    unfold Decimal.leadingExponent
    omega
  exact ⟨hone, hexp ▸ hpower⟩

theorem IsCoarsest.length_le : d.text.length ≤ d'.text.length := by
  by_contra hlt
  have hle := h.coarsest _ _ hd'
  have hpos : 0 < d'.text.length := Nat.length_toDigits_pos
  have hone := (h.single_digit hzero hd' (by unfold Decimal.leadingExponent; omega)).1
  omega

theorem IsCoarsest.abs_sub_le (hlen : d'.text.length = d.text.length) :
    |d.value - x.exactMagnitude| ≤ |d'.value - x.exactMagnitude| := by
  rcases (h.coarsest _ _ hd').eq_or_lt with hexp | hlt
  · have hnearest := h.nearest d'.digits
    rw [← hexp] at hnearest
    exact hnearest hd'
  · obtain ⟨hone, hpower⟩ :=
      h.single_digit hzero hd' (by unfold Decimal.leadingExponent; omega)
    -- The power of ten is nearer than any single digit below it.
    have hfirst := h.nearest 1 (by simpa using hpower)
    have hnear := hpower.ten_zpow_le hzero
    have hbelow : d'.value ≤ 9 / 10 * 10 ^ d.exponent := by
      have hdigit : d'.digits < 10 ^ d'.text.length :=
        (decimalDigits_length_bounds (digits_ne_zero hd' hzero)).2
      rw [hlen, hone, pow_one] at hdigit
      have hnine : (d'.digits : ℚ) ≤ 9 := by exact_mod_cast Nat.le_of_lt_succ hdigit
      have hstep : (10 : ℚ) ^ d'.exponent ≤ 10 ^ (d.exponent - 1) :=
        zpow_le_zpow_right₀ (by norm_num) (by omega)
      calc d'.value ≤ 9 * 10 ^ (d.exponent - 1) := by
            unfold Decimal.value
            gcongr
        _ = 9 / 10 * 10 ^ d.exponent := by
            rw [zpow_sub_one₀ (by norm_num)]
            ring
    have hten : (0 : ℚ) < 10 ^ d.exponent := by positivity
    rw [Nat.cast_one, one_mul] at hfirst
    refine hfirst.trans ?_
    rw [abs_of_nonpos (a := d'.value - _) (by linarith)]
    exact abs_le.mpr ⟨by linarith, by linarith⟩

end

theorem isShortest_shortest {x : Binary64} (hfin : x.isFinite = true) (tie : Tie) :
    x.IsShortest (x.shortest tie) := by
  by_cases hzero : x.isZero = true
  · have hm := significand_of_isZero hzero
    have hmagnitude := exactMagnitude_of_isZero hzero
    have hvalue : x.value = 0 := by simp [value_eq, hmagnitude]
    have hd : Decimal.value ⟨0, 0⟩ = 0 := by simp [Decimal.value]
    rw [shortest_of_isZero hzero]
    refine ⟨⟨fun y _ => ?_, fun _ _ _ _ => by rw [hm]⟩, fun d' _ => ?_, fun d' _ _ => ?_⟩
    · rw [hd, hvalue]
      simp
    · exact Nat.length_toDigits_pos
    · rw [hd, hmagnitude]
      simp
  · have hnonzero : x.isZero = false := by simpa using hzero
    have hcoarsest := isCoarsest_shortest hnonzero tie
    refine ⟨hcoarsest.covers.roundsTo hnonzero, fun d' hd' => ?_, fun d' hd' hlen => ?_⟩
    · rw [roundsTo_iff_covers hfin hnonzero] at hd'
      exact hcoarsest.length_le hnonzero hd'
    · rw [roundsTo_iff_covers hfin hnonzero] at hd'
      exact hcoarsest.abs_sub_le hnonzero hd' hlen

end Binary64

end WordBlocks
