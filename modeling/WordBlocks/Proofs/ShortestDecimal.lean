import WordBlocks.Proofs.Rounding

/-!
The search for the shortest decimal of a value. It goes down the powers of ten and stops at the
first one that has a multiple which the value covers, at the latest at the power whose multiples
hold the value exactly. `isCoarsest_shortest` says what it finds: no greater power of ten has such a
multiple, and no multiple of this one that the value covers is nearer.
-/

namespace WordBlocks

/-- The magnitude that a decimal stands for. -/
def Decimal.value (d : Decimal) : ℚ :=
  d.digits * 10 ^ d.exponent

namespace Binary64

/-- The exact magnitude of a finite value. -/
def exactMagnitude (x : Binary64) : ℚ :=
  x.significand * 2 ^ x.power

/-- The number that a finite value stands for. -/
def value (x : Binary64) : ℚ :=
  (if x.negative then -1 else 1) * (x.significand * 2 ^ x.power)

theorem lowerGap_pos (x : Binary64) : 0 < x.lowerGap := by
  unfold lowerGap
  split <;> omega

theorem exactMagnitude_eq (x : Binary64) :
    x.exactMagnitude = 4 * x.significand * 2 ^ (x.power - 2) := by
  rw [exactMagnitude, two_zpow_power]
  ring

theorem ratio_div_cast (x : Binary64) : (x.ratio.1 : ℚ) / x.ratio.2 = x.exactMagnitude := by
  have hpower := zpow_mul_pow_toNat_neg (b := 2) (by norm_num) x.power
  rw [ratio, exactMagnitude]
  push_cast
  rw [cast_twoPow, cast_twoPow, ← hpower]
  field_simp

theorem ratio_pos (x : Binary64) : 0 < x.ratio.2 :=
  twoPow_pos _

theorem ratio_eq_of_exactMagnitude {x : Binary64} {n : Nat} (h : x.exactMagnitude = n) :
    x.ratio.1 = n * x.ratio.2 := by
  have hden : (x.ratio.2 : ℚ) ≠ 0 := by exact_mod_cast x.ratio_pos.ne'
  have hcast := x.ratio_div_cast
  rw [h, div_eq_iff hden] at hcast
  exact_mod_cast hcast

theorem isIntegral_of_exactMagnitude {x : Binary64} {n : Nat} (hfin : x.isFinite = true)
    (h : x.exactMagnitude = n) : x.isIntegral = true ∧ x.ratio.1 / x.ratio.2 = n := by
  have hnum := ratio_eq_of_exactMagnitude h
  refine ⟨?_, by rw [hnum, Nat.mul_div_cancel _ x.ratio_pos]⟩
  rw [isIntegral, hfin, hnum, Nat.mul_mod_left]
  rfl

theorem covers_exactMagnitude (x : Binary64) : x.Covers x.exactMagnitude := by
  have hg : (0 : ℚ) < x.lowerGap := by exact_mod_cast x.lowerGap_pos
  have hv : (0 : ℚ) < 2 ^ (x.power - 2) := by positivity
  have hgap := mul_pos hg hv
  rw [exactMagnitude_eq]
  refine ⟨by linarith, by linarith, ?_⟩
  intro _
  constructor <;> linarith

/-- The two scales of a comparison with the decimal `c * 10 ^ k` are one positive multiple of that
decimal and of a quarter of the last place. -/
theorem exists_scale (x : Binary64) (c : Nat) (k : Int) :
    ∃ u : ℚ, 0 < u ∧ ((x.scales k).2 : ℚ) = u * 2 ^ (x.power - 2) ∧
      ((c * (x.scales k).1 : Nat) : ℚ) = u * (c * 10 ^ k) := by
  obtain ⟨u, hu, hleft, hright⟩ :=
    exists_common_scale (c * tenPow k.toNat) (x.power - 2) (tenPow_pos (-k).toNat)
  refine ⟨u, hu, hleft, ?_⟩
  rw [← ratio_tenPow, ← hright, Nat.mul_assoc]
  rfl

theorem quarters_le_iff (x : Binary64) (a c : Nat) (k : Int) :
    a * (x.scales k).2 ≤ c * (x.scales k).1 ↔ (a : ℚ) * 2 ^ (x.power - 2) ≤ c * 10 ^ k := by
  obtain ⟨u, hu, ht, hs⟩ := x.exists_scale c k
  rw [← Nat.cast_le (α := ℚ), hs, Nat.cast_mul, ht, mul_left_comm (a : ℚ) u,
    mul_le_mul_iff_right₀ hu]

theorem le_quarters_iff (x : Binary64) (a c : Nat) (k : Int) :
    c * (x.scales k).1 ≤ a * (x.scales k).2 ↔ (c : ℚ) * 10 ^ k ≤ a * 2 ^ (x.power - 2) := by
  obtain ⟨u, hu, ht, hs⟩ := x.exists_scale c k
  rw [← Nat.cast_le (α := ℚ), hs, Nat.cast_mul, ht, mul_left_comm (a : ℚ) u,
    mul_le_mul_iff_right₀ hu]

theorem roundsFrom_iff {x : Binary64} (hzero : x.isZero = false) (c : Nat) (k : Int) :
    x.roundsFrom c k = true ↔ x.Covers (c * 10 ^ k) := by
  have hlow : ((4 * x.significand - x.lowerGap : Nat) : ℚ) = 4 * x.significand - x.lowerGap := by
    have hm := significand_pos hzero
    have hg := x.lowerGap_le
    rw [Nat.cast_sub (by omega)]
    push_cast
    rfl
  have hhigh : ((4 * x.significand + 2 : Nat) : ℚ) = 4 * x.significand + 2 := by
    push_cast
    rfl
  unfold roundsFrom
  dsimp only
  split
  · rename_i heven
    rw [Bool.and_eq_true, decide_eq_true_eq, decide_eq_true_eq, quarters_le_iff, le_quarters_iff,
      hlow, hhigh]
    constructor
    · rintro ⟨h₁, h₂⟩
      exact ⟨h₁, h₂, fun hodd => by omega⟩
    · intro h
      exact ⟨h.low, h.high⟩
  · rename_i hodd
    rw [Bool.and_eq_true, decide_eq_true_eq, decide_eq_true_eq, ← not_le, ← not_le,
      quarters_le_iff, le_quarters_iff, not_le, not_le, hlow, hhigh]
    constructor
    · rintro ⟨h₁, h₂⟩
      exact ⟨h₁.le, h₂.le, fun _ => ⟨h₁, h₂⟩⟩
    · intro h
      exact h.odd (by omega)

theorem exactMagnitude_of_isZero {x : Binary64} (hzero : x.isZero = true) :
    x.exactMagnitude = (0 : Nat) := by
  rw [exactMagnitude, significand_of_isZero hzero]
  simp

theorem shortest_of_isZero {x : Binary64} (hzero : x.isZero = true) (tie : Tie) :
    x.shortest tie = ⟨0, 0⟩ := by
  rw [shortest, if_pos hzero]

/-- The multiple of `10 ^ k` at or below the magnitude. -/
def floorMultiple (x : Binary64) (k : Int) : Nat :=
  4 * x.significand * (x.scales k).2 / (x.scales k).1

theorem scales_pos (x : Binary64) (k : Int) : 0 < (x.scales k).1 :=
  Nat.mul_pos (tenPow_pos _) (twoPow_pos _)

theorem floorMultiple_le (x : Binary64) (k : Int) :
    (x.floorMultiple k : ℚ) * 10 ^ k ≤ x.exactMagnitude := by
  have h : x.floorMultiple k * (x.scales k).1 ≤ 4 * x.significand * (x.scales k).2 :=
    Nat.div_mul_le_self _ _
  rw [le_quarters_iff] at h
  rw [exactMagnitude_eq]
  exact_mod_cast h

theorem lt_floorMultiple (x : Binary64) (k : Int) :
    x.exactMagnitude < (x.floorMultiple k + 1 : Nat) * 10 ^ k := by
  have h : 4 * x.significand * (x.scales k).2 < (x.floorMultiple k + 1) * (x.scales k).1 :=
    Nat.lt_mul_of_div_lt (Nat.lt_succ_self _) (x.scales_pos k)
  rw [← not_le, le_quarters_iff, not_le] at h
  rw [exactMagnitude_eq]
  exact_mod_cast h

/-- A multiple that is covered lies on one side of the magnitude, and so the nearest multiple on
that side is covered too. -/
theorem covers_floorMultiple {x : Binary64} {c : Nat} {k : Int} (h : x.Covers (c * 10 ^ k)) :
    c ≤ x.floorMultiple k ∧ x.Covers (x.floorMultiple k * 10 ^ k) ∨
      x.floorMultiple k + 1 ≤ c ∧ x.Covers ((x.floorMultiple k + 1 : Nat) * 10 ^ k) := by
  rcases Nat.lt_or_ge (x.floorMultiple k) c with hlt | hge
  · refine .inr ⟨hlt, x.covers_exactMagnitude.between h (x.lt_floorMultiple k).le ?_⟩
    gcongr
    exact hlt
  · refine .inl ⟨hge, h.between x.covers_exactMagnitude ?_ (x.floorMultiple_le k)⟩
    gcongr

/-- A multiple of a power of ten that the value covers, with none of them nearer. -/
structure IsNearestMultiple (x : Binary64) (d : Decimal) : Prop where
  covers : x.Covers d.value
  nearest : ∀ c : Nat, x.Covers (c * 10 ^ d.exponent) →
    |d.value - x.exactMagnitude| ≤ |c * 10 ^ d.exponent - x.exactMagnitude|

theorem nearestMultiple?_cases {tie : Tie} {x : Binary64} {k : Int} {c : Nat}
    (h : x.nearestMultiple? tie k = some c) :
    (c = x.floorMultiple k ∧ x.roundsFrom c k = true ∧
      (x.roundsFrom (c + 1) k = false ∨
        8 * x.significand * (x.scales k).2 ≤ (2 * c + 1) * (x.scales k).1)) ∨
    (c = x.floorMultiple k + 1 ∧ x.roundsFrom c k = true ∧
      (x.roundsFrom (x.floorMultiple k) k = false ∨
        (2 * x.floorMultiple k + 1) * (x.scales k).1 ≤ 8 * x.significand * (x.scales k).2)) := by
  unfold nearestMultiple? at h
  unfold floorMultiple
  dsimp only at h
  generalize 4 * x.significand * (x.scales k).2 / (x.scales k).1 = n at h ⊢
  split at h
  · cases h
  · rename_i hn hn'
    obtain rfl := Option.some.inj h
    exact .inl ⟨rfl, hn, .inl hn'⟩
  · rename_i hn hn'
    obtain rfl := Option.some.inj h
    exact .inr ⟨rfl, hn', .inl hn⟩
  · cases tie <;> grind

theorem not_covers_of_nearestMultiple {tie : Tie} {x : Binary64} {k : Int}
    (hzero : x.isZero = false) (h : x.nearestMultiple? tie k = none) (c : Nat) :
    ¬x.Covers (c * 10 ^ k) := by
  intro hc
  have hnone : x.roundsFrom (x.floorMultiple k) k = false ∧
      x.roundsFrom (x.floorMultiple k + 1) k = false := by
    unfold nearestMultiple? at h
    unfold floorMultiple
    dsimp only at h
    generalize 4 * x.significand * (x.scales k).2 / (x.scales k).1 = n at h ⊢
    cases tie <;> grind
  rw [← Bool.not_eq_true, ← Bool.not_eq_true, roundsFrom_iff hzero, roundsFrom_iff hzero] at hnone
  rcases covers_floorMultiple hc with ⟨_, hfloor⟩ | ⟨_, hnext⟩
  · exact hnone.1 hfloor
  · exact hnone.2 hnext

theorem floorMultiple_nearest (x : Binary64) {c : Nat} {k : Int} (hc : c ≤ x.floorMultiple k) :
    |x.floorMultiple k * 10 ^ k - x.exactMagnitude| ≤ |c * 10 ^ k - x.exactMagnitude| := by
  have hle := x.floorMultiple_le k
  have hstep : (c : ℚ) * 10 ^ k ≤ x.floorMultiple k * 10 ^ k := by gcongr
  rw [abs_of_nonpos (by linarith), abs_of_nonpos (by linarith)]
  linarith

theorem succ_floorMultiple_nearest (x : Binary64) {c : Nat} {k : Int}
    (hc : x.floorMultiple k + 1 ≤ c) :
    |(x.floorMultiple k + 1 : Nat) * 10 ^ k - x.exactMagnitude| ≤
      |c * 10 ^ k - x.exactMagnitude| := by
  have hlt := x.lt_floorMultiple k
  have hstep : ((x.floorMultiple k + 1 : Nat) : ℚ) * 10 ^ k ≤ c * 10 ^ k := by gcongr
  rw [abs_of_nonneg (by linarith), abs_of_nonneg (by linarith)]
  linarith

theorem isNearestMultiple_of_nearestMultiple {tie : Tie} {x : Binary64} {k : Int} {c : Nat}
    (hzero : x.isZero = false) (h : x.nearestMultiple? tie k = some c) :
    x.IsNearestMultiple ⟨c, k⟩ := by
  have hfloor := x.floorMultiple_le k
  have hnext := x.lt_floorMultiple k
  have htwice : ((8 * x.significand : Nat) : ℚ) * 2 ^ (x.power - 2) = 2 * x.exactMagnitude := by
    rw [exactMagnitude_eq]
    push_cast
    ring
  rcases nearestMultiple?_cases h with ⟨rfl, hround, hother⟩ | ⟨rfl, hround, hother⟩
  · refine ⟨(roundsFrom_iff hzero _ k).mp hround, fun c' hc' => ?_⟩
    rcases covers_floorMultiple hc' with ⟨hle, _⟩ | ⟨hge, hcovers⟩
    · exact x.floorMultiple_nearest hle
    · rcases hother with hother | hnear
      · rw [← Bool.not_eq_true, roundsFrom_iff hzero] at hother
        exact absurd hcovers hother
      · refine le_trans ?_ (x.succ_floorMultiple_nearest hge)
        rw [quarters_le_iff, htwice] at hnear
        push_cast at hnear hnext ⊢
        dsimp only [Decimal.value]
        rw [abs_of_nonpos (by linarith), abs_of_nonneg (by linarith)]
        linarith
  · refine ⟨(roundsFrom_iff hzero _ k).mp hround, fun c' hc' => ?_⟩
    rcases covers_floorMultiple hc' with ⟨hle, hcovers⟩ | ⟨hge, _⟩
    · rcases hother with hother | hnear
      · rw [← Bool.not_eq_true, roundsFrom_iff hzero] at hother
        exact absurd hcovers hother
      · refine le_trans ?_ (x.floorMultiple_nearest hle)
        rw [le_quarters_iff, htwice] at hnear
        dsimp only [Decimal.value]
        push_cast at hnear hnext ⊢
        rw [abs_of_nonneg (by linarith), abs_of_nonpos (by linarith)]
        linarith
    · exact x.succ_floorMultiple_nearest hge

/-- The multiples of the last power of ten that is tried hold the value exactly. -/
theorem exists_exact_decimal (x : Binary64) :
    ∃ n : Nat, (n : ℚ) * 10 ^ (-((-x.power).toNat : Int)) = x.exactMagnitude := by
  unfold exactMagnitude
  rcases le_or_gt 0 x.power with hpos | hneg
  · refine ⟨x.significand * 2 ^ x.power.toNat, ?_⟩
    have hnone : (-x.power).toNat = 0 := by omega
    rw [hnone]
    push_cast
    rw [← zpow_natCast, Int.toNat_of_nonneg hpos]
    simp
  · refine ⟨x.significand * 5 ^ (-x.power).toNat, ?_⟩
    have hfive : (10 : ℚ) = 5 * 2 := by norm_num
    have hback : -((-x.power).toNat : Int) = x.power := by omega
    push_cast
    rw [hfive, mul_zpow, hback, ← zpow_natCast, Int.toNat_of_nonneg (by omega), zpow_neg]
    field_simp

theorem floorMultiple_of_eq {x : Binary64} {n : Nat} {k : Int}
    (h : (n : ℚ) * 10 ^ k = x.exactMagnitude) : x.floorMultiple k = n := by
  have hten : (0 : ℚ) < 10 ^ k := by positivity
  have hle := x.floorMultiple_le k
  have hlt := x.lt_floorMultiple k
  rw [← h, mul_le_mul_iff_left₀ hten, Nat.cast_le] at hle
  rw [← h, mul_lt_mul_iff_left₀ hten, Nat.cast_lt] at hlt
  omega

/-- The nearest multiple that a value covers of the greatest power of ten with such a multiple. -/
structure IsCoarsest (x : Binary64) (d : Decimal) : Prop extends x.IsNearestMultiple d where
  coarsest : ∀ (c : Nat) (k : Int), x.Covers (c * 10 ^ k) → k ≤ d.exponent

theorem isCoarsest_shortestFrom {x : Binary64} (hzero : x.isZero = false) (tie : Tie) (steps : Nat)
    (k : Int) (hend : k - steps = -((-x.power).toNat : Int))
    (htop : ∀ (c : Nat) (j : Int), x.Covers (c * 10 ^ j) → j ≤ k) :
    x.IsCoarsest (x.shortestFrom tie steps k) := by
  induction steps generalizing k with
  | zero =>
      obtain ⟨n, hn⟩ := x.exists_exact_decimal
      obtain rfl : k = -((-x.power).toNat : Int) := by simpa using hend
      have hvalue : Decimal.value (x.shortestFrom tie 0 (-((-x.power).toNat : Int))) =
          x.exactMagnitude := by
        rw [← hn, ← floorMultiple_of_eq hn]
        rfl
      refine ⟨⟨hvalue ▸ x.covers_exactMagnitude, fun c _ => ?_⟩, htop⟩
      rw [hvalue, sub_self, abs_zero]
      exact abs_nonneg _
  | succ steps ih =>
      unfold shortestFrom
      split
      · rename_i c hc
        exact ⟨isNearestMultiple_of_nearestMultiple hzero hc, htop⟩
      · rename_i hnone
        apply ih
        · push_cast at hend
          omega
        · intro c j hj
          have hne : j ≠ k := by
            rintro rfl
            exact not_covers_of_nearestMultiple hzero hnone c hj
          have hle := htop c j hj
          omega

theorem Covers.le_exactMagnitude {x : Binary64} {r : ℚ} (h : x.Covers r)
    (hzero : x.isZero = false) : r ≤ 3 / 2 * x.exactMagnitude := by
  have hm : (1 : ℚ) ≤ x.significand := by exact_mod_cast significand_pos hzero
  have hv : (0 : ℚ) < 2 ^ (x.power - 2) := by positivity
  have hscaled := mul_le_mul_of_nonneg_right hm hv.le
  rw [exactMagnitude_eq]
  linarith [h.high]

/-- The digits before the point bound the powers of ten that have a covered multiple. -/
theorem Covers.le_length {x : Binary64} {c : Nat} {k : Int} (h : x.Covers (c * 10 ^ k))
    (hzero : x.isZero = false) : k ≤ (decimalDigits (x.ratio.1 / x.ratio.2)).length := by
  generalize hn : (decimalDigits (x.ratio.1 / x.ratio.2)).length = n
  have hwhole : x.ratio.1 / x.ratio.2 < 10 ^ n := by
    rw [← hn]
    exact (Nat.length_toDigits_le_iff (by decide) Nat.length_toDigits_pos).mp le_rfl
  have hden : (0 : ℚ) < x.ratio.2 := by exact_mod_cast x.ratio_pos
  have hmagnitude : x.exactMagnitude < 10 ^ n := by
    rw [← ratio_div_cast, div_lt_iff₀ hden]
    exact_mod_cast (Nat.div_lt_iff_lt_mul x.ratio_pos).mp hwhole
  have hc : (1 : ℚ) ≤ c := by
    rcases Nat.eq_zero_or_pos c with rfl | hc
    · simpa using h.pos hzero
    · exact_mod_cast hc
  by_contra hlt
  have hpower : (10 : ℚ) ^ ((n + 1 : Nat) : Int) ≤ 10 ^ k :=
    zpow_le_zpow_right₀ (by norm_num) (by push_cast; omega)
  rw [zpow_natCast, pow_succ] at hpower
  have hten : (0 : ℚ) < 10 ^ n := by positivity
  have hscaled : (1 : ℚ) * 10 ^ k ≤ c * 10 ^ k := by gcongr
  linarith [h.le_exactMagnitude hzero]

theorem isCoarsest_shortest {x : Binary64} (hzero : x.isZero = false) (tie : Tie) :
    x.IsCoarsest (x.shortest tie) := by
  unfold shortest
  rw [if_neg (by simp [hzero])]
  apply isCoarsest_shortestFrom hzero
  · push_cast
    omega
  · exact fun c k h => h.le_length hzero

end Binary64

end WordBlocks
