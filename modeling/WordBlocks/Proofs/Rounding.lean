import Mathlib.Algebra.Order.Field.Power
import Mathlib.Data.Int.Log
import Mathlib.Data.Rat.Floor
import Mathlib.Tactic.FieldSimp
import Mathlib.Tactic.Linarith
import Mathlib.Tactic.Positivity
import Mathlib.Tactic.Ring
import WordBlocks.Number.Numeral
import WordBlocks.Number.Shortest

/-!
Rounding to binary64. Each finite value that is not zero covers an interval of rational magnitudes,
and `ofRatio_of_covers` says that a quotient in that interval is rounded to the value. The same then
holds for decimals.
-/

namespace WordBlocks

theorem cast_twoPow (n : Nat) : ((twoPow n : Nat) : ℚ) = 2 ^ n :=
  Nat.cast_pow 2 n

theorem cast_tenPow (n : Nat) : ((tenPow n : Nat) : ℚ) = 10 ^ n :=
  Nat.cast_pow 10 n

theorem twoPow_pos (n : Nat) : 0 < twoPow n :=
  Nat.pow_pos (by decide)

theorem tenPow_pos (n : Nat) : 0 < tenPow n :=
  Nat.pow_pos (by decide)

theorem zpow_mul_pow_toNat_neg {b : ℚ} (hb : b ≠ 0) (k : Int) :
    b ^ k * b ^ (-k).toNat = b ^ k.toNat := by
  rw [← zpow_natCast, ← zpow_natCast, ← zpow_add₀ hb]
  congr 1
  omega

theorem ratio_tenPow (c : Nat) (k : Int) :
    ((c * tenPow k.toNat : Nat) : ℚ) / (tenPow (-k).toNat : Nat) = c * 10 ^ k := by
  push_cast
  rw [cast_tenPow, cast_tenPow, ← zpow_mul_pow_toNat_neg (by norm_num) k]
  field_simp

/-- The two sides of a scaled comparison are one positive multiple of a power of two and of the
quotient. -/
theorem exists_common_scale (num : Nat) {den : Nat} (q : Int) (hden : 0 < den) :
    ∃ c : ℚ, 0 < c ∧ ((den * twoPow q.toNat : Nat) : ℚ) = c * 2 ^ q ∧
      ((num * twoPow (-q).toNat : Nat) : ℚ) = c * (num / den) := by
  have hd : (0 : ℚ) < den := by exact_mod_cast hden
  refine ⟨den * 2 ^ (-q).toNat, by positivity, ?_, ?_⟩
  · have hq := zpow_mul_pow_toNat_neg (b := 2) (by norm_num) q
    push_cast
    rw [cast_twoPow, ← hq]
    ring
  · push_cast
    rw [cast_twoPow]
    field_simp

theorem scaled_le_iff {a b num den : Nat} (q : Int) (hden : 0 < den) :
    a * (den * twoPow q.toNat) ≤ b * (num * twoPow (-q).toNat) ↔
      (a : ℚ) * 2 ^ q ≤ b * (num / den) := by
  obtain ⟨c, hc, hleft, hright⟩ := exists_common_scale num q hden
  rw [← Nat.cast_le (α := ℚ), Nat.cast_mul, Nat.cast_mul b, hleft, hright, mul_left_comm,
    mul_left_comm (b : ℚ), mul_le_mul_iff_right₀ hc]

/-- A natural number that is nearest to a quotient, and even if it is not the only one, is the
rounded quotient. -/
theorem roundHalfEven_eq {num den n : Nat} (hden : 0 < den)
    (hlow : ((2 * n - 1) * den : ℚ) ≤ 2 * num) (hhigh : (2 * num : ℚ) ≤ (2 * n + 1) * den)
    (hodd : n % 2 = 1 → ((2 * n - 1) * den : ℚ) < 2 * num ∧ (2 * num : ℚ) < (2 * n + 1) * den) :
    roundHalfEven num den = n := by
  have hsplit : (num : ℚ) = (num / den : Nat) * den + (num % den : Nat) := by
    exact_mod_cast (Nat.div_add_mod' num den).symm
  have hr : ((num % den : Nat) : ℚ) < den := by exact_mod_cast Nat.mod_lt num hden
  have hr₀ : (0 : ℚ) ≤ (num % den : Nat) := Nat.cast_nonneg _
  have hd : (0 : ℚ) < den := by exact_mod_cast hden
  unfold roundHalfEven
  generalize num / den = q at *
  generalize num % den = r at *
  rw [hsplit] at hlow hhigh hodd
  have hle : q ≤ n := by
    by_contra hlt
    have : ((n : ℚ) + 1) * den ≤ q * den := by gcongr; exact_mod_cast Nat.lt_of_not_le hlt
    linarith
  have hge : n ≤ q + 1 := by
    by_contra hlt
    have : ((q : ℚ) + 2) * den ≤ n * den := by gcongr; exact_mod_cast Nat.lt_of_not_le hlt
    linarith
  rcases Nat.lt_or_ge q n with hlt | hnq
  · obtain rfl : n = q + 1 := by omega
    push_cast at hlow hhigh hodd
    have hhalf : den ≤ 2 * r := by
      rw [← Nat.cast_le (α := ℚ)]
      push_cast
      linarith
    have htie : (q + 1) % 2 = 1 → den < 2 * r := by
      intro h
      rw [← Nat.cast_lt (α := ℚ)]
      push_cast
      linarith [(hodd h).1]
    dsimp only
    split_ifs <;> omega
  · obtain rfl : n = q := by omega
    have hhalf : 2 * r ≤ den := by
      rw [← Nat.cast_le (α := ℚ)]
      push_cast
      linarith
    have htie : n % 2 = 1 → 2 * r < den := by
      intro h
      rw [← Nat.cast_lt (α := ℚ)]
      push_cast
      linarith [(hodd h).2]
    dsimp only
    split_ifs <;> omega

theorem roundHalfEven_scaled {num den n : Nat} (q : Int) (hden : 0 < den)
    (hlow : (2 * n - 1) * (2 : ℚ) ^ q ≤ 2 * (num / den))
    (hhigh : 2 * ((num : ℚ) / den) ≤ (2 * n + 1) * 2 ^ q)
    (hodd : n % 2 = 1 → (2 * n - 1) * (2 : ℚ) ^ q < 2 * (num / den) ∧
      2 * ((num : ℚ) / den) < (2 * n + 1) * 2 ^ q) :
    roundHalfEven (num * twoPow (-q).toNat) (den * twoPow q.toNat) = n := by
  obtain ⟨c, hc, hleft, hright⟩ := exists_common_scale num q hden
  apply roundHalfEven_eq (Nat.mul_pos hden (twoPow_pos _))
  · rw [hleft, hright]
    linarith [mul_le_mul_of_nonneg_left hlow hc.le]
  · rw [hleft, hright]
    linarith [mul_le_mul_of_nonneg_left hhigh hc.le]
  · intro h
    obtain ⟨hlow, hhigh⟩ := hodd h
    rw [hleft, hright]
    constructor
    · linarith [mul_lt_mul_of_pos_left hlow hc]
    · linarith [mul_lt_mul_of_pos_left hhigh hc]

namespace Binary64

theorem twoPow_52 : twoPow 52 = 4503599627370496 := rfl

theorem twoPow_53 : twoPow 53 = 9007199254740992 := rfl

theorem significand_lt (x : Binary64) : x.significand < twoPow 53 := by
  have hf := x.fraction.isLt
  unfold significand
  simp only [twoPow_52, twoPow_53] at *
  split <;> omega

theorem significand_pos {x : Binary64} (hzero : x.isZero = false) : 0 < x.significand := by
  simp only [isZero, Bool.and_eq_false_iff, beq_eq_false_iff_ne] at hzero
  have h52 := twoPow_52
  unfold significand
  split <;> omega

theorem significand_of_isZero {x : Binary64} (hzero : x.isZero = true) : x.significand = 0 := by
  simp only [isZero, Bool.and_eq_true, beq_iff_eq] at hzero
  simp [significand, hzero]

theorem le_power (x : Binary64) : -1074 ≤ x.power := by
  unfold power
  split <;> omega

theorem power_le {x : Binary64} (hfin : x.isFinite = true) : x.power ≤ 971 := by
  simp only [isFinite, bne_iff_ne] at hfin
  have he := x.exponent.isLt
  unfold power
  split <;> omega

theorem le_significand {x : Binary64} (h : -1074 < x.power) : twoPow 52 ≤ x.significand := by
  unfold power at h
  unfold significand
  split at h <;> split <;> omega

theorem ofSignificand_of_lt (negative : Bool) {m : Nat} (q : Int) (hm : m < twoPow 52) :
    ofSignificand negative m q = ⟨negative, 0, ⟨m, hm⟩⟩ := by
  have h53 : m ≠ twoPow 53 := by
    have hlt : twoPow 52 < twoPow 53 := by decide
    omega
  unfold ofSignificand
  rw [if_neg h53]
  dsimp only
  rw [if_pos hm]
  congr 2
  exact Nat.mod_eq_of_lt hm

theorem ofSignificand_of_le (negative : Bool) {f e : Nat} (hf : f < twoPow 52) (he : e < 2047) :
    ofSignificand negative (twoPow 52 + f) (e - 1075) =
      ⟨negative, ⟨e, by omega⟩, ⟨f, hf⟩⟩ := by
  have h53 : twoPow 52 + f ≠ twoPow 53 := by
    have hsum : twoPow 52 + twoPow 52 = twoPow 53 := by decide
    omega
  have hbiased : ((e : Int) - 1075 + 1075).toNat = e := by omega
  unfold ofSignificand
  rw [if_neg h53]
  dsimp only
  rw [if_neg (by omega), if_pos (by omega)]
  refine congrArg₂ (Binary64.mk negative) (Fin.ext ?_) (Fin.ext ?_)
  · dsimp only
    rw [hbiased]
    exact Nat.mod_eq_of_lt (by omega)
  · dsimp only
    rw [Nat.add_sub_cancel_left]
    exact Nat.mod_eq_of_lt hf

theorem ofSignificand_significand {x : Binary64} (hfin : x.isFinite = true) :
    ofSignificand x.negative x.significand x.power = x := by
  simp only [isFinite, bne_iff_ne] at hfin
  have he := x.exponent.isLt
  unfold significand power
  split
  · rename_i h0
    rw [ofSignificand_of_lt x.negative _ x.fraction.isLt]
    have hexponent : x.exponent = 0 := Fin.ext h0
    rw [← hexponent]
  · exact ofSignificand_of_le x.negative x.fraction.isLt (by omega)

/-- A significand that is rounded up to the next power of two gives the least value above it. -/
theorem ofSignificand_twoPow {x : Binary64} (hfin : x.isFinite = true)
    (hleast : x.significand = twoPow 52) :
    ofSignificand x.negative (twoPow 53) (x.power - 1) = x := by
  have h := ofSignificand_significand hfin
  have h52 : twoPow 52 ≠ twoPow 53 := by decide
  rw [hleast] at h
  unfold ofSignificand at h ⊢
  simpa only [if_true, h52, if_false, sub_add_cancel] using h

/-- The rational magnitudes that are rounded to a value which is finite and not zero: those between
the midpoints to its neighbours, and the midpoints themselves if the significand is even. -/
structure Covers (x : Binary64) (r : ℚ) : Prop where
  low : (4 * x.significand - x.lowerGap) * (2 : ℚ) ^ (x.power - 2) ≤ r
  high : r ≤ (4 * x.significand + 2) * (2 : ℚ) ^ (x.power - 2)
  odd : x.significand % 2 = 1 →
    (4 * x.significand - x.lowerGap) * (2 : ℚ) ^ (x.power - 2) < r ∧
      r < (4 * x.significand + 2) * (2 : ℚ) ^ (x.power - 2)

theorem floorLog2_eq {num den : Nat} (hnum : 0 < num) (hden : 0 < den) :
    floorLog2 num den = Int.log 2 ((num : ℚ) / den) := by
  have hn : (0 : ℚ) < num := by exact_mod_cast hnum
  have hd : (0 : ℚ) < den := by exact_mod_cast hden
  have hr : (0 : ℚ) < num / den := div_pos hn hd
  have htest : den * twoPow ((num.log2 : Int) - den.log2).toNat ≤
      num * twoPow (-((num.log2 : Int) - den.log2)).toNat ↔
      (num.log2 : Int) - den.log2 ≤ Int.log 2 ((num : ℚ) / den) := by
    rw [← Int.zpow_le_iff_le_log (by decide) hr]
    simpa using scaled_le_iff (a := 1) (b := 1) ((num.log2 : Int) - den.log2) hden
  -- The two logarithms fix the quotient up to a factor of two on either side.
  have hlow : (num.log2 : Int) - den.log2 - 1 ≤ Int.log 2 ((num : ℚ) / den) := by
    rw [← Int.zpow_le_iff_le_log (by decide) hr, le_div_iff₀ hd]
    have h₁ : (2 : ℚ) ^ num.log2 ≤ num := by exact_mod_cast Nat.log2_self_le hnum.ne'
    have h₂ : (den : ℚ) ≤ 2 ^ (den.log2 + 1) := by exact_mod_cast Nat.lt_log2_self.le
    calc ((2 : Nat) : ℚ) ^ ((num.log2 : Int) - den.log2 - 1) * den
        ≤ 2 ^ ((num.log2 : Int) - den.log2 - 1) * 2 ^ (den.log2 + 1) := by
          push_cast
          gcongr
      _ = 2 ^ num.log2 := by
          rw [← zpow_natCast, ← zpow_natCast, ← zpow_add₀ (by norm_num)]
          congr 1
          omega
      _ ≤ num := h₁
  have hhigh : Int.log 2 ((num : ℚ) / den) < (num.log2 : Int) - den.log2 + 1 := by
    rw [← Int.lt_zpow_iff_log_lt (by decide) hr, div_lt_iff₀ hd]
    have h₁ : (num : ℚ) < 2 ^ (num.log2 + 1) := by exact_mod_cast Nat.lt_log2_self
    have h₂ : (2 : ℚ) ^ den.log2 ≤ den := by exact_mod_cast Nat.log2_self_le hden.ne'
    calc (num : ℚ) < 2 ^ (num.log2 + 1) := h₁
      _ = 2 ^ ((num.log2 : Int) - den.log2 + 1) * 2 ^ den.log2 := by
          rw [← zpow_natCast, ← zpow_natCast, ← zpow_add₀ (by norm_num)]
          congr 1
          push_cast
          omega
      _ ≤ ((2 : Nat) : ℚ) ^ ((num.log2 : Int) - den.log2 + 1) * den := by
          push_cast
          gcongr
  unfold floorLog2
  dsimp only
  split <;> rename_i h <;> rw [htest] at h <;> omega

theorem lowerGap_le (x : Binary64) : x.lowerGap ≤ 2 := by
  unfold lowerGap
  split <;> omega

theorem lowerGap_eq_one {x : Binary64} (hpower : -1074 < x.power)
    (hleast : x.significand = twoPow 52) : x.lowerGap = 1 := by
  unfold power at hpower
  unfold significand at hleast
  have hf := x.fraction.isLt
  unfold lowerGap
  split at hpower <;> split at hleast <;> split <;> omega

theorem two_zpow_add_eq (x : Binary64) (n : Nat) :
    (2 : ℚ) ^ (x.power + n) = 2 ^ (n + 2) * 2 ^ (x.power - 2) := by
  rw [← zpow_natCast, ← zpow_add₀ (by norm_num)]
  congr 1
  push_cast
  omega

theorem two_zpow_power (x : Binary64) : (2 : ℚ) ^ x.power = 4 * 2 ^ (x.power - 2) := by
  have h := x.two_zpow_add_eq 0
  norm_num at h
  exact h

theorem two_zpow_power_sub_one (x : Binary64) :
    (2 : ℚ) ^ (x.power - 1) = 2 * 2 ^ (x.power - 2) := by
  rw [← zpow_one_add₀ (by norm_num)]
  congr 1
  omega

namespace Covers

variable {x : Binary64} {r : ℚ}

theorem lower_bound (h : x.Covers r) (hzero : x.isZero = false) :
    2 * (2 : ℚ) ^ (x.power - 2) ≤ r := by
  have hm : (1 : ℚ) ≤ x.significand := by exact_mod_cast significand_pos hzero
  have hg : (x.lowerGap : ℚ) ≤ 2 := by exact_mod_cast x.lowerGap_le
  refine le_trans ?_ h.low
  gcongr
  linarith

theorem pos (h : x.Covers r) (hzero : x.isZero = false) : 0 < r :=
  lt_of_lt_of_le (by positivity) (h.lower_bound hzero)

theorem between {a b : ℚ} (ha : x.Covers a) (hb : x.Covers b) (hlow : a ≤ r) (hhigh : r ≤ b) :
    x.Covers r := by
  refine ⟨ha.low.trans hlow, hhigh.trans hb.high, fun hodd => ?_⟩
  exact ⟨(ha.odd hodd).1.trans_le hlow, hhigh.trans_lt (hb.odd hodd).2⟩

theorem upper_bound (h : x.Covers r) : r < 2 ^ (x.power + 53) := by
  have hm : (x.significand : ℚ) + 1 ≤ 9007199254740992 := by exact_mod_cast x.significand_lt
  have hv : (0 : ℚ) < 2 ^ (x.power - 2) := by positivity
  have hscale := x.two_zpow_add_eq 53
  push_cast at hscale
  rw [hscale]
  refine lt_of_le_of_lt h.high ?_
  gcongr
  norm_num
  linarith

theorem roundHalfEven_eq_significand {num den : Nat} (h : x.Covers (num / den)) (hden : 0 < den) :
    roundHalfEven (num * twoPow (-x.power).toNat) (den * twoPow x.power.toNat) =
      x.significand := by
  have hg : (x.lowerGap : ℚ) ≤ 2 := by exact_mod_cast x.lowerGap_le
  have hv : (0 : ℚ) < 2 ^ (x.power - 2) := by positivity
  have hscale := x.two_zpow_power
  have hgap := mul_le_mul_of_nonneg_right hg hv.le
  have hlow := h.low
  have hhigh := h.high
  apply roundHalfEven_scaled x.power hden
  · rw [hscale]
    linarith
  · rw [hscale]
    linarith
  · intro hm
    obtain ⟨hlow, hhigh⟩ := h.odd hm
    rw [hscale]
    constructor <;> linarith

/-- Only a value at the lower end of its binade covers anything below the binade. -/
theorem significand_eq_of_lt (h : x.Covers r) (hpower : -1074 < x.power)
    (hlt : r < 2 ^ (x.power + 52)) : x.significand = twoPow 52 := by
  have hm := le_significand hpower
  have hg : (x.lowerGap : ℚ) ≤ 2 := by exact_mod_cast x.lowerGap_le
  have hv : (0 : ℚ) < 2 ^ (x.power - 2) := by positivity
  have hscale := x.two_zpow_add_eq 52
  push_cast at hscale
  rw [hscale] at hlt
  have hbound := lt_of_mul_lt_mul_right (lt_of_le_of_lt h.low hlt) hv.le
  have hcast : (4 * x.significand : ℚ) < (2 : ℚ) ^ 54 + 2 := by linarith
  have hnat : 4 * x.significand < 2 ^ 54 + 2 := by exact_mod_cast hcast
  rw [twoPow_52] at *
  omega

theorem low_of_lt (h : x.Covers r) (hpower : -1074 < x.power)
    (hlt : r < 2 ^ (x.power + 52)) : (2 ^ 54 - 1) * (2 : ℚ) ^ (x.power - 2) ≤ r := by
  have hsignificand := h.significand_eq_of_lt hpower hlt
  have hlow := h.low
  rw [lowerGap_eq_one hpower hsignificand, hsignificand, twoPow_52] at hlow
  norm_num at hlow ⊢
  exact hlow

/-- Below the binade of a value the grid is twice as fine, and what the value covers there is
rounded up to the next power of two. -/
theorem roundHalfEven_eq_twoPow {num den : Nat} (h : x.Covers (num / den)) (hden : 0 < den)
    (hpower : -1074 < x.power) (hlt : (num : ℚ) / den < 2 ^ (x.power + 52)) :
    roundHalfEven (num * twoPow (-(x.power - 1)).toNat) (den * twoPow (x.power - 1).toNat) =
      twoPow 53 := by
  have hlow := h.low_of_lt hpower hlt
  have hv : (0 : ℚ) < 2 ^ (x.power - 2) := by positivity
  have hscale := x.two_zpow_add_eq 52
  have hfine := x.two_zpow_power_sub_one
  norm_num at hlow hscale
  apply roundHalfEven_scaled _ hden
  · rw [hfine, twoPow_53]
    norm_num
    linarith
  · rw [hfine, twoPow_53]
    norm_num
    linarith
  · intro hodd
    exact absurd hodd (by decide)

end Covers

theorem ofRatio_of_covers {x : Binary64} {num den : Nat} (hfin : x.isFinite = true)
    (hzero : x.isZero = false) (hden : 0 < den) (h : x.Covers (num / den)) :
    ofRatio x.negative num den = x := by
  have hr := h.pos hzero
  have hd : (0 : ℚ) < den := by exact_mod_cast hden
  have hnum : 0 < num := by
    have hn : (0 : ℚ) < num := by simpa [hd] using mul_pos hr hd
    exact_mod_cast hn
  have hpower := x.le_power
  have hupper : Int.log 2 ((num : ℚ) / den) < x.power + 53 := by
    rw [← Int.lt_zpow_iff_log_lt (by decide) hr]
    exact_mod_cast h.upper_bound
  unfold ofRatio
  rw [if_neg hnum.ne', floorLog2_eq hnum hden]
  dsimp only
  by_cases hbinade : x.power + 52 ≤ Int.log 2 ((num : ℚ) / den) ∨ x.power = -1074
  · have hgrid : max (Int.log 2 ((num : ℚ) / den) - 52) (-1074) = x.power := by omega
    rw [hgrid, h.roundHalfEven_eq_significand hden, ofSignificand_significand hfin]
  · rw [not_or, not_le] at hbinade
    obtain ⟨hlog, hleast⟩ := hbinade
    have hlt : (num : ℚ) / den < 2 ^ (x.power + 52) := by
      exact_mod_cast (Int.lt_zpow_iff_log_lt (b := 2) (by decide) hr).mpr hlog
    have hlower : (2 : ℚ) ^ (x.power + 51) ≤ num / den := by
      have hscale := x.two_zpow_add_eq 51
      push_cast at hscale
      rw [hscale]
      refine le_trans ?_ (h.low_of_lt (by omega) hlt)
      gcongr
      norm_num
    have hlog' : x.power + 51 ≤ Int.log 2 ((num : ℚ) / den) := by
      rw [← Int.zpow_le_iff_le_log (by decide) hr]
      exact_mod_cast hlower
    have hgrid : max (Int.log 2 ((num : ℚ) / den) - 52) (-1074) = x.power - 1 := by omega
    rw [hgrid, h.roundHalfEven_eq_twoPow hden (by omega) hlt,
      ofSignificand_twoPow hfin (h.significand_eq_of_lt (by omega) hlt)]

end Binary64

theorem decimalDigits_length_bounds {n : Nat} (hn : n ≠ 0) :
    10 ^ ((decimalDigits n).length - 1) ≤ n ∧ n < 10 ^ (decimalDigits n).length := by
  have hpos : 0 < (decimalDigits n).length := Nat.length_toDigits_pos
  refine ⟨?_, (Nat.length_toDigits_le_iff (by decide) hpos).mp le_rfl⟩
  rcases Nat.eq_zero_or_pos ((decimalDigits n).length - 1) with hone | hmany
  · rw [hone]
    omega
  · by_contra hlt
    have hlen := (Nat.length_toDigits_le_iff (by decide) hmany).mpr (not_le.mp hlt)
    unfold decimalDigits at hpos hlen
    omega

theorem decimal_bounds {c : Nat} (hc : c ≠ 0) (k : Int) :
    (10 : ℚ) ^ (((decimalDigits c).length : Int) + k - 1) ≤ c * 10 ^ k ∧
      (c : ℚ) * 10 ^ k < 10 ^ (((decimalDigits c).length : Int) + k) := by
  obtain ⟨hlow, hhigh⟩ := decimalDigits_length_bounds hc
  have hpos : 0 < (decimalDigits c).length := Nat.length_toDigits_pos
  have hk : (0 : ℚ) < 10 ^ k := by positivity
  constructor
  · have hsplit : ((decimalDigits c).length : Int) + k - 1 =
        (((decimalDigits c).length - 1 : Nat) : Int) + k := by omega
    rw [hsplit, zpow_add₀ (by norm_num), zpow_natCast]
    gcongr
    exact_mod_cast hlow
  · rw [zpow_add₀ (by norm_num), zpow_natCast]
    gcongr
    exact_mod_cast hhigh

namespace Binary64

/-- A decimal that a finite value covers is rounded to that value. -/
theorem ofDecimal_of_covers {x : Binary64} {c : Nat} {k : Int} (hfin : x.isFinite = true)
    (hzero : x.isZero = false) (h : x.Covers (c * 10 ^ k)) : ofDecimal x.negative c k = x := by
  have hc : c ≠ 0 := by
    rintro rfl
    simpa using h.pos hzero
  obtain ⟨hlow, hhigh⟩ := decimal_bounds hc k
  have htop : ((decimalDigits c).length : Int) + k < 310 := by
    by_contra hge
    have hpower := power_le hfin
    have hbig : (2 : ℚ) ^ (x.power + 53) ≤ 2 ^ ((1024 : Nat) : Int) :=
      zpow_le_zpow_right₀ (by norm_num) (by omega)
    have hten : (10 : ℚ) ^ ((309 : Nat) : Int) ≤ 10 ^ (((decimalDigits c).length : Int) + k - 1) :=
      zpow_le_zpow_right₀ (by norm_num) (by omega)
    rw [zpow_natCast, ← cast_twoPow] at hbig
    rw [zpow_natCast, ← cast_tenPow] at hten
    have hnum : (twoPow 1024 : ℚ) ≤ tenPow 309 := Nat.cast_le.mpr (by decide +kernel)
    linarith [h.upper_bound]
  have hbottom : -324 < ((decimalDigits c).length : Int) + k := by
    by_contra hle
    have hpower := x.le_power
    have hsmall : (2 : ℚ) ^ (-(1075 : Nat) : Int) ≤ 2 ^ (x.power - 2 + 1) :=
      zpow_le_zpow_right₀ (by norm_num) (by omega)
    have hten : (10 : ℚ) ^ (((decimalDigits c).length : Int) + k) ≤ 10 ^ (-(324 : Nat) : Int) :=
      zpow_le_zpow_right₀ (by norm_num) (by omega)
    rw [zpow_neg, zpow_natCast, ← cast_twoPow, zpow_add_one₀ (by norm_num)] at hsmall
    rw [zpow_neg, zpow_natCast, ← cast_tenPow] at hten
    have hnum : (tenPow 324 : ℚ)⁻¹ ≤ (twoPow 1075 : ℚ)⁻¹ :=
      inv_anti₀ (Nat.cast_pos.mpr (twoPow_pos _)) (Nat.cast_le.mpr (by decide +kernel))
    linarith [h.lower_bound hzero]
  unfold ofDecimal
  rw [if_neg hc]
  dsimp only
  rw [if_neg (by omega), if_neg (by omega)]
  apply ofRatio_of_covers hfin hzero (tenPow_pos _)
  rw [ratio_tenPow]
  exact h

end Binary64

end WordBlocks
