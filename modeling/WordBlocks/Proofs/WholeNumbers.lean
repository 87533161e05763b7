import WordBlocks.Lowering.Slot
import WordBlocks.Proofs.TokenText
import WordBlocks.Script.Action

/-!
Digits that are read as a number. A text of digits in a slot becomes a binary64 value, and a pattern
of digits is recovered from it as the digits of a whole number. This brings back the text if it has
no leading zeros and if its value is a word that the binary64 format holds exactly
(`digitPattern?_literal_iff`). The greatest word comes back too, since the value above it is moved
down to it.
-/

namespace WordBlocks

open Script

/-- Digits that can be recovered from their value as a binary64 number. -/
def SurvivesReading (ds : List Char) : Prop :=
  ds = decimalDigits (digitsValue ds) ∧
    (digitsValue ds = unsignedMax ∨
      digitsValue ds ≤ unsignedMax ∧ ∃ m k, m < 2 ^ 53 ∧ digitsValue ds = m * 2 ^ k)

namespace Binary64

/-- The integer part of a magnitude has at most 53 significant bits. -/
theorem exists_ratio_div (x : Binary64) :
    ∃ m k, m < 2 ^ 53 ∧ x.ratio.1 / x.ratio.2 = m * 2 ^ k := by
  have hlt : x.significand < 2 ^ 53 := x.significand_lt
  rcases le_total 0 x.power with hpower | hpower
  · refine ⟨x.significand, x.power.toNat, hlt, ?_⟩
    have hden : (-x.power).toNat = 0 := by omega
    rw [ratio, hden]
    exact Nat.div_one _
  · refine ⟨x.ratio.1 / x.ratio.2, 0, ?_, (Nat.mul_one _).symm⟩
    have hnum : x.power.toNat = 0 := by omega
    calc x.ratio.1 / x.ratio.2 ≤ x.ratio.1 := Nat.div_le_self _ _
      _ = x.significand := by rw [ratio, hnum]; exact Nat.mul_one _
      _ < 2 ^ 53 := hlt

theorem exists_full_width {m : Nat} (hm : m ≠ 0) (hlt : m < 2 ^ 53) :
    ∃ j ≤ 52, 2 ^ 52 ≤ m * 2 ^ j ∧ m * 2 ^ j < 2 ^ 53 := by
  have hlog : Nat.log 2 m < 53 := Nat.log_lt_of_lt_pow hm hlt
  have hlow := Nat.pow_log_le_self 2 hm
  have hhigh := Nat.lt_pow_succ_log_self (b := 2) (by decide) m
  refine ⟨52 - Nat.log 2 m, by omega, ?_, ?_⟩
  · calc 2 ^ 52 = 2 ^ Nat.log 2 m * 2 ^ (52 - Nat.log 2 m) := by
          rw [← pow_add]
          congr 1
          omega
      _ ≤ m * 2 ^ (52 - Nat.log 2 m) := Nat.mul_le_mul_right _ hlow
  · calc m * 2 ^ (52 - Nat.log 2 m) < 2 ^ (Nat.log 2 m + 1) * 2 ^ (52 - Nat.log 2 m) :=
          Nat.mul_lt_mul_of_pos_right hhigh (by positivity)
      _ = 2 ^ 53 := by
          rw [← pow_add]
          congr 1
          omega

theorem exists_exactMagnitude {m k : Nat} (hm : m ≠ 0) (hlt : m < 2 ^ 53)
    (hword : m * 2 ^ k ≤ unsignedMax) :
    ∃ x : Binary64, x.negative = false ∧ x.isFinite = true ∧ x.isZero = false ∧
      x.exactMagnitude = (m * 2 ^ k : Nat) := by
  obtain ⟨j, hj, hlow, hhigh⟩ := exists_full_width hm hlt
  have hk : k < 64 := by
    rw [← Nat.pow_lt_pow_iff_right (a := 2) (by decide)]
    have hle : 2 ^ k ≤ m * 2 ^ k := Nat.le_mul_of_pos_left _ (Nat.pos_of_ne_zero hm)
    have hmax : unsignedMax < 2 ^ 64 := by decide
    omega
  have hfraction : m * 2 ^ j - 2 ^ 52 < twoPow 52 := by
    have h52 := twoPow_52
    omega
  let x : Binary64 := ⟨false, ⟨1075 + k - j, by omega⟩, ⟨m * 2 ^ j - 2 ^ 52, hfraction⟩⟩
  have hsignificand : x.significand = m * 2 ^ j := by
    have h52 := twoPow_52
    simp only [significand, x]
    rw [if_neg (by omega)]
    omega
  have hpower : x.power = (k : Int) - j := by
    simp only [power, x]
    rw [if_neg (by omega)]
    omega
  refine ⟨x, rfl, ?_, ?_, ?_⟩
  · simp only [isFinite, x, bne_iff_ne]
    omega
  · simp only [isZero, x, Bool.and_eq_false_iff, beq_eq_false_iff_ne]
    omega
  · rw [exactMagnitude, hsignificand, hpower, zpow_sub₀ (by norm_num), zpow_natCast, zpow_natCast]
    push_cast
    field_simp

theorem toNat_clampedInt {x : Binary64} (hx : x.negative = false) :
    (x.clampedInt 0 unsignedMax).toNat = min unsignedMax (x.ratio.1 / x.ratio.2) := by
  rw [clampedInt, truncate, hx]
  generalize x.ratio.1 / x.ratio.2 = n
  simp only [Bool.false_eq_true, if_false]
  omega

theorem toNat_clampedInt_of_negative {x : Binary64} (hx : x.negative = true) :
    (x.clampedInt 0 unsignedMax).toNat = 0 := by
  rw [clampedInt, truncate, hx]
  generalize x.ratio.1 / x.ratio.2 = n
  simp only [if_true]
  omega

end Binary64

theorem survivesReading_decimalDigits {n : Nat} :
    SurvivesReading (decimalDigits n) ↔
      n = unsignedMax ∨ n ≤ unsignedMax ∧ ∃ m k, m < 2 ^ 53 ∧ n = m * 2 ^ k := by
  rw [SurvivesReading, digitsValue_decimalDigits]
  exact and_iff_right rfl

theorem digitPattern?_number (x : Binary64) :
    digitPattern? (.number x) = if x.isIntegral && (x.isZero || !x.negative) then
      some (decimalDigits (x.clampedInt 0 unsignedMax).toNat) else none := by
  have hdigits : ∀ n,
      (!(decimalDigits n).isEmpty && (decimalDigits n).all Char.isDigit) = true := by
    intro n
    have hall : (decimalDigits n).all Char.isDigit = true :=
      List.all_eq_true.mpr fun c => isDigit_of_mem_decimalDigits
    simp [hall, decimalDigits_ne_nil]
  simp only [digitPattern?]
  split
  · rw [Option.filter_some, if_pos (hdigits _)]
  · rfl

theorem survivesReading_of_digitPattern {x : Binary64} {ds : List Char}
    (h : digitPattern? (.number x) = some ds) : SurvivesReading ds := by
  rw [digitPattern?_number] at h
  split at h
  · obtain rfl := Option.some.inj h
    rw [survivesReading_decimalDigits]
    cases hx : x.negative with
    | true =>
        rw [Binary64.toNat_clampedInt_of_negative hx]
        exact .inr ⟨Nat.zero_le _, 0, 0, by decide, rfl⟩
    | false =>
        rw [Binary64.toNat_clampedInt hx]
        obtain ⟨m, k, hm, hmk⟩ := x.exists_ratio_div
        rcases le_total unsignedMax (x.ratio.1 / x.ratio.2) with hle | hle
        · exact .inl (Nat.min_eq_left hle)
        · rw [Nat.min_eq_right hle]
          exact .inr ⟨hle, m, k, hm, hmk⟩
  · cases h

theorem digitPattern?_of_exactMagnitude {x : Binary64} {n : Nat} (hx : x.negative = false)
    (hfin : x.isFinite = true) (hn : x.exactMagnitude = n) (hword : n ≤ unsignedMax) :
    digitPattern? (.number x) = some (decimalDigits n) := by
  obtain ⟨hintegral, hdiv⟩ := Binary64.isIntegral_of_exactMagnitude hfin hn
  rw [digitPattern?_number, hintegral, hx, Binary64.toNat_clampedInt hx, hdiv,
    Nat.min_eq_right hword]
  simp

theorem digitPattern?_ofDecimal {n : Nat}
    (h : n = unsignedMax ∨ n ≤ unsignedMax ∧ ∃ m k, m < 2 ^ 53 ∧ n = m * 2 ^ k) :
    digitPattern? (.number (.ofDecimal false n 0)) = some (decimalDigits n) := by
  rcases h with rfl | ⟨hword, m, k, hm, rfl⟩
  · -- The word is rounded up to the power of two above it and then moved down again.
    decide
  · by_cases hzero : m = 0
    · subst hzero
      rw [Nat.zero_mul]
      change digitPattern? (.number (.zero false)) = _
      exact digitPattern?_of_exactMagnitude rfl rfl
        (by simp [Binary64.exactMagnitude, Binary64.significand, Binary64.zero]) (Nat.zero_le _)
    · obtain ⟨x, hx, hfin, hx0, hmagnitude⟩ := Binary64.exists_exactMagnitude hzero hm hword
      have hcovers : x.Covers ((m * 2 ^ k : Nat) * 10 ^ (0 : Int)) := by
        rw [zpow_zero, mul_one, ← hmagnitude]
        exact x.covers_exactMagnitude
      have hread := Binary64.ofDecimal_of_covers hfin hx0 hcovers
      rw [hx] at hread
      rw [hread]
      exact digitPattern?_of_exactMagnitude hx hfin hmagnitude hword

section

variable {ds : List Char} (hne : ds ≠ []) (hdigits : ∀ c ∈ ds, c.isDigit = true)

include hdigits

theorem Text.trimChars_of_digits : Text.trimChars ds = ds := by
  refine trimChars_of_isNameChar fun c hc => ?_
  simp [isNameChar, Char.isAlphanum, hdigits c hc]

include hne

theorem Binary64.ofText?_digits :
    Binary64.ofText? ds = some (.ofDecimal false (digitsValue ds) 0) := by
  obtain ⟨c, cs, rfl⟩ := List.exists_cons_of_ne_nil hne
  have hc := hdigits c List.mem_cons_self
  have hsign : splitSign (c :: cs) = (false, c :: cs) := by
    unfold splitSign
    split <;> simp_all
  have hword : ∀ w : List Char, (w.head?.all Char.isDigit) = false →
      (c :: cs).map Char.toLower ≠ w := by
    rintro _ hw rfl
    rw [List.map_cons, toLower_of_isDigit hc] at hw
    simp [hc] at hw
  have hread : ofNumeral? false (c :: cs) = some (ofDecimal false (digitsValue (c :: cs)) 0) := by
    have htake := takeWhile_run hdigits (endsRun_nil Char.isDigit)
    have hdrop := dropWhile_run hdigits (endsRun_nil Char.isDigit)
    rw [List.append_nil] at htake hdrop
    unfold ofNumeral?
    simp [htake, hdrop, readExponent?]
  unfold ofText?
  rw [hsign]
  dsimp only
  rw [if_neg (not_or.mpr ⟨hword _ (by decide), hword _ (by decide)⟩),
    if_neg (hword _ (by decide)), hread]

end

section

variable {s : String} (hne : s.toList ≠ []) (hdigits : ∀ c ∈ s.toList, c.isDigit = true)

include hne hdigits

theorem digitPattern?_text : digitPattern? (.text s) = some s.toList := by
  have hall : s.toList.all Char.isDigit = true := List.all_eq_true.mpr hdigits
  rw [digitPattern?, Text.trimChars_of_digits hdigits, Option.filter_some, if_pos]
  simp [hall, List.isEmpty_eq_false_iff.mpr hne]

theorem Slot.literal_digits :
    Slot.literal s = .number (.ofDecimal false (digitsValue s.toList) 0) := by
  rw [literal, Text.trimChars_of_digits hdigits, Binary64.ofText?_digits hne hdigits]

/-- Digits in a slot are recovered just if they survive reading. -/
theorem digitPattern?_literal_iff :
    digitPattern? (Slot.literal s) = some s.toList ↔ SurvivesReading s.toList := by
  rw [Slot.literal_digits hne hdigits]
  refine ⟨survivesReading_of_digitPattern, fun ⟨hcanonical, hvalue⟩ => ?_⟩
  rw [digitPattern?_ofDecimal hvalue, ← hcanonical]

end

end WordBlocks
