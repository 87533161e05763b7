import Mathlib.Data.Nat.Cast.Field
import WordBlocks.Proofs.NearestValue
import WordBlocks.Proofs.NumberText

/-!
The numbers of a script as float literals of Python. The literal of a finite number is the shortest
decimal that is rounded to the number, whichever of three layouts it has: with an exponent, as a
whole number with one decimal, or positional. For a whole number the shortest decimal is exact,
since below `10 ^ 16` only a multiple of ten could be shorter and multiples of ten are values
themselves.
-/

namespace WordBlocks

/-- The exact value of a float literal of Python: digits with a point among them, an exponent behind
them, or both. -/
def Python.floatValue? (cs : List Char) : Option ℚ :=
  let whole := cs.takeWhile Char.isDigit
  let rest := cs.dropWhile Char.isDigit
  let (fraction, tail) := match rest with
    | '.' :: after => (after.takeWhile Char.isDigit, after.dropWhile Char.isDigit)
    | other => ([], other)
  if rest.isEmpty || (whole.isEmpty && fraction.isEmpty) then none
  else (Binary64.readExponent? tail).map fun e =>
    Decimal.value ⟨digitsValue (whole ++ fraction), e - fraction.length⟩

namespace Python

theorem floatValue?_point {whole fraction rest : List Char} {e : Int} (hne : whole ≠ [])
    (hwhole : ∀ c ∈ whole, c.isDigit = true) (hfraction : ∀ c ∈ fraction, c.isDigit = true)
    (hrest : EndsRun Char.isDigit rest) (he : Binary64.readExponent? rest = some e) :
    floatValue? (whole ++ '.' :: (fraction ++ rest)) =
      some (Decimal.value ⟨digitsValue (whole ++ fraction), e - fraction.length⟩) := by
  have hpoint : EndsRun Char.isDigit ('.' :: (fraction ++ rest)) := endsRun_cons rfl
  unfold floatValue?
  simp only [takeWhile_run hwhole hpoint, dropWhile_run hwhole hpoint,
    takeWhile_run hfraction hrest, dropWhile_run hfraction hrest]
  simp [hne, he]

theorem floatValue?_exponent {whole rest : List Char} {e : Int} (hne : whole ≠ [])
    (hwhole : ∀ c ∈ whole, c.isDigit = true)
    (he : Binary64.readExponent? ('e' :: rest) = some e) :
    floatValue? (whole ++ 'e' :: rest) = some (Decimal.value ⟨digitsValue whole, e⟩) := by
  have hmark : EndsRun Char.isDigit ('e' :: rest) := endsRun_cons rfl
  unfold floatValue?
  simp only [takeWhile_run hwhole hmark, dropWhile_run hwhole hmark]
  simp [hne, he]

end Python

namespace Decimal

theorem floatValue?_positional (d : Decimal) :
    Python.floatValue? (d.positional true) = some d.value := by
  obtain ⟨whole, fraction, heq, hne, hwhole, hfraction, hvalue⟩ := d.positional_split
  have h := Python.floatValue?_point hne hwhole hfraction (endsRun_nil _) rfl
  rw [List.append_nil, Int.zero_sub, ← heq] at h
  exact h.trans (congrArg some hvalue)

theorem floatValue?_scientific (width : Nat) (d : Decimal) :
    Python.floatValue? (d.scientific width) = some d.value := by
  have hdigits : ∀ c ∈ d.text, c.isDigit = true := fun _ => isDigit_of_mem_text
  have hvalue := d.digitsValue_text
  obtain ⟨c, fraction, rest, heq, htext, hexp, hread⟩ := d.scientific_split width
  rw [htext] at hdigits hvalue
  obtain ⟨hc, hfraction⟩ := List.forall_mem_cons.mp hdigits
  have hlead : ∀ c' ∈ [c], c'.isDigit = true := List.forall_mem_singleton.mpr hc
  rw [heq]
  cases fraction with
  | nil =>
      rw [List.length_nil, Nat.cast_zero, Int.sub_zero] at hexp
      have h := Python.floatValue?_exponent (by simp) hlead hread
      rwa [hvalue, hexp] at h
  | cons c' cs =>
      have h := Python.floatValue?_point (by simp) hlead hfraction (endsRun_cons rfl) hread
      have hjoined : digitsValue ([c] ++ c' :: cs) = d.digits := hvalue
      rwa [hjoined, hexp] at h

end Decimal

theorem decimalDigits_mul_pow {n : Nat} (hn : 0 < n) (k : Nat) :
    decimalDigits (n * 10 ^ k) = decimalDigits n ++ List.replicate k '0' := by
  induction k with
  | zero => simp
  | succ k ih =>
      have hpos : 0 < n * 10 ^ k := Nat.mul_pos hn (Nat.pow_pos (by decide))
      have hstep := Nat.toDigits_append_toDigits (b := 10) (d := 0) (by decide) hpos (by decide)
      have hmul : n * 10 ^ (k + 1) = 10 * (n * 10 ^ k) + 0 := by ring
      rw [hmul, decimalDigits, ← hstep, ← decimalDigits, ih, List.replicate_succ',
        List.append_assoc]
      rfl

namespace Binary64

/-- The number of tenths nearest to the magnitude, a half to the even one. -/
def tenths (x : Binary64) : Nat :=
  roundHalfEven (10 * x.ratio.1) x.ratio.2

/-- The exactly rounded expansion of the magnitude to one decimal. -/
def oneDecimal (x : Binary64) : List Char :=
  decimalDigits (x.tenths / 10) ++ '.' :: decimalDigits (x.tenths % 10)

theorem oneDecimal_of_exactMagnitude {x : Binary64} {n : Nat} (h : x.exactMagnitude = n) :
    x.oneDecimal = decimalDigits n ++ ['.', '0'] := by
  have hnum : 10 * x.ratio.1 = 10 * n * x.ratio.2 := by
    rw [ratio_eq_of_exactMagnitude h, Nat.mul_assoc]
  have htenths : x.tenths = 10 * n := by
    unfold tenths roundHalfEven
    rw [hnum, Nat.mul_div_cancel _ x.ratio_pos, Nat.mul_mod_left]
    exact if_pos x.ratio_pos
  rw [oneDecimal, htenths, Nat.mul_div_cancel_left _ (by decide), Nat.mul_mod_right]
  rfl

theorem exactMagnitude_of_isIntegral {x : Binary64} (h : x.isIntegral = true) :
    x.exactMagnitude = (x.ratio.1 / x.ratio.2 : Nat) := by
  have hden : (x.ratio.2 : ℚ) ≠ 0 := by exact_mod_cast x.ratio_pos.ne'
  simp only [isIntegral, Bool.and_eq_true, beq_iff_eq] at h
  rw [← ratio_div_cast, Nat.cast_div (Nat.dvd_of_mod_eq_zero h.2) hden]

theorem Covers.eq_exactMagnitude {x : Binary64} {n : Nat} (h : x.Covers n)
    (hgrid : 2 ^ x.power.toNat ∣ n) : (n : ℚ) = x.exactMagnitude := by
  obtain ⟨q, rfl⟩ := hgrid
  have hv : (0 : ℚ) < 2 ^ (x.power - 2) := by positivity
  have hgap : (x.lowerGap : ℚ) ≤ 2 := by exact_mod_cast x.lowerGap_le
  have hgap' := mul_le_mul_of_nonneg_right hgap hv.le
  -- The number counts the last places of the value, and only the significand is near enough.
  have hplaces : ((2 ^ x.power.toNat * q : Nat) : ℚ) =
      (q * 2 ^ (-x.power).toNat : Nat) * 2 ^ x.power := by
    have hpower := zpow_mul_pow_toNat_neg (b := 2) (by norm_num) x.power
    push_cast
    rw [← hpower]
    ring
  have hlow := h.low
  have hhigh := h.high
  rw [hplaces] at hlow hhigh ⊢
  generalize q * 2 ^ (-x.power).toNat = m at hlow hhigh ⊢
  rw [two_zpow_power] at hlow hhigh
  have hle : (4 * x.significand : ℚ) ≤ 4 * m + 2 :=
    le_of_mul_le_mul_right (by linarith) hv
  have hge : (4 * m : ℚ) ≤ 4 * x.significand + 2 :=
    le_of_mul_le_mul_right (by linarith) hv
  have hle' : 4 * x.significand ≤ 4 * m + 2 := by exact_mod_cast hle
  have hge' : 4 * m ≤ 4 * x.significand + 2 := by exact_mod_cast hge
  obtain rfl : m = x.significand := by omega
  rfl

end Binary64

theorem Decimal.value_eq_cast {d : Decimal} (h : 0 ≤ d.exponent) :
    d.value = (d.digits * 10 ^ d.exponent.toNat : Nat) := by
  rw [value]
  push_cast
  rw [← zpow_natCast, Int.toNat_of_nonneg h]

namespace Binary64

theorem exponent_neg_of_not_isIntegral {x : Binary64} {d : Decimal} (hfin : x.isFinite = true)
    (h : x.Covers d.value) (hfraction : x.isIntegral = false) : d.exponent < 0 := by
  by_contra hexp
  rw [not_lt] at hexp
  rw [Decimal.value_eq_cast hexp] at h
  have hpower : x.power.toNat = 0 := by
    by_contra hpos
    have hone : x.ratio.2 = 1 := by
      have hnone : (-x.power).toNat = 0 := by omega
      rw [ratio, hnone]
      rfl
    rw [isIntegral, hfin, hone, Nat.mod_one] at hfraction
    cases hfraction
  have hmagnitude := h.eq_exactMagnitude (by rw [hpower, pow_zero]; exact Nat.one_dvd _)
  rw [(isIntegral_of_exactMagnitude hfin hmagnitude.symm).1] at hfraction
  cases hfraction

theorem Covers.power_le {x : Binary64} {r : ℚ} (h : x.Covers r) (hr : r < 10 ^ 16) :
    x.power ≤ 1 := by
  by_contra hlt
  have hfull : 2 ^ 52 ≤ x.significand := le_significand (by omega)
  have hcast : (2 : ℚ) ^ 52 ≤ x.significand := by exact_mod_cast hfull
  have hgap : (x.lowerGap : ℚ) ≤ 2 := by exact_mod_cast x.lowerGap_le
  have hscale : (1 : ℚ) ≤ 2 ^ (x.power - 2) := one_le_zpow₀ (by norm_num) (by omega)
  have hfactor : (2 : ℚ) ^ 54 - 2 ≤ 4 * x.significand - x.lowerGap := by linarith
  have hbig : ((2 : ℚ) ^ 54 - 2) * 1 ≤ (4 * x.significand - x.lowerGap) * 2 ^ (x.power - 2) :=
    mul_le_mul hfactor hscale (by norm_num) (le_trans (by norm_num) hfactor)
  linarith [h.low]

/-- The shortest decimal of a whole number below `10 ^ 16` is exact. -/
theorem IsCoarsest.value_eq_of_isIntegral {x : Binary64} {d : Decimal} (h : x.IsCoarsest d)
    (hzero : x.isZero = false) (hwhole : x.isIntegral = true) (hlead : d.leadingExponent ≤ 15) :
    0 ≤ d.exponent ∧ d.value = x.exactMagnitude := by
  have hmagnitude := exactMagnitude_of_isIntegral hwhole
  have hself : x.Covers ((x.ratio.1 / x.ratio.2 : Nat) * 10 ^ (0 : Int)) := by
    rw [zpow_zero, mul_one, ← hmagnitude]
    exact x.covers_exactMagnitude
  have hexp : 0 ≤ d.exponent := h.coarsest _ _ hself
  refine ⟨hexp, ?_⟩
  rcases hexp.eq_or_lt with hnone | hsome
  · -- The value itself is among the multiples of one, and none is nearer.
    have hnearest := h.nearest (x.ratio.1 / x.ratio.2)
    rw [← hnone] at hnearest
    have hexact := hnearest hself
    rw [zpow_zero, mul_one, ← hmagnitude, sub_self, abs_zero] at hexact
    exact sub_eq_zero.mp (abs_nonpos_iff.mp hexact)
  · have hcovers := h.covers
    rw [Decimal.value_eq_cast hexp] at hcovers ⊢
    refine hcovers.eq_exactMagnitude ?_
    have hpower : x.power ≤ 1 := by
      refine h.covers.power_le
        ((leadingExponent_bounds (digits_ne_zero h.covers hzero)).2.trans_le ?_)
      exact_mod_cast zpow_le_zpow_right₀ (a := (10 : ℚ)) (by norm_num)
        (show d.leadingExponent + 1 ≤ (16 : Nat) by omega)
    -- A multiple of ten is even, which is all that the grid of the value asks for.
    calc 2 ^ x.power.toNat ∣ 2 ^ 1 := Nat.pow_dvd_pow 2 (by omega)
      _ ∣ 10 ^ 1 := by decide
      _ ∣ 10 ^ d.exponent.toNat := Nat.pow_dvd_pow 10 (by omega)
      _ ∣ d.digits * 10 ^ d.exponent.toNat := Nat.dvd_mul_left _ _

theorem positional_shortest_of_isIntegral {x : Binary64} (tie : Tie) (hwhole : x.isIntegral = true)
    (hlead : x.isZero = true ∨ (x.shortest tie).leadingExponent ≤ 15) :
    (x.shortest tie).positional true = x.oneDecimal := by
  by_cases hzero : x.isZero = true
  · rw [shortest_of_isZero hzero, oneDecimal_of_exactMagnitude (exactMagnitude_of_isZero hzero)]
    rfl
  · have hnonzero : x.isZero = false := by simpa using hzero
    have hcoarsest := isCoarsest_shortest hnonzero tie
    obtain ⟨hexp, hvalue⟩ :=
      hcoarsest.value_eq_of_isIntegral hnonzero hwhole (hlead.resolve_left hzero)
    have hdigits := Nat.pos_of_ne_zero (digits_ne_zero hcoarsest.covers hnonzero)
    rw [Decimal.value_eq_cast hexp] at hvalue
    rw [oneDecimal_of_exactMagnitude hvalue.symm, decimalDigits_mul_pow hdigits,
      Decimal.positional, if_pos hexp]
    rfl

theorem positional_shortest_of_not_isIntegral {x : Binary64} (tie : Tie) (hfin : x.isFinite = true)
    (hzero : x.isZero = false) (hfraction : x.isIntegral = false) :
    (x.shortest tie).positional true = (x.shortest tie).positional false := by
  have hexp := exponent_neg_of_not_isIntegral hfin (isCoarsest_shortest hzero tie).covers hfraction
  rw [Decimal.positional, Decimal.positional, if_neg hexp.not_ge, if_neg hexp.not_ge]

end Binary64

namespace Script

/-- Whether a literal has an exponent: a zero has none, nor has a number whose shortest decimal `d`
has its leading digit between the fourth place after the point and the sixteenth before it. -/
def HasExponent (x : Binary64) (d : Decimal) : Prop :=
  x.isZero = false ∧ (d.leadingExponent < -4 ∨ 15 < d.leadingExponent)

instance (x : Binary64) (d : Decimal) : Decidable (HasExponent x d) :=
  inferInstanceAs (Decidable (_ ∧ _))

/-- A text is the literal of a finite number with the shortest decimal `d`. -/
structure IsLiteral (x : Binary64) (d : Decimal) (text : List Char) : Prop where
  /-- After the sign comes a float literal whose exact value is the decimal. -/
  denotes : ∃ body, text = (if x.negative then ['-'] else []) ++ body ∧
    Python.floatValue? body = some d.value
  notInteger : '.' ∈ text ∨ 'e' ∈ text
  shortest : x.IsShortest d
  /-- The text reads back as the number, a zero with its sign. -/
  reads : Binary64.ofText? text = some x
  exponent : 'e' ∈ text ↔ HasExponent x d
  /-- The three layouts. The one for whole numbers is the exact expansion to one decimal. -/
  layout : text = (if x.negative then ['-'] else []) ++
    if HasExponent x d then d.scientific 2
    else if x.isIntegral then x.oneDecimal
    else d.positional false

theorem magnitude_eq (x : Binary64) : numberLayout.magnitude x =
    if HasExponent x (x.shortest .up) then (x.shortest .up).scientific 2
    else (x.shortest .up).positional true := by
  have hpositional :
      (x.isZero || numberLayout.positional (x.shortest .up).leadingExponent) = true ↔
        ¬HasExponent x (x.shortest .up) := by
    simp only [HasExponent, numberLayout, Bool.or_eq_true, Bool.and_eq_true, decide_eq_true_eq]
    cases x.isZero <;> simp
  by_cases hexponent : HasExponent x (x.shortest .up)
  · rw [if_pos hexponent]
    exact if_neg fun h => hpositional.mp h hexponent
  · rw [if_neg hexponent]
    exact if_pos (hpositional.mpr hexponent)

theorem magnitude_eq_layout {x : Binary64} (hfin : x.isFinite = true) : numberLayout.magnitude x =
    if HasExponent x (x.shortest .up) then (x.shortest .up).scientific 2
    else if x.isIntegral then x.oneDecimal
    else (x.shortest .up).positional false := by
  rw [magnitude_eq]
  split_ifs with hexponent hwhole
  · rfl
  · apply Binary64.positional_shortest_of_isIntegral _ hwhole
    simp only [HasExponent, not_and_or, not_or, not_lt, Bool.not_eq_false] at hexponent
    exact hexponent.imp_right And.right
  · have hfraction : x.isIntegral = false := by simpa using hwhole
    have hzero : x.isZero = false := by
      by_contra hzero
      have hmagnitude := Binary64.exactMagnitude_of_isZero (by simpa using hzero)
      exact hwhole (Binary64.isIntegral_of_exactMagnitude hfin hmagnitude).1
    exact Binary64.positional_shortest_of_not_isIntegral _ hfin hzero hfraction

theorem floatValue?_magnitude (x : Binary64) :
    Python.floatValue? (numberLayout.magnitude x) = some (x.shortest .up).value := by
  rw [magnitude_eq]
  split
  · exact Decimal.floatValue?_scientific 2 _
  · exact Decimal.floatValue?_positional _

theorem exponent_mem_magnitude (x : Binary64) :
    'e' ∈ numberLayout.magnitude x ↔ HasExponent x (x.shortest .up) := by
  rw [magnitude_eq]
  split
  · rename_i hexponent
    obtain ⟨c, fraction, rest, heq, -⟩ := (x.shortest .up).scientific_split 2
    refine iff_of_true ?_ hexponent
    rw [heq]
    exact List.mem_append_right _ List.mem_cons_self
  · rename_i hexponent
    refine iff_of_false (fun hmem => ?_) hexponent
    cases (positional_shape (x.shortest .up)).1 _ hmem

theorem point_mem_magnitude {x : Binary64} (h : ¬HasExponent x (x.shortest .up)) :
    '.' ∈ numberLayout.magnitude x := by
  rw [magnitude_eq, if_neg h]
  exact (positional_shape _).2

/-- The literal of a finite number stands for the shortest decimal that is rounded to the number,
and different numbers have different literals. -/
theorem numberText_isLiteral {x : Binary64} (hfin : x.isFinite = true) :
    IsLiteral x (x.shortest .up) (numberText x).toList ∧
      ∀ y : Binary64, y.isFinite = true → numberText y = numberText x → y = x := by
  have htext := numberText_of_isFinite hfin
  have hexponent : 'e' ∈ (numberText x).toList ↔ HasExponent x (x.shortest .up) := by
    have hsign : 'e' ∉ (if x.negative then ['-'] else []) := by
      split <;> simp
    rw [htext, List.mem_append, or_iff_right hsign, exponent_mem_magnitude]
  have hinteger : '.' ∈ (numberText x).toList ∨ 'e' ∈ (numberText x).toList := by
    by_cases h : HasExponent x (x.shortest .up)
    · exact .inr (hexponent.mpr h)
    · rw [htext]
      exact .inl (List.mem_append_right _ (point_mem_magnitude h))
  refine ⟨⟨⟨_, htext, floatValue?_magnitude x⟩, hinteger, Binary64.isShortest_shortest hfin _,
    ofText?_numberText hfin, hexponent, ?_⟩, fun y hy => numberText_injective hy hfin⟩
  rw [htext, magnitude_eq_layout hfin]

theorem numberText_isLiteral_sixteen_digits :
    (Binary64.ofBits 0x4340000000000001).isFinite = true ∧
      IsLiteral (.ofBits 0x4340000000000001) ⟨9007199254740994, 0⟩ "9007199254740994.0".toList ∧
      ∀ y : Binary64, y.isFinite = true → numberText y = "9007199254740994.0" →
        y = .ofBits 0x4340000000000001 := by
  have hfin : (Binary64.ofBits 0x4340000000000001).isFinite = true := by decide
  have hshortest : (Binary64.ofBits 0x4340000000000001).shortest .up = ⟨9007199254740994, 0⟩ := by
    decide
  have htext : numberText (.ofBits 0x4340000000000001) = "9007199254740994.0" := by decide
  have h := numberText_isLiteral hfin
  rw [hshortest, htext] at h
  exact ⟨hfin, h⟩

end Script

end WordBlocks
