import WordBlocks.Proofs.ShortestDecimal
import WordBlocks.Script.Literal

/-!
Numbers in scripts. The literal of a finite number reads back as that number, so different numbers
have different literals, and it consists of digits, a point, signs and the mark of an exponent.
-/

namespace WordBlocks

theorem digitsValue_append (ds es : List Char) :
    digitsValue (ds ++ es) = digitsValue ds * 10 ^ es.length + digitsValue es := by
  have hsplit : digitsValue (ds ++ es) = Nat.ofDigitChars 10 es (digitsValue ds) :=
    Nat.ofDigitChars_append 0
  rw [hsplit, Nat.ofDigitChars_eq_ofDigitChars_zero, Nat.mul_comm]
  rfl

theorem digitsValue_decimalDigits (n : Nat) : digitsValue (decimalDigits n) = n :=
  Nat.ofDigitChars_ten_toDigits

theorem digitsValue_replicate_zero (n : Nat) : digitsValue (List.replicate n '0') = 0 := by
  have h : digitsValue (List.replicate n '0') = 10 ^ n * 0 := Nat.ofDigitChars_replicate_zero
  rw [h, Nat.mul_zero]

theorem isDigit_of_mem_decimalDigits {n : Nat} {c : Char} (h : c ∈ decimalDigits n) :
    c.isDigit = true :=
  Nat.isDigit_of_mem_toDigits (by decide) (by decide) h

theorem decimalDigits_ne_nil (n : Nat) : decimalDigits n ≠ [] :=
  Nat.toDigits_ne_nil

theorem toList_toString (n : Nat) : (toString n).toList = decimalDigits n := by
  rw [Nat.toString_eq_repr, Nat.toList_repr]
  rfl

theorem isDigit_of_mem_toString {n : Nat} {c : Char} (h : c ∈ (toString n).toList) :
    c.isDigit = true := by
  rw [toList_toString] at h
  exact isDigit_of_mem_decimalDigits h

theorem isDigit_of_mem_replicate_zero {n : Nat} {c : Char} (h : c ∈ List.replicate n '0') :
    c.isDigit = true := by
  rw [List.eq_of_mem_replicate h]
  rfl

/-- A text ends a run of characters: it is empty or starts with another character. -/
def EndsRun (p : Char → Bool) (rest : List Char) : Prop :=
  ∀ c ∈ rest.head?, p c = false

theorem endsRun_nil (p : Char → Bool) : EndsRun p [] := by
  simp [EndsRun]

theorem endsRun_cons {p : Char → Bool} {c : Char} {rest : List Char} (h : p c = false) :
    EndsRun p (c :: rest) := by
  intro c' hc'
  obtain rfl := Option.some.inj hc'
  exact h

theorem takeWhile_run {p : Char → Bool} {run rest : List Char} (hrun : ∀ c ∈ run, p c = true)
    (hrest : EndsRun p rest) : (run ++ rest).takeWhile p = run := by
  rw [List.takeWhile_append_of_pos hrun]
  cases rest with
  | nil => simp
  | cons c cs => simp [hrest c rfl]

theorem dropWhile_run {p : Char → Bool} {run rest : List Char} (hrun : ∀ c ∈ run, p c = true)
    (hrest : EndsRun p rest) : (run ++ rest).dropWhile p = rest := by
  rw [List.dropWhile_append_of_pos hrun]
  cases rest with
  | nil => simp
  | cons c cs => simp [hrest c rfl]

namespace Binary64

theorem ofNumeral?_point (negative : Bool) (whole fraction : List Char) {rest : List Char} {e : Int}
    (hne : whole ≠ []) (hwhole : ∀ c ∈ whole, c.isDigit = true)
    (hfraction : ∀ c ∈ fraction, c.isDigit = true) (hrest : EndsRun Char.isDigit rest)
    (he : readExponent? rest = some e) :
    ofNumeral? negative (whole ++ '.' :: (fraction ++ rest)) =
      some (ofDecimal negative (digitsValue (whole ++ fraction)) (e - fraction.length)) := by
  have hpoint : EndsRun Char.isDigit ('.' :: (fraction ++ rest)) := endsRun_cons rfl
  unfold ofNumeral?
  simp only [takeWhile_run hwhole hpoint, dropWhile_run hwhole hpoint,
    takeWhile_run hfraction hrest, dropWhile_run hfraction hrest]
  simp [hne, he]

theorem ofNumeral?_fraction (negative : Bool) (whole fraction : List Char) (hne : whole ≠ [])
    (hwhole : ∀ c ∈ whole, c.isDigit = true) (hfraction : ∀ c ∈ fraction, c.isDigit = true) :
    ofNumeral? negative (whole ++ '.' :: fraction) =
      some (ofDecimal negative (digitsValue (whole ++ fraction)) (-fraction.length)) := by
  have h := ofNumeral?_point negative whole fraction hne hwhole hfraction (endsRun_nil _) rfl
  rwa [List.append_nil, Int.zero_sub] at h

theorem ofNumeral?_exponent (negative : Bool) {whole rest : List Char} {e : Int}
    (hne : whole ≠ []) (hwhole : ∀ c ∈ whole, c.isDigit = true)
    (he : readExponent? ('e' :: rest) = some e) :
    ofNumeral? negative (whole ++ 'e' :: rest) =
      some (ofDecimal negative (digitsValue whole) e) := by
  have hmark : EndsRun Char.isDigit ('e' :: rest) := endsRun_cons rfl
  unfold ofNumeral?
  simp only [takeWhile_run hwhole hmark, dropWhile_run hwhole hmark]
  simp [hne, he]

theorem readExponent?_signed (e : Int) (n : Nat) :
    readExponent? ('e' :: (if e < 0 then '-' else '+') ::
      (List.replicate n '0' ++ decimalDigits e.natAbs)) = some e := by
  have hdigits : ∀ c ∈ List.replicate n '0' ++ decimalDigits e.natAbs, c.isDigit = true := by
    intro c hc
    rcases List.mem_append.mp hc with hc | hc
    · exact isDigit_of_mem_replicate_zero hc
    · exact isDigit_of_mem_decimalDigits hc
  have hvalue : digitsValue (List.replicate n '0' ++ decimalDigits e.natAbs) = e.natAbs := by
    simp [digitsValue_append, digitsValue_replicate_zero, digitsValue_decimalDigits]
  have hall : (List.replicate n '0' ++ decimalDigits e.natAbs).all Char.isDigit = true :=
    List.all_eq_true.mpr hdigits
  have hne := decimalDigits_ne_nil e.natAbs
  unfold readExponent?
  by_cases hneg : e < 0
  · have habs : -((e.natAbs : Nat) : Int) = e := by omega
    simp only [hneg, if_true, splitSign, hvalue, hall, habs]
    simp [hne]
  · have habs : ((e.natAbs : Nat) : Int) = e := by omega
    simp only [hneg, if_false, splitSign, hvalue, hall, habs]
    simp [hne]

end Binary64

namespace Decimal

theorem isDigit_of_mem_text {d : Decimal} {c : Char} (h : c ∈ d.text) : c.isDigit = true :=
  isDigit_of_mem_decimalDigits h

theorem text_ne_nil (d : Decimal) : d.text ≠ [] :=
  decimalDigits_ne_nil d.digits

theorem digitsValue_text (d : Decimal) : digitsValue d.text = d.digits :=
  digitsValue_decimalDigits d.digits

theorem positional_split (d : Decimal) : ∃ whole fraction,
    d.positional true = whole ++ '.' :: fraction ∧ whole ≠ [] ∧
      (∀ c ∈ whole, c.isDigit = true) ∧ (∀ c ∈ fraction, c.isDigit = true) ∧
      (digitsValue (whole ++ fraction) : ℚ) * 10 ^ (-(fraction.length : Int)) = d.value := by
  have htext : ∀ c ∈ d.text, c.isDigit = true := fun _ => isDigit_of_mem_text
  have hzero : digitsValue ['0'] = 0 := rfl
  unfold positional
  dsimp only
  split
  · rename_i hexp
    have hwhole : ∀ c ∈ d.text ++ List.replicate d.exponent.toNat '0', c.isDigit = true := by
      intro c hc
      rcases List.mem_append.mp hc with hc | hc
      · exact htext c hc
      · exact isDigit_of_mem_replicate_zero hc
    refine ⟨_, ['0'], rfl, by simp [text_ne_nil], hwhole, List.forall_mem_singleton.mpr rfl, ?_⟩
    have hpower : (10 : ℚ) ^ d.exponent = 10 ^ d.exponent.toNat := by
      rw [← zpow_natCast, Int.toNat_of_nonneg hexp]
    simp only [digitsValue_append, digitsValue_text, digitsValue_replicate_zero, hzero, value,
      hpower]
    push_cast
    norm_num
    ring
  · rename_i hexp
    split
    · rename_i hplaces
      have hne : d.text.take (d.text.length - (-d.exponent).toNat) ≠ [] := by
        rw [ne_eq, List.take_eq_nil_iff, not_or]
        exact ⟨by omega, d.text_ne_nil⟩
      refine ⟨_, _, rfl, hne, fun c hc => htext c (List.mem_of_mem_take hc),
        fun c hc => htext c (List.mem_of_mem_drop hc), ?_⟩
      have hexponent : -((d.text.drop (d.text.length - (-d.exponent).toNat)).length : Int) =
          d.exponent := by
        rw [List.length_drop]
        omega
      rw [List.take_append_drop, digitsValue_text, hexponent, value]
    · rename_i hplaces
      have hfraction : ∀ c ∈ List.replicate ((-d.exponent).toNat - d.text.length) '0' ++ d.text,
          c.isDigit = true := by
        intro c hc
        rcases List.mem_append.mp hc with hc | hc
        · exact isDigit_of_mem_replicate_zero hc
        · exact htext c hc
      refine ⟨['0'], List.replicate ((-d.exponent).toNat - d.text.length) '0' ++ d.text, rfl,
        by simp, List.forall_mem_singleton.mpr rfl, hfraction, ?_⟩
      have hexponent : -((List.replicate ((-d.exponent).toNat - d.text.length) '0' ++
          d.text).length : Int) = d.exponent := by
        rw [List.length_append, List.length_replicate]
        omega
      rw [hexponent, digitsValue_append, digitsValue_append, hzero, digitsValue_replicate_zero,
        digitsValue_text, value]
      simp

/-- The scientific layout is the digits with a point after the first one, if there are more, and an
exponent. -/
theorem scientific_split (width : Nat) (d : Decimal) : ∃ c fraction rest,
    d.scientific width = c :: (if fraction = [] then [] else '.' :: fraction) ++ 'e' :: rest ∧
      d.text = c :: fraction ∧ d.leadingExponent - fraction.length = d.exponent ∧
      Binary64.readExponent? ('e' :: rest) = some d.leadingExponent := by
  obtain ⟨c, fraction, htext⟩ := List.exists_cons_of_ne_nil d.text_ne_nil
  refine ⟨c, fraction, _, ?_, htext, ?_, Binary64.readExponent?_signed d.leadingExponent
    (width - (decimalDigits d.leadingExponent.natAbs).length)⟩
  · unfold scientific
    dsimp only
    rw [htext, List.append_assoc]
    cases fraction <;> rfl
  · rw [leadingExponent, htext, List.length_cons]
    push_cast
    omega

theorem ofNumeral?_positional (negative : Bool) (d : Decimal) :
    ∃ c k, Binary64.ofNumeral? negative (d.positional true) =
      some (Binary64.ofDecimal negative c k) ∧ (c : ℚ) * 10 ^ k = d.value := by
  obtain ⟨whole, fraction, heq, hne, hwhole, hfraction, hvalue⟩ := d.positional_split
  rw [heq]
  exact ⟨_, _, Binary64.ofNumeral?_fraction negative whole fraction hne hwhole hfraction, hvalue⟩

theorem ofNumeral?_scientific (negative : Bool) (width : Nat) (d : Decimal) :
    Binary64.ofNumeral? negative (d.scientific width) =
      some (Binary64.ofDecimal negative d.digits d.exponent) := by
  have hdigits : ∀ c ∈ d.text, c.isDigit = true := fun _ => isDigit_of_mem_text
  have hvalue := d.digitsValue_text
  obtain ⟨c, fraction, rest, heq, htext, hexp, hread⟩ := d.scientific_split width
  rw [htext] at hdigits hvalue
  obtain ⟨hc, hfraction⟩ := List.forall_mem_cons.mp hdigits
  have hlead : ∀ c' ∈ [c], c'.isDigit = true := List.forall_mem_singleton.mpr hc
  rw [heq]
  cases fraction with
  | nil =>
      rw [List.length_nil, Nat.cast_zero, Int.sub_zero] at hexp
      have h := Binary64.ofNumeral?_exponent negative (by simp) hlead hread
      rwa [hvalue, hexp] at h
  | cons c' cs =>
      have h := Binary64.ofNumeral?_point negative [c] (c' :: cs) (by simp) hlead hfraction
        (endsRun_cons rfl) hread
      have hjoined : digitsValue ([c] ++ c' :: cs) = d.digits := hvalue
      rwa [hjoined, hexp] at h

end Decimal

namespace Script

/-- The characters of a finite number. -/
def isNumeralChar (c : Char) : Bool :=
  c.isDigit || c == '.' || c == 'e' || c == '+' || c == '-'

theorem isNumeralChar_of_isDigit {c : Char} (h : c.isDigit = true) : isNumeralChar c = true := by
  simp [isNumeralChar, h]

theorem positional_chars (point : Bool) (d : Decimal) :
    ∀ c ∈ d.positional point, isNumeralChar c = true := by
  have htext : ∀ c ∈ d.text, isNumeralChar c = true :=
    fun _ hc => isNumeralChar_of_isDigit (Decimal.isDigit_of_mem_text hc)
  have hpoint : isNumeralChar '.' = true := rfl
  have hzero : isNumeralChar '0' = true := rfl
  have htake := fun n c (hc : c ∈ d.text.take n) => htext c (List.mem_of_mem_take hc)
  have hdrop := fun n c (hc : c ∈ d.text.drop n) => htext c (List.mem_of_mem_drop hc)
  unfold Decimal.positional
  grind

theorem scientific_chars (width : Nat) (d : Decimal) :
    ∀ c ∈ d.scientific width, isNumeralChar c = true := by
  have htext : ∀ c ∈ d.text, isNumeralChar c = true :=
    fun _ hc => isNumeralChar_of_isDigit (Decimal.isDigit_of_mem_text hc)
  have hexponent : ∀ c ∈ decimalDigits d.leadingExponent.natAbs, isNumeralChar c = true :=
    fun _ hc => isNumeralChar_of_isDigit (isDigit_of_mem_decimalDigits hc)
  intro c hc
  simp only [Decimal.scientific, List.mem_append, List.mem_cons] at hc
  rcases hc with (hc | rfl | rfl | hc) | hc
  · split at hc
    · simp at hc
    · grind
    · have hpoint : isNumeralChar '.' = true := rfl
      grind
  · rfl
  · split <;> rfl
  · exact isNumeralChar_of_isDigit (isDigit_of_mem_replicate_zero hc)
  · exact hexponent c hc

theorem magnitude_chars (x : Binary64) :
    ∀ c ∈ numberLayout.magnitude x, isNumeralChar c = true := by
  unfold NumberLayout.magnitude
  dsimp only
  split
  · exact positional_chars _ _
  · exact scientific_chars _ _

theorem magnitude_head (x : Binary64) :
    ∃ c cs, numberLayout.magnitude x = c :: cs ∧ c.isDigit = true := by
  unfold NumberLayout.magnitude
  dsimp only
  generalize x.shortest numberLayout.tie = d
  obtain ⟨c, cs, htext⟩ := List.exists_cons_of_ne_nil d.text_ne_nil
  have hc : c.isDigit = true := Decimal.isDigit_of_mem_text (htext ▸ List.mem_cons_self)
  split
  · unfold Decimal.positional
    dsimp only
    rw [htext]
    split
    · exact ⟨c, _, rfl, hc⟩
    · split
      · rename_i hplaces
        obtain ⟨n, hn⟩ : ∃ n, (c :: cs).length - (-d.exponent).toNat = n + 1 :=
          Nat.exists_eq_succ_of_ne_zero (by omega)
        rw [hn]
        exact ⟨c, _, rfl, hc⟩
      · exact ⟨'0', _, rfl, rfl⟩
  · unfold Decimal.scientific
    dsimp only
    rw [htext]
    cases cs with
    | nil => exact ⟨c, _, rfl, hc⟩
    | cons => exact ⟨c, _, rfl, hc⟩

theorem ofNumeral?_magnitude {x : Binary64} (hfin : x.isFinite = true) :
    Binary64.ofNumeral? x.negative (numberLayout.magnitude x) = some x := by
  obtain ⟨c, k, hread, hvalue⟩ :=
    Decimal.ofNumeral?_positional x.negative (x.shortest numberLayout.tie)
  unfold NumberLayout.magnitude
  dsimp only
  by_cases hzero : x.isZero = true
  · rw [if_pos (by simp [hzero])]
    have hc : c = 0 := by
      rw [Binary64.shortest_of_isZero hzero] at hvalue
      simpa [Decimal.value, zpow_ne_zero] using hvalue
    have hx : Binary64.zero x.negative = x := by
      simp only [Binary64.isZero, Bool.and_eq_true, beq_iff_eq] at hzero
      exact congrArg₂ (Binary64.mk x.negative) (Fin.ext hzero.1.symm) (Fin.ext hzero.2.symm)
    rw [show numberLayout.point = true from rfl, hread, hc, Binary64.ofDecimal, if_pos rfl, hx]
  · have hnonzero : x.isZero = false := by simpa using hzero
    have hcovers := (Binary64.isCoarsest_shortest hnonzero numberLayout.tie).covers
    split
    · have hround : Binary64.ofDecimal x.negative c k = x :=
        Binary64.ofDecimal_of_covers hfin hnonzero (hvalue ▸ hcovers)
      rw [show numberLayout.point = true from rfl, hread, hround]
    · rw [Decimal.ofNumeral?_scientific, Binary64.ofDecimal_of_covers hfin hnonzero hcovers]

theorem numberText_of_isFinite {x : Binary64} (hfin : x.isFinite = true) :
    (numberText x).toList =
      (if x.negative then ['-'] else []) ++ numberLayout.magnitude x := by
  simp only [Binary64.isFinite, bne_iff_ne] at hfin
  unfold numberText NumberLayout.write
  rw [if_neg (by simp [Binary64.isNaN, hfin]), if_neg (by simp [Binary64.isInfinite, hfin]),
    String.toList_ofList]

theorem toLower_of_isDigit {c : Char} (h : c.isDigit = true) : c.toLower = c := by
  simp only [Char.isDigit, Bool.and_eq_true, decide_eq_true_eq] at h
  unfold Char.toLower
  rw [dif_neg]
  rintro ⟨hc, _⟩
  have hdigit := UInt32.le_iff_toNat_le.mp h.2
  have hletter := UInt32.le_iff_toNat_le.mp hc
  simp at hdigit hletter
  omega

/-- The literal of a finite number reads back as the number. -/
theorem ofText?_numberText {x : Binary64} (hfin : x.isFinite = true) :
    Binary64.ofText? (numberText x).toList = some x := by
  obtain ⟨c, cs, hmagnitude, hc⟩ := magnitude_head x
  have hread := ofNumeral?_magnitude hfin
  have hbody : splitSign (numberText x).toList = (x.negative, numberLayout.magnitude x) := by
    rw [numberText_of_isFinite hfin, hmagnitude]
    cases x.negative with
    | true => rfl
    | false =>
        simp only [Bool.false_eq_true, if_false, List.nil_append]
        unfold splitSign
        split <;> simp_all
  have hword : ∀ w : List Char, (w.head?.all Char.isDigit) = false →
      (numberLayout.magnitude x).map Char.toLower ≠ w := by
    rintro _ hw rfl
    rw [hmagnitude, List.map_cons, toLower_of_isDigit hc] at hw
    simp [hc] at hw
  unfold Binary64.ofText?
  rw [hbody]
  dsimp only
  rw [if_neg (not_or.mpr ⟨hword _ (by decide), hword _ (by decide)⟩),
    if_neg (hword _ (by decide)), hread]

theorem numberText_injective {x y : Binary64} (hx : x.isFinite = true) (hy : y.isFinite = true)
    (h : numberText x = numberText y) : x = y := by
  have hread := ofText?_numberText hx
  rw [h, ofText?_numberText hy] at hread
  exact (Option.some.inj hread).symm

theorem numberText_chars {x : Binary64} (hfin : x.isFinite = true) :
    ∀ c ∈ (numberText x).toList, isNumeralChar c = true := by
  intro c hc
  rw [numberText_of_isFinite hfin] at hc
  rcases List.mem_append.mp hc with hc | hc
  · obtain rfl : c = '-' := by
      split at hc <;> simp_all
    rfl
  · exact magnitude_chars x c hc

/-- The characters of a number without an exponent. -/
def isPointChar (c : Char) : Bool :=
  c.isDigit || c == '.'

theorem isPointChar_of_isDigit {c : Char} (h : c.isDigit = true) : isPointChar c = true := by
  simp [isPointChar, h]

theorem positional_shape (d : Decimal) :
    (∀ c ∈ d.positional true, isPointChar c = true) ∧ '.' ∈ d.positional true := by
  have htext : ∀ c ∈ d.text, isPointChar c = true :=
    fun _ hc => isPointChar_of_isDigit (Decimal.isDigit_of_mem_text hc)
  have hpoint : isPointChar '.' = true := rfl
  have hzero : isPointChar '0' = true := rfl
  have htake := fun n c (hc : c ∈ d.text.take n) => htext c (List.mem_of_mem_take hc)
  have hdrop := fun n c (hc : c ∈ d.text.drop n) => htext c (List.mem_of_mem_drop hc)
  unfold Decimal.positional
  constructor
  · grind
  · grind

theorem scientific_shape (width : Nat) (d : Decimal) : ∃ lead sign ds,
    d.scientific width = lead ++ 'e' :: sign :: ds ∧ (∀ c ∈ lead, isPointChar c = true) ∧
      (sign = '+' ∨ sign = '-') ∧ ∀ c ∈ ds, c.isDigit = true := by
  have htext : ∀ c ∈ d.text, isPointChar c = true :=
    fun _ hc => isPointChar_of_isDigit (Decimal.isDigit_of_mem_text hc)
  have hpoint : isPointChar '.' = true := rfl
  refine ⟨_, _, _, List.append_assoc _ _ _, ?_, ?_, fun c hc => ?_⟩
  · split
    · simp
    · grind
    · grind
  · split
    · exact .inr rfl
    · exact .inl rfl
  · rcases List.mem_append.mp hc with hc | hc
    · exact isDigit_of_mem_replicate_zero hc
    · exact isDigit_of_mem_decimalDigits hc

theorem magnitude_shape (x : Binary64) : ∃ lead tail,
    numberLayout.magnitude x = lead ++ tail ∧ (∀ c ∈ lead, isPointChar c = true) ∧
      (tail = [] ∧ '.' ∈ lead ∨ ∃ sign ds, tail = 'e' :: sign :: ds ∧ (sign = '+' ∨ sign = '-') ∧
        ∀ c ∈ ds, c.isDigit = true) := by
  unfold NumberLayout.magnitude
  dsimp only
  split
  · obtain ⟨hchars, hpoint⟩ := positional_shape (x.shortest numberLayout.tie)
    exact ⟨_, [], (List.append_nil _).symm, hchars, .inl ⟨rfl, hpoint⟩⟩
  · obtain ⟨lead, sign, ds, heq, hlead, hsign, hds⟩ := scientific_shape
      numberLayout.exponentWidth (x.shortest numberLayout.tie)
    exact ⟨lead, _, heq, hlead, .inr ⟨sign, ds, rfl, hsign, hds⟩⟩

theorem shortestFrom_abs (tie : Tie) (x : Binary64) (steps : Nat) (k : Int) :
    Binary64.shortestFrom tie { x with negative := false } steps k =
      Binary64.shortestFrom tie x steps k := by
  induction steps generalizing k with
  | zero => rfl
  | succ steps ih =>
      have hnearest : Binary64.nearestMultiple? tie { x with negative := false } k =
          Binary64.nearestMultiple? tie x k := rfl
      rw [Binary64.shortestFrom, Binary64.shortestFrom, hnearest]
      split
      · rfl
      · exact ih _

theorem magnitude_abs (x : Binary64) : numberLayout.magnitude { x with negative := false } =
    numberLayout.magnitude x := by
  have hshortest (tie : Tie) :
      Binary64.shortest tie { x with negative := false } = Binary64.shortest tie x := by
    unfold Binary64.shortest
    dsimp only
    rw [shortestFrom_abs]
    rfl
  unfold NumberLayout.magnitude
  rw [hshortest]
  rfl

end Script

end WordBlocks
