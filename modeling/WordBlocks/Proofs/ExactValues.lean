import Mathlib.Tactic.LinearCombination
import WordBlocks.Proofs.ExprSyntax

/-!
Calculations over exact rational numbers. `Expr.value?` is the number that a calculation of word
blocks denotes, and `Python.evaluate` is the number that Python calculates from a text. The text
that is generated from a calculation gives the same number, except where a number below minus one
half is rounded: Python cuts the fraction off towards zero there (`evaluate_expr_iff`).
-/

namespace WordBlocks

open Script

/-- The nearest integer, and the greater one of two. -/
def nearest (a : ℚ) : ℤ :=
  round a

/-- The functions with rational values. A function of one argument ignores the second. -/
def MathFunction.value? : MathFunction → List ℚ → Option ℚ
  | abs, a :: _ => some |a|
  | floor, a :: _ => some ⌊a⌋
  | ceiling, a :: _ => some ⌈a⌉
  | min, [a, b] => some (Min.min a b)
  | max, [a, b] => some (Max.max a b)
  | _, _ => none

def UnaryOp.value? : UnaryOp → ℚ → Option ℚ
  | round, a => some (nearest a)
  | math f, a => f.value? [a]
  | not, _ | length, _ => none

/-- The remainder of a division by a number other than zero is that of the floored quotient. -/
def BinaryOp.value? : BinaryOp → ℚ → ℚ → Option ℚ
  | arithmetic .add, a, b => some (a + b)
  | arithmetic .sub, a, b => some (a - b)
  | arithmetic .mul, a, b => some (a * b)
  | modulo, a, b => if b = 0 then none else some (a - b * ⌊a / b⌋)
  | math f, a, b => f.value? [a, b]
  | _, _, _ => none

/-- The number that a calculation denotes. Numbers are finite and no remainder is one of a division
by zero. -/
def Expr.value? : Expr → Option ℚ
  | number x => if x.isFinite then some x.value else none
  | unary op e => e.value?.bind op.value?
  | binary op left right => left.value?.bind fun a => right.value?.bind (op.value? a)
  | _ => none

namespace Python

/-- The integer part of a number, which is nearer to zero. -/
def truncate (a : ℚ) : ℤ :=
  if a < 0 then ⌈a⌉ else ⌊a⌋

/-- The remainder of a division with the sign of the divisor: that of the truncated quotient, moved
by the divisor if its sign is the other one. -/
def remainder (a b : ℚ) : ℚ :=
  let r := a - b * truncate (a / b)
  if r ≠ 0 ∧ ¬(r < 0 ↔ b < 0) then r + b else r

def operation? (sign : String) (a b : ℚ) : Option ℚ :=
  match sign with
  | "+" => some (a + b)
  | "-" => some (a - b)
  | "*" => some (a * b)
  | "%" => if b = 0 then none else some (remainder a b)
  | _ => none

/-- The result of a function for its arguments. -/
def Tree.apply? : Tree → List ℚ → Option ℚ
  | .name "int", [a] => some (truncate a)
  | .name "abs", [a] => some |a|
  | .name "min", [a, b] => some (min a b)
  | .name "max", [a, b] => some (max a b)
  | .member (.name "math") "floor", [a] => some ⌊a⌋
  | .member (.name "math") "ceil", [a] => some ⌈a⌉
  | _, _ => none

mutual

/-- The number that a calculation gives. -/
def Tree.value? : Tree → Option ℚ
  | .integer n => some n
  | .float x => if x.isFinite then some x.value else none
  | .neg t => (- ·) <$> t.value?
  | .binary sign a b => a.value?.bind fun x => b.value?.bind (operation? sign x)
  | .call f arguments => (Tree.values? arguments).bind f.apply?
  | _ => none

/-- The numbers that several calculations give. -/
def Tree.values? : List Tree → Option (List ℚ)
  | [] => some []
  | t :: ts => t.value?.bind fun x => (x :: ·) <$> Tree.values? ts

end

/-- The number that Python calculates from a text. -/
def evaluate (text : String) : Option ℚ :=
  (parse text).bind Tree.value?

end Python

namespace Python

theorem truncate_cases (a : ℚ) :
    (0 ≤ a ∨ Int.fract a = 0) ∧ truncate a = ⌊a⌋ ∨
      (a < 0 ∧ Int.fract a ≠ 0) ∧ truncate a = ⌊a⌋ + 1 := by
  by_cases hneg : a < 0
  · by_cases hfract : Int.fract a = 0
    · obtain ⟨z, rfl⟩ := Int.fract_eq_zero_iff.mp hfract
      exact .inl ⟨.inr hfract, by simp [truncate]⟩
    · refine .inr ⟨⟨hneg, hfract⟩, ?_⟩
      rw [truncate, if_pos hneg]
      exact (Int.ceil_eq_floor_add_one_iff_notMem a).mpr fun h =>
        hfract (Int.fract_eq_zero_iff.mpr h)
  · exact .inl ⟨.inl (not_lt.mp hneg), if_neg hneg⟩

theorem truncate_eq_floor_iff (a : ℚ) : truncate a = ⌊a⌋ ↔ 0 ≤ a ∨ Int.fract a = 0 := by
  rcases truncate_cases a with ⟨hfloor, htruncate⟩ | ⟨⟨hneg, hfract⟩, htruncate⟩
  · simp [htruncate, hfloor]
  · simp [htruncate, hfract, hneg]

theorem remainder_eq {a b : ℚ} (hb : b ≠ 0) : remainder a b = a - b * ⌊a / b⌋ := by
  have hsplit : a = b * (⌊a / b⌋ + Int.fract (a / b)) := by
    rw [Int.floor_add_fract, mul_div_cancel₀ _ hb]
  have hlt := Int.fract_lt_one (a / b)
  have hnonneg := Int.fract_nonneg (a / b)
  rcases truncate_cases (a / b) with ⟨-, htruncate⟩ | ⟨-, htruncate⟩
  · -- The first remainder already has the sign of the divisor.
    have hr : a - b * truncate (a / b) = b * Int.fract (a / b) := by
      rw [htruncate]
      linear_combination hsplit
    have hkeep : ¬(b * Int.fract (a / b) ≠ 0 ∧ ¬(b * Int.fract (a / b) < 0 ↔ b < 0)) := by
      rintro ⟨hne, hsign⟩
      have hpos : 0 < Int.fract (a / b) := lt_of_le_of_ne hnonneg (right_ne_zero_of_mul hne).symm
      exact hsign ⟨fun h => neg_of_mul_neg_left h hnonneg, fun h => mul_neg_of_neg_of_pos h hpos⟩
    rw [remainder]
    simp only [hr]
    rw [if_neg hkeep]
    linear_combination -hsplit
  · have hr : a - b * truncate (a / b) = b * (Int.fract (a / b) - 1) := by
      rw [htruncate]
      push_cast
      linear_combination hsplit
    have hmove : b * (Int.fract (a / b) - 1) ≠ 0 ∧
        ¬(b * (Int.fract (a / b) - 1) < 0 ↔ b < 0) := by
      have hneg : Int.fract (a / b) - 1 < 0 := by linarith
      refine ⟨mul_ne_zero hb hneg.ne, fun h => ?_⟩
      rcases lt_or_gt_of_ne hb with hlow | hhigh
      · exact absurd (h.mpr hlow) (not_lt.mpr (mul_pos_of_neg_of_neg hlow hneg).le)
      · exact absurd (h.mp (mul_neg_of_pos_of_neg hhigh hneg)) (not_lt.mpr hhigh.le)
    rw [remainder]
    simp only [hr]
    rw [if_pos hmove]
    linear_combination -hsplit

end Python

/-- Numbers for which adding one half and truncating gives the nearest integer. -/
def RoundsByTruncation (a : ℚ) : Prop :=
  -1 / 2 ≤ a ∨ Int.fract a = 1 / 2

theorem truncate_add_half_eq_nearest_iff (a : ℚ) :
    Python.truncate (a + 1 / 2) = nearest a ↔ RoundsByTruncation a := by
  have hhalf : Int.fract (a + 1 / 2) = 0 ↔ Int.fract a = 1 / 2 := by
    constructor
    · intro h
      obtain ⟨z, hz⟩ := Int.fract_eq_zero_iff.mp h
      have ha : a = (z - 1 : ℤ) + 1 / 2 := by
        push_cast
        linear_combination -hz
      rw [ha, Int.fract_intCast_add]
      exact Int.fract_eq_self.mpr ⟨by norm_num, by norm_num⟩
    · intro h
      refine Int.fract_eq_zero_iff.mpr ⟨⌊a⌋ + 1, ?_⟩
      push_cast
      linear_combination -h + Int.floor_add_fract a
  rw [nearest, round_eq, Python.truncate_eq_floor_iff, hhalf, RoundsByTruncation]
  refine or_congr ⟨fun h => by linarith, fun h => by linarith⟩ Iff.rfl

theorem Binary64.value_half : half.value = 1 / 2 := by
  have hnegative : half.negative = false := rfl
  have hsignificand : half.significand = 4503599627370496 := rfl
  have hpower : half.power = -53 := rfl
  rw [value, hnegative, hsignificand, hpower]
  norm_num

theorem Binary64.value?_tree {x : Binary64} (h : x.isFinite = true) :
    x.tree.value? = some x.value := by
  have hexponent : x.exponent.val ≠ 2047 := by
    simpa [isFinite] using h
  rw [tree, if_neg (by simp [isNaN, hexponent]), if_neg (by simp [isInfinite, hexponent])]
  cases hsign : x.negative with
  | true =>
      have hvalue : { x with negative := false }.value = -x.value := by
        have hmagnitude : { x with negative := false }.value =
            1 * ((x.significand : ℚ) * 2 ^ x.power) := rfl
        rw [hmagnitude, value, hsign]
        simp
      simp [Python.Tree.value?, isFinite, hexponent, hvalue]
  | false => simp [Python.Tree.value?, h]

open Python (Tree)

theorem Python.Tree.value?_call_one {f t : Tree} {q : ℚ} (ht : t.value? = some q) :
    (Tree.call f [t]).value? = f.apply? [q] := by
  simp [Tree.value?, Tree.values?, ht]

theorem Python.Tree.value?_call_two {f t u : Tree} {q r : ℚ} (ht : t.value? = some q)
    (hu : u.value? = some r) : (Tree.call f [t, u]).value? = f.apply? [q, r] := by
  simp [Tree.value?, Tree.values?, ht, hu]

theorem Python.Tree.value?_binary {sign : String} {t u : Tree} {q r : ℚ} (ht : t.value? = some q)
    (hu : u.value? = some r) : (Tree.binary sign t u).value? = operation? sign q r := by
  simp [Tree.value?, ht, hu]

theorem UnaryOp.value?_round {t : Tree} {q : ℚ} (ht : t.value? = some q) :
    (round.tree t).value? = some (Python.truncate (q + 1 / 2)) := by
  have hhalf : (Tree.float .half).value? = some (1 / 2) := by
    exact congrArg some Binary64.value_half
  exact Python.Tree.value?_call_one (Python.Tree.value?_binary ht hhalf)

theorem UnaryOp.value?_tree {op : UnaryOp} {t : Tree} {q v : ℚ} (ht : t.value? = some q)
    (hv : op.value? q = some v) (hop : op ≠ .round) : (op.tree t).value? = some v := by
  cases op with
  | not | length => cases hv
  | round => exact absurd rfl hop
  | math f =>
      cases f with
      | abs | floor | ceiling => exact (Python.Tree.value?_call_one ht).trans hv
      | _ => cases hv

theorem BinaryOp.value?_tree {op : BinaryOp} {t u : Tree} {q r v : ℚ}
    (ht : t.value? = some q) (hu : u.value? = some r) (hv : op.value? q r = some v) :
    (op.tree t u).value? = some v := by
  cases op with
  | arithmetic op =>
      cases op with
      | add | sub | mul => exact (Python.Tree.value?_binary ht hu).trans hv
      | div => cases hv
  | modulo =>
      refine (Python.Tree.value?_binary ht hu).trans ?_
      rw [BinaryOp.value?] at hv
      split at hv
      · cases hv
      · next hr =>
          rw [← hv, ← Python.remainder_eq hr]
          exact if_neg hr
  | math f =>
      cases f with
      | abs | floor | ceiling => exact (Python.Tree.value?_call_one ht).trans hv
      | min | max => exact (Python.Tree.value?_call_two ht hu).trans hv
      | _ => cases hv
  | _ => cases hv

namespace Expr

theorem value?_unary_cases {op : UnaryOp} {a : Expr} {v : ℚ} (h : (unary op a).value? = some v) :
    ∃ q, a.value? = some q ∧ op.value? q = some v :=
  Option.bind_eq_some_iff.mp h

theorem value?_binary_cases {op : BinaryOp} {a b : Expr} {v : ℚ}
    (h : (binary op a b).value? = some v) :
    ∃ q r, a.value? = some q ∧ b.value? = some r ∧ op.value? q r = some v := by
  obtain ⟨q, ha, h⟩ := Option.bind_eq_some_iff.mp h
  obtain ⟨r, hb, h⟩ := Option.bind_eq_some_iff.mp h
  exact ⟨q, r, ha, hb, h⟩

theorem exists_value_of_mem_visited {e : Expr} {v : ℚ} (h : e.value? = some v) :
    ∀ x ∈ e.visited, ∃ w, x.value? = some w := by
  induction e generalizing v with
  | number x => simp_all [visited]
  | unary op a ih =>
      obtain ⟨q, ha, -⟩ := value?_unary_cases h
      exact List.forall_mem_cons.mpr ⟨⟨v, h⟩, ih ha⟩
  | binary op a b iha ihb =>
      obtain ⟨q, r, ha, hb, -⟩ := value?_binary_cases h
      exact List.forall_mem_cons.mpr ⟨⟨v, h⟩, List.forall_mem_append.mpr ⟨iha ha, ihb hb⟩⟩
  | _ => cases h

theorem exists_script_of_value? {e : Expr} {v : ℚ} (h : e.value? = some v) :
    ∃ t, e.script = .ok t := by
  induction e generalizing v with
  | number x => exact ⟨_, rfl⟩
  | unary op a ih =>
      obtain ⟨q, ha, hv⟩ := value?_unary_cases h
      obtain ⟨t, ht⟩ := ih ha
      have htext : ∃ u, op.text t = .ok u := by
        cases op with
        | math f =>
            cases f with
            | abs | floor | ceiling => exact ⟨_, rfl⟩
            | _ => cases hv
        | _ => exact ⟨_, rfl⟩
      obtain ⟨u, hu⟩ := htext
      exact ⟨u, bind_eq_ok_iff.mpr ⟨t, ht, hu⟩⟩
  | binary op a b iha ihb =>
      obtain ⟨q, r, ha, hb, -⟩ := value?_binary_cases h
      obtain ⟨t, ht⟩ := iha ha
      obtain ⟨u, hu⟩ := ihb hb
      exact ⟨op.text t u, bind_eq_ok_iff.mpr ⟨t, ht, bind_eq_ok_iff.mpr ⟨u, hu, rfl⟩⟩⟩
  | _ => cases h

theorem plain_of_value? {e : Expr} {v : ℚ} (h : e.value? = some v) :
    e.isPredicate = false ∧ e.letters = [] := by
  cases e with
  | number x => exact ⟨rfl, rfl⟩
  | unary op a =>
      obtain ⟨q, -, hv⟩ := value?_unary_cases h
      cases op with
      | not => cases hv
      | _ => exact ⟨rfl, rfl⟩
  | binary op a b =>
      obtain ⟨q, r, -, -, hv⟩ := value?_binary_cases h
      cases op with
      | comparison _ | and | or | contains => cases hv
      | _ => exact ⟨rfl, rfl⟩
  | _ => cases h

theorem wellSorted_of_value? {e : Expr} {v : ℚ} (h : e.value? = some v) : e.WellSorted := by
  intro x hx operand hoperand
  obtain ⟨w, hw⟩ := exists_value_of_mem_visited h x hx
  have hvalue : ∃ q, operand.value? = some q := by
    cases x with
    | unary op a =>
        obtain ⟨q, ha, -⟩ := value?_unary_cases hw
        cases op with
        | round => exact ⟨q, List.mem_singleton.mp hoperand ▸ ha⟩
        | _ => cases hoperand
    | binary op a b =>
        obtain ⟨q, r, ha, hb, hv⟩ := value?_binary_cases hw
        have hpair : operand ∈ [a, b] := by
          cases op with
          | arithmetic _ | modulo => exact hoperand
          | comparison _ => cases hv
          | _ => cases hoperand
        rcases List.mem_pair.mp hpair with rfl | rfl
        · exact ⟨q, ha⟩
        · exact ⟨r, hb⟩
    | number _ => cases hoperand
    | _ => cases hw
  obtain ⟨q, hq⟩ := hvalue
  exact (plain_of_value? hq).1

theorem onHub_of_value? {e : Expr} {v : ℚ} (h : e.value? = some v) : e.OnHub := by
  intro x hx c hc
  obtain ⟨w, hw⟩ := exists_value_of_mem_visited h x hx
  rw [(plain_of_value? hw).2] at hc
  cases hc

theorem evaluate_script {e : Expr} {v : ℚ} {t : String} (h : e.value? = some v)
    (ht : e.script = .ok t) : Python.evaluate t = e.tree.value? := by
  have hreads := readsAs_script (wellSorted_of_value? h) (onHub_of_value? h) ht
  rw [Python.evaluate, hreads.whole.parse]
  rfl

theorem value?_tree_of_rounds {e : Expr} {v : ℚ} (h : e.value? = some v)
    (hrounds : ∀ a q, unary .round a ∈ e.visited → a.value? = some q → RoundsByTruncation q) :
    e.tree.value? = some v := by
  induction e generalizing v with
  | number x =>
      rw [value?] at h
      split at h
      · next hfinite => exact (Binary64.value?_tree hfinite).trans h
      · cases h
  | unary op a ih =>
      obtain ⟨q, ha, hv⟩ := value?_unary_cases h
      have htree := ih ha fun b r hb => hrounds b r (List.mem_cons_of_mem _ hb)
      by_cases hop : op = .round
      · subst hop
        rw [← hv]
        refine (UnaryOp.value?_round htree).trans ?_
        rw [(truncate_add_half_eq_nearest_iff q).mpr (hrounds a q List.mem_cons_self ha)]
        rfl
      · exact UnaryOp.value?_tree htree hv hop
  | binary op a b iha ihb =>
      obtain ⟨q, r, ha, hb, hv⟩ := value?_binary_cases h
      have hleft := iha ha fun c s hc =>
        hrounds c s (List.mem_cons_of_mem _ (List.mem_append_left _ hc))
      have hright := ihb hb fun c s hc =>
        hrounds c s (List.mem_cons_of_mem _ (List.mem_append_right _ hc))
      exact BinaryOp.value?_tree hleft hright hv
  | _ => cases h

/-- The trees of a calculation and of its parts give what they denote just if no number is rounded
that truncation takes the other way. -/
theorem value?_tree_iff {e : Expr} {v : ℚ} (h : e.value? = some v) :
    (∀ x ∈ e.visited, x.tree.value? = x.value?) ↔
      ∀ a q, unary .round a ∈ e.visited → a.value? = some q → RoundsByTruncation q := by
  constructor
  · intro hagree a q hround ha
    have hpart : a ∈ (unary .round a).visited := List.mem_cons_of_mem _ a.mem_visited_self
    have htree := UnaryOp.value?_round ((hagree a (visited_subset hround hpart)).trans ha)
    have hvalue : (unary .round a).value? = some (nearest q : ℚ) := by
      rw [value?, ha]
      rfl
    have heq := htree.symm.trans ((hagree _ hround).trans hvalue)
    exact (truncate_add_half_eq_nearest_iff q).mp (Int.cast_injective (Option.some.inj heq))
  · intro hrounds x hx
    obtain ⟨w, hw⟩ := exists_value_of_mem_visited h x hx
    rw [hw]
    exact value?_tree_of_rounds hw fun a q ha => hrounds a q (visited_subset hx ha)

end Expr

/-- A text is generated from every calculation and from all of its parts, and Python calculates from
these texts what they denote, just if no number below minus one half is rounded that is not halfway
between two integers. -/
theorem evaluate_expr_iff {e : Expr} {v : ℚ} (h : e.value? = some v) :
    (∀ x ∈ e.visited, ∀ d, ∃ t d', (Emit.expr x).run d = .ok (t, d')) ∧
      ((∀ x ∈ e.visited, ∀ d t d', (Emit.expr x).run d = .ok (t, d') →
          Python.evaluate t = x.value?) ↔
        ∀ a q, .unary .round a ∈ e.visited → a.value? = some q →
          -1 / 2 ≤ q ∨ Int.fract q = 1 / 2) := by
  have hscript : ∀ x ∈ e.visited, ∃ t, x.script = .ok t ∧ Python.evaluate t = x.tree.value? := by
    intro x hx
    obtain ⟨w, hw⟩ := Expr.exists_value_of_mem_visited h x hx
    obtain ⟨t, ht⟩ := Expr.exists_script_of_value? hw
    exact ⟨t, ht, Expr.evaluate_script hw ht⟩
  constructor
  · intro x hx d
    obtain ⟨t, ht, -⟩ := hscript x hx
    exact ⟨t, _, Emit.expr_run_eq_ok_iff.mpr ⟨ht, rfl⟩⟩
  · refine Iff.trans (forall₂_congr fun x hx => ?_) (Expr.value?_tree_iff h)
    obtain ⟨t, ht, htree⟩ := hscript x hx
    rw [← htree]
    constructor
    · intro hrun
      exact hrun (.empty false) t _ (Emit.expr_run_eq_ok_iff.mpr ⟨ht, rfl⟩)
    · intro hvalue d u d' hrun
      obtain rfl := Except.ok.inj (ht.symm.trans (Emit.expr_run_eq_ok_iff.mp hrun).1)
      exact hvalue

/-- Minus five and a half modulo two, rounded. -/
def Expr.roundedRemainder : Expr :=
  .unary .round (.binary .modulo (.number (.ofBits 0xC016000000000000))
    (.number (.ofBits 0x4000000000000000)))

theorem evaluate_roundedRemainder :
    Expr.roundedRemainder.value? = some 1 ∧ ∃ d',
      (Emit.expr .roundedRemainder).run (.empty false) = .ok ("int((-5.5 % 2.0) + 0.5)", d') ∧
      Python.evaluate "int((-5.5 % 2.0) + 0.5)" = some 1 := by
  have hvalue : Expr.roundedRemainder.value? = some 1 := by decide +kernel
  have hrounds : ∀ a q, .unary .round a ∈ Expr.roundedRemainder.visited → a.value? = some q →
      -1 / 2 ≤ q ∨ Int.fract q = 1 / 2 := by
    intro a q hround ha
    obtain rfl : a = _ := by simpa [Expr.roundedRemainder, Expr.visited] using hround
    have hhalf : some (1 / 2) = some q := Eq.trans (by decide +kernel) ha
    obtain rfl := Option.some.inj hhalf
    exact .inl (by norm_num)
  have hrun : (Emit.expr .roundedRemainder).run (.empty false) =
      .ok ("int((-5.5 % 2.0) + 0.5)", _) :=
    Emit.expr_run_eq_ok_iff.mpr ⟨by decide +kernel, rfl⟩
  have hevaluate := (evaluate_expr_iff hvalue).2.mpr hrounds _ (Expr.mem_visited_self _) _ _ _ hrun
  exact ⟨hvalue, _, hrun, hevaluate.trans hvalue⟩

/-- Minus one, rounded. -/
def Expr.roundedMinusOne : Expr :=
  .unary .round (.number (.ofBits 0xBFF0000000000000))

/-- Python calculates zero from the text for minus one, rounded. -/
theorem evaluate_roundedMinusOne :
    Expr.roundedMinusOne.value? = some (-1) ∧ ∃ d',
      (Emit.expr .roundedMinusOne).run (.empty false) = .ok ("int(-1.0 + 0.5)", d') ∧
      Python.evaluate "int(-1.0 + 0.5)" = some 0 := by
  have hvalue : Expr.roundedMinusOne.value? = some (-1) := by decide +kernel
  have hscript : Expr.roundedMinusOne.script = .ok "int(-1.0 + 0.5)" := by decide +kernel
  have hevaluate := Expr.evaluate_script hvalue hscript
  refine ⟨hvalue, _, Emit.expr_run_eq_ok_iff.mpr ⟨hscript, rfl⟩, hevaluate.trans ?_⟩
  decide +kernel

end WordBlocks
