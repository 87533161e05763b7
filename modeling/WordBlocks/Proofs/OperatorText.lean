import WordBlocks.Proofs.ExprScript
import WordBlocks.Proofs.NumberText
import WordBlocks.Script.Program

/-!
How far the text of an operator expression determines the expression. Every operator but a
comparison is enclosed when it is written, so a text fixes its expression up to the grouping of
comparisons that are operands of comparisons: two expressions have one text just if they agree after
all such chains are grouped to the right. An expression is the only one with its text just if it has
no such chain.
-/

namespace WordBlocks

open Choice (tag)
open Script

namespace UnaryOp

/-- What stands before the operand of negation and rounding. -/
def opening : UnaryOp → List Char
  | not => ['n', 'o', 't', ' ', '(']
  | round => ['i', 'n', 't', '(']
  | _ => []

/-- What stands after the operand of negation and rounding. -/
def closing : UnaryOp → List Char
  | not => [')']
  | round => [' ', '+', ' ', '0', '.', '5', ')']
  | _ => []

end UnaryOp

namespace BinaryOp

/-- The operators that are written between their operands. -/
def isInfix : BinaryOp → Bool
  | arithmetic _ | comparison _ | and | or | modulo => true
  | _ => false

def isComparison : BinaryOp → Bool
  | comparison _ => true
  | _ => false

/-- What stands between the operands of an operator. -/
def mark : BinaryOp → List Char
  | arithmetic op => [' '] ++ (tag op).toList ++ [' ']
  | comparison op => [' '] ++ op.symbol.toList ++ [' ']
  | and => [' ', 'a', 'n', 'd', ' ']
  | or => [' ', 'o', 'r', ' ']
  | modulo => [' ', '%', ' ']
  | _ => []

/-- Parentheses around an operation that is not a comparison. -/
def enclose (op : BinaryOp) (cs : List Char) : List Char :=
  if op.isComparison then cs else ['('] ++ cs ++ [')']

end BinaryOp

namespace Expr

/-- Whether an expression is built from finite numbers, the infix operators, negation, rounding and
the test whether a value lies between two others. -/
def isOperatorTree : Expr → Bool
  | number x => x.isFinite
  | unary op a => (op = .not || op = .round) && a.isOperatorTree
  | binary op a b => op.isInfix && a.isOperatorTree && b.isOperatorTree
  | between v a b => v.isOperatorTree && a.isOperatorTree && b.isOperatorTree
  | _ => false

def isComparison : Expr → Bool
  | binary op _ _ => op.isComparison
  | _ => false

/-- Whether no operand of a comparison is itself a comparison. -/
def isChainFree : Expr → Bool
  | unary _ a => a.isChainFree
  | binary op a b =>
    !(op.isComparison && (a.isComparison || b.isComparison)) && a.isChainFree && b.isChainFree
  | between v a b => v.isChainFree && a.isChainFree && b.isChainFree
  | _ => true

/-- Whether no left operand of a comparison is itself a comparison. -/
def isRegrouped : Expr → Bool
  | unary _ a => a.isRegrouped
  | binary op a b => !(op.isComparison && a.isComparison) && a.isRegrouped && b.isRegrouped
  | between v a b => v.isRegrouped && a.isRegrouped && b.isRegrouped
  | _ => true

/-- Applies an operator to two operands. A comparison goes to the end of the chain of comparisons
that its left operand may be. -/
def attach (op : BinaryOp) (right : Expr) : Expr → Expr
  | binary op' a b =>
    if op.isComparison && op'.isComparison then binary op' a (attach op right b)
    else binary op (binary op' a b) right
  | e => binary op e right

/-- An expression with its chains of comparisons grouped to the right. -/
def regroup : Expr → Expr
  | unary op a => unary op a.regroup
  | binary op a b => attach op b.regroup a.regroup
  | between v a b => between v.regroup a.regroup b.regroup
  | e => e

/-- The characters of an operator expression. -/
def operatorChars : Expr → List Char
  | number x => (numberText x).toList
  | unary op a => op.opening ++ a.operatorChars ++ op.closing
  | binary op a b => op.enclose (a.operatorChars ++ op.mark ++ b.operatorChars)
  | between v a b =>
    ['('] ++ a.operatorChars ++ [' ', '<', '=', ' '] ++ v.operatorChars ++ [' ', '<', '=', ' '] ++
      b.operatorChars ++ [')']
  | _ => []

theorem script_of_isOperatorTree {e : Expr} (he : e.isOperatorTree = true) :
    ∃ t, e.script = .ok t ∧ t.toList = e.operatorChars := by
  induction e with
  | number x => exact ⟨_, rfl, rfl⟩
  | unary op a ih =>
      simp only [isOperatorTree, Bool.and_eq_true, Bool.or_eq_true, decide_eq_true_eq] at he
      obtain ⟨hop, ha⟩ := he
      obtain ⟨t, ht, hchars⟩ := ih ha
      rcases hop with rfl | rfl
      · refine ⟨"not (" ++ t ++ ")", by rw [script, ht]; rfl, ?_⟩
        rw [operatorChars, String.toList_append, String.toList_append, hchars]
        rfl
      · refine ⟨"int(" ++ t ++ " + 0.5)", by rw [script, ht]; rfl, ?_⟩
        rw [operatorChars, String.toList_append, String.toList_append, hchars]
        rfl
  | binary op a b iha ihb =>
      simp only [isOperatorTree, Bool.and_eq_true] at he
      obtain ⟨⟨hop, ha⟩, hb⟩ := he
      obtain ⟨t, ht, htchars⟩ := iha ha
      obtain ⟨u, hu, huchars⟩ := ihb hb
      refine ⟨op.text t u, by rw [script, ht, hu]; rfl, ?_⟩
      rw [operatorChars, ← htchars, ← huchars]
      cases op with
      | arithmetic _ | comparison _ | and | or | modulo =>
          simp [BinaryOp.text, BinaryOp.mark, BinaryOp.enclose, BinaryOp.isComparison]
      | _ => cases hop
  | between v a b ihv iha ihb =>
      simp only [isOperatorTree, Bool.and_eq_true] at he
      obtain ⟨⟨hv, ha⟩, hb⟩ := he
      obtain ⟨s, hs, hschars⟩ := ihv hv
      obtain ⟨t, ht, htchars⟩ := iha ha
      obtain ⟨u, hu, huchars⟩ := ihb hb
      refine ⟨"(" ++ t ++ " <= " ++ s ++ " <= " ++ u ++ ")", by rw [script, hs, ht, hu]; rfl, ?_⟩
      rw [operatorChars, ← hschars, ← htchars, ← huchars]
      simp
  | _ => simp [isOperatorTree] at he

theorem attach_of_not {op : BinaryOp} {left : Expr} (right : Expr)
    (h : (op.isComparison && left.isComparison) = false) :
    attach op right left = binary op left right := by
  cases left with
  | binary op' a b =>
      simp only [isComparison] at h
      simp [attach, h]
  | _ => rfl

theorem isComparison_attach (op : BinaryOp) (right left : Expr) :
    (attach op right left).isComparison = op.isComparison := by
  cases left with
  | binary op' a b =>
      by_cases h : op.isComparison && op'.isComparison
      · rw [attach, if_pos h]
        simp_all [isComparison]
      · rw [attach, if_neg h]
        rfl
  | _ => rfl

theorem operatorChars_attach (op : BinaryOp) (right left : Expr) :
    (attach op right left).operatorChars = (binary op left right).operatorChars := by
  induction left with
  | binary op' a b _ ihb =>
      by_cases h : op.isComparison && op'.isComparison
      · rw [attach, if_pos h, operatorChars, ihb]
        simp_all [operatorChars, BinaryOp.enclose]
      · rw [attach, if_neg h]
  | _ => rfl

theorem operatorChars_regroup (e : Expr) : e.regroup.operatorChars = e.operatorChars := by
  induction e with
  | unary op a ih => rw [regroup, operatorChars, operatorChars, ih]
  | binary op a b iha ihb =>
      rw [regroup, operatorChars_attach, operatorChars, operatorChars, iha, ihb]
  | between v a b ihv iha ihb =>
      rw [regroup, operatorChars, operatorChars, ihv, iha, ihb]
  | _ => rfl

theorem isOperatorTree_attach (op : BinaryOp) (right left : Expr) :
    (attach op right left).isOperatorTree = (binary op left right).isOperatorTree := by
  induction left with
  | binary op' a b _ ihb =>
      by_cases h : op.isComparison && op'.isComparison
      · rw [attach, if_pos h, isOperatorTree, ihb]
        simp only [isOperatorTree]
        grind
      · rw [attach, if_neg h]
  | _ => rfl

theorem isOperatorTree_regroup (e : Expr) : e.regroup.isOperatorTree = e.isOperatorTree := by
  induction e with
  | unary op a ih => rw [regroup, isOperatorTree, isOperatorTree, ih]
  | binary op a b iha ihb =>
      rw [regroup, isOperatorTree_attach, isOperatorTree, isOperatorTree, iha, ihb]
  | between v a b ihv iha ihb =>
      rw [regroup, isOperatorTree, isOperatorTree, ihv, iha, ihb]
  | _ => rfl

theorem isRegrouped_attach {op : BinaryOp} {right left : Expr} (hr : right.isRegrouped = true)
    (hl : left.isRegrouped = true) : (attach op right left).isRegrouped = true := by
  induction left with
  | binary op' a b _ ihb =>
      by_cases h : op.isComparison && op'.isComparison
      · simp only [isRegrouped, Bool.and_eq_true] at hl
        obtain ⟨⟨hop, ha⟩, hb⟩ := hl
        rw [attach, if_pos h, isRegrouped, ihb hb, hop, ha]
        rfl
      · rw [Bool.not_eq_true] at h
        rw [attach_of_not right h, isRegrouped, hl, hr]
        simp [isComparison, h]
  | _ => simp_all [attach, isRegrouped, isComparison]

theorem isRegrouped_regroup (e : Expr) : e.regroup.isRegrouped = true := by
  induction e with
  | unary op a ih => rw [regroup, isRegrouped, ih]
  | binary op a b iha ihb => exact isRegrouped_attach ihb iha
  | between v a b ihv iha ihb => simp [regroup, isRegrouped, ihv, iha, ihb]
  | _ => rfl

/-- What may follow a whole operand: something that continues neither a numeral nor a chain of
comparisons. -/
def EndsOperand (rest : List Char) : Prop :=
  EndsRun isNumeralChar rest ∧ ∀ op r, rest ≠ (BinaryOp.comparison op).mark ++ r

theorem endsOperand_nil : EndsOperand [] :=
  ⟨endsRun_nil _, by simp [BinaryOp.mark]⟩

theorem endsOperand_closing {op : UnaryOp} (hop : op = .not ∨ op = .round) (r : List Char) :
    EndsOperand (op.closing ++ r) := by
  rcases hop with rfl | rfl
  · refine ⟨endsRun_cons rfl, ?_⟩
    rintro (_ | _ | _) s <;> simp [UnaryOp.closing, BinaryOp.mark, Comparison.symbol]
  · refine ⟨endsRun_cons rfl, ?_⟩
    rintro (_ | _ | _) s <;> simp [UnaryOp.closing, BinaryOp.mark, Comparison.symbol]

theorem endsOperand_mark {op : BinaryOp} (hop : op.isInfix = true)
    (hcomparison : op.isComparison = false) (r : List Char) : EndsOperand (op.mark ++ r) := by
  cases op with
  | arithmetic op =>
      refine ⟨endsRun_cons rfl, ?_⟩
      cases op <;> rintro (_ | _ | _) s <;> simp [BinaryOp.mark, Comparison.symbol, tag]
  | and | or | modulo =>
      refine ⟨endsRun_cons rfl, ?_⟩
      rintro (_ | _ | _) s <;> simp [BinaryOp.mark, Comparison.symbol]
  | comparison op => cases hcomparison
  | _ => cases hop

theorem endsOperand_parenthesis (r : List Char) : EndsOperand (')' :: r) := by
  refine ⟨endsRun_cons rfl, ?_⟩
  rintro (_ | _ | _) s <;> simp [BinaryOp.mark]

theorem endsOperand_bound (r : List Char) : EndsOperand ([' ', '<', '=', ' '] ++ r) := by
  refine ⟨endsRun_cons rfl, ?_⟩
  rintro (_ | _ | _) s <;> simp [BinaryOp.mark, Comparison.symbol]

def infixOps : List BinaryOp :=
  [.arithmetic .add, .arithmetic .sub, .arithmetic .mul, .arithmetic .div, .comparison .less,
    .comparison .equal, .comparison .greater, .and, .or, .modulo]

theorem mem_infixOps {op : BinaryOp} (h : op.isInfix = true) : op ∈ infixOps := by
  cases op with
  | arithmetic op => cases op <;> decide
  | comparison op => cases op <;> decide
  | and | or | modulo => decide
  | _ => cases h

theorem mark_append_inj {op op' : BinaryOp} (hop : op.isInfix = true) (hop' : op'.isInfix = true)
    {r r' : List Char} (h : op.mark ++ r = op'.mark ++ r') : op = op' ∧ r = r' := by
  have hlength : ∀ op ∈ infixOps, 3 ≤ op.mark.length := by decide
  have hkeys : ∀ op ∈ infixOps, ∀ op' ∈ infixOps, op.mark.take 3 = op'.mark.take 3 → op = op' := by
    decide
  have hkey := congrArg (List.take 3) h
  rw [List.take_append_of_le_length (hlength op (mem_infixOps hop)),
    List.take_append_of_le_length (hlength op' (mem_infixOps hop'))] at hkey
  obtain rfl := hkeys op (mem_infixOps hop) op' (mem_infixOps hop') hkey
  exact ⟨rfl, List.append_cancel_left h⟩

theorem mark_append_ne_bound {op : BinaryOp} (hop : op.isInfix = true) (r r' : List Char) :
    op.mark ++ r ≠ [' ', '<', '=', ' '] ++ r' := by
  have hkeys : ∀ op ∈ infixOps, op.mark.take 3 ≠ [' ', '<', '='] := by decide
  have hlength : ∀ op ∈ infixOps, 3 ≤ op.mark.length := by decide
  intro h
  have hkey := congrArg (List.take 3) h
  rw [List.take_append_of_le_length (hlength op (mem_infixOps hop))] at hkey
  exact hkeys op (mem_infixOps hop) hkey

/-- The first character of the text of an expression that is not a comparison, where all the
characters of numerals count as one. -/
def lead : Expr → Option Char
  | number _ => none
  | unary op _ => op.opening.head?
  | _ => some '('

theorem exists_head {e : Expr} (he : e.isOperatorTree = true) (hatom : e.isComparison = false) :
    ∃ c cs, e.operatorChars = c :: cs ∧
      e.lead = if isNumeralChar c then none else some c := by
  cases e with
  | number x =>
      obtain ⟨c, cs, hmagnitude, hc⟩ := magnitude_head x
      have hchars := numberText_of_isFinite he
      rw [hmagnitude] at hchars
      cases hsign : x.negative with
      | true => exact ⟨'-', c :: cs, by simpa [hsign, operatorChars] using hchars, rfl⟩
      | false =>
          refine ⟨c, cs, by simpa [hsign, operatorChars] using hchars, ?_⟩
          rw [if_pos (isNumeralChar_of_isDigit hc)]
          rfl
  | unary op a =>
      simp only [isOperatorTree, Bool.and_eq_true, Bool.or_eq_true, decide_eq_true_eq] at he
      rcases he.1 with rfl | rfl
      · exact ⟨'n', _, rfl, rfl⟩
      · exact ⟨'i', _, rfl, rfl⟩
  | binary op a b =>
      refine ⟨'(', a.operatorChars ++ op.mark ++ b.operatorChars ++ [')'], ?_, rfl⟩
      rw [operatorChars, BinaryOp.enclose, if_neg (by simpa [isComparison] using hatom)]
      rfl
  | between v a b => exact ⟨'(', _, rfl, rfl⟩
  | _ => cases he

theorem lead_eq {e e' : Expr} (he : e.isOperatorTree = true) (hatom : e.isComparison = false)
    (he' : e'.isOperatorTree = true) (hatom' : e'.isComparison = false) {r r' : List Char}
    (h : e.operatorChars ++ r = e'.operatorChars ++ r') : e.lead = e'.lead := by
  obtain ⟨c, cs, hchars, hlead⟩ := exists_head he hatom
  obtain ⟨c', cs', hchars', hlead'⟩ := exists_head he' hatom'
  rw [hchars, hchars', List.cons_append, List.cons_append] at h
  rw [hlead, hlead', (List.cons.inj h).1]

theorem exists_comparison {e : Expr} (h : e.isComparison = true) :
    ∃ op a b, e = binary (.comparison op) a b := by
  cases e with
  | binary op a b =>
      cases op with
      | comparison op => exact ⟨op, a, b, rfl⟩
      | _ => cases h
  | _ => cases h

theorem operatorChars_comparison (op : Comparison) (a b : Expr) :
    (binary (.comparison op) a b).operatorChars =
      a.operatorChars ++ (BinaryOp.comparison op).mark ++ b.operatorChars := rfl

theorem endsRun_mark (op : Comparison) (r : List Char) :
    EndsRun isNumeralChar ((BinaryOp.comparison op).mark ++ r) :=
  endsRun_cons rfl

/-- An expression that is not a comparison can be recognised at the start of a text. -/
def AtomDecodes (e : Expr) : Prop :=
  ∀ e' r r', e'.isOperatorTree = true → e'.isRegrouped = true → e'.isComparison = false →
    EndsRun isNumeralChar r → EndsRun isNumeralChar r' →
    e.operatorChars ++ r = e'.operatorChars ++ r' → e = e' ∧ r = r'

/-- An expression can be recognised at the start of a text. -/
def Decodes (e : Expr) : Prop :=
  ∀ e' r r', e'.isOperatorTree = true → e'.isRegrouped = true →
    EndsOperand r → EndsOperand r' →
    e.operatorChars ++ r = e'.operatorChars ++ r' → e = e' ∧ r = r'

theorem atomDecodes_number {x : Binary64} (hx : x.isFinite = true) : AtomDecodes (number x) := by
  intro e' r r' he' _ hatom' hr hr' h
  have hlead := lead_eq (e := number x) hx rfl he' hatom' h
  cases e' with
  | number y =>
      have hrun := congrArg (List.takeWhile isNumeralChar) h
      simp only [operatorChars, takeWhile_run (numberText_chars hx) hr,
        takeWhile_run (numberText_chars he') hr'] at hrun
      obtain rfl := numberText_injective hx he' (String.toList_injective hrun)
      exact ⟨rfl, List.append_cancel_left h⟩
  | unary op a =>
      simp only [isOperatorTree, Bool.and_eq_true, Bool.or_eq_true, decide_eq_true_eq] at he'
      rcases he'.1 with rfl | rfl
      · cases hlead
      · cases hlead
  | binary | between => cases hlead
  | _ => cases he'

theorem atomDecodes_unary {op : UnaryOp} {a : Expr} (he : (unary op a).isOperatorTree = true)
    (ha : Decodes a) : AtomDecodes (unary op a) := by
  intro e' r r' he' hgroup' hatom' _ _ h
  have hlead := lead_eq he rfl he' hatom' h
  simp only [isOperatorTree, Bool.and_eq_true, Bool.or_eq_true, decide_eq_true_eq] at he
  cases e' with
  | unary op' a' =>
      simp only [isOperatorTree, Bool.and_eq_true, Bool.or_eq_true, decide_eq_true_eq] at he'
      have hop : op = op' := by
        rcases he.1 with rfl | rfl
        · rcases he'.1 with rfl | rfl
          · rfl
          · cases hlead
        · rcases he'.1 with rfl | rfl
          · cases hlead
          · rfl
      subst hop
      simp only [operatorChars, List.append_assoc, List.append_cancel_left_eq] at h
      obtain ⟨rfl, hrest⟩ := ha a' _ _ he'.2 hgroup' (endsOperand_closing he.1 r)
        (endsOperand_closing he.1 r') h
      exact ⟨rfl, List.append_cancel_left hrest⟩
  | number | binary | between =>
      rcases he.1 with rfl | rfl
      · cases hlead
      · cases hlead
  | _ => cases he'

theorem atomDecodes_binary {op : BinaryOp} {a b : Expr} (hop : op.isInfix = true)
    (hcomparison : op.isComparison = false) (he : (binary op a b).isOperatorTree = true)
    (ha : Decodes a) (hb : Decodes b) : AtomDecodes (binary op a b) := by
  intro e' r r' he' hgroup' hatom' _ _ h
  have hlead := lead_eq he hcomparison he' hatom' h
  cases e' with
  | binary op' a' b' =>
      simp only [isOperatorTree, Bool.and_eq_true] at he'
      simp only [isRegrouped, Bool.and_eq_true] at hgroup'
      have hcomparison' : op'.isComparison = false := hatom'
      simp only [operatorChars, BinaryOp.enclose, hcomparison, hcomparison', Bool.false_eq_true,
        if_false, List.append_assoc, List.append_cancel_left_eq] at h
      obtain ⟨rfl, hrest⟩ := ha a' _ _ he'.1.2 hgroup'.1.2 (endsOperand_mark hop hcomparison _)
        (endsOperand_mark he'.1.1 hcomparison' _) h
      obtain ⟨rfl, hright⟩ := mark_append_inj hop he'.1.1 hrest
      obtain ⟨rfl, hend⟩ := hb b' _ _ he'.2 hgroup'.2 (endsOperand_parenthesis _)
        (endsOperand_parenthesis _) hright
      exact ⟨rfl, (List.cons.inj hend).2⟩
  | between v a' b' =>
      -- Both texts open with a parenthesis, but what follows the first operand differs.
      simp only [isOperatorTree, Bool.and_eq_true] at he'
      simp only [isRegrouped, Bool.and_eq_true] at hgroup'
      simp only [operatorChars, BinaryOp.enclose, hcomparison, Bool.false_eq_true, if_false,
        List.append_assoc, List.append_cancel_left_eq] at h
      obtain ⟨_, hrest⟩ := ha a' _ _ he'.1.2 hgroup'.1.2 (endsOperand_mark hop hcomparison _)
        (endsOperand_bound _) h
      exact absurd hrest (mark_append_ne_bound hop _ _)
  | unary op' a' =>
      simp only [isOperatorTree, Bool.and_eq_true, Bool.or_eq_true, decide_eq_true_eq] at he'
      rcases he'.1 with rfl | rfl
      · cases hlead
      · cases hlead
  | number => cases hlead
  | _ => cases he'

theorem atomDecodes_between {v a b : Expr} (he : (between v a b).isOperatorTree = true)
    (hv : Decodes v) (ha : Decodes a) (hb : Decodes b) : AtomDecodes (between v a b) := by
  intro e' r r' he' hgroup' hatom' _ _ h
  have hlead := lead_eq he rfl he' hatom' h
  cases e' with
  | binary op' a' b' =>
      simp only [isOperatorTree, Bool.and_eq_true] at he'
      simp only [isRegrouped, Bool.and_eq_true] at hgroup'
      have hcomparison' : op'.isComparison = false := hatom'
      simp only [operatorChars, BinaryOp.enclose, hcomparison', Bool.false_eq_true, if_false,
        List.append_assoc, List.append_cancel_left_eq] at h
      obtain ⟨_, hrest⟩ := ha a' _ _ he'.1.2 hgroup'.1.2 (endsOperand_bound _)
        (endsOperand_mark he'.1.1 hcomparison' _) h
      exact absurd hrest.symm (mark_append_ne_bound he'.1.1 _ _)
  | between v' a' b' =>
      simp only [isOperatorTree, Bool.and_eq_true] at he'
      simp only [isRegrouped, Bool.and_eq_true] at hgroup'
      simp only [operatorChars, List.append_assoc, List.append_cancel_left_eq] at h
      obtain ⟨rfl, hvalue⟩ := ha a' _ _ he'.1.2 hgroup'.1.2 (endsOperand_bound _)
        (endsOperand_bound _) h
      obtain ⟨rfl, hhigh⟩ := hv v' _ _ he'.1.1 hgroup'.1.1 (endsOperand_bound _)
        (endsOperand_bound _) (List.append_cancel_left hvalue)
      obtain ⟨rfl, hend⟩ := hb b' _ _ he'.2 hgroup'.2 (endsOperand_parenthesis _)
        (endsOperand_parenthesis _) (List.append_cancel_left hhigh)
      exact ⟨rfl, (List.cons.inj hend).2⟩
  | unary op' a' =>
      simp only [isOperatorTree, Bool.and_eq_true, Bool.or_eq_true, decide_eq_true_eq] at he'
      rcases he'.1 with rfl | rfl
      · cases hlead
      · cases hlead
  | number => cases hlead
  | _ => cases he'

theorem decodes_of_atomDecodes {e : Expr} (he : AtomDecodes e) : Decodes e := by
  intro e' r r' he' hgroup' hr hr' h
  cases hcomparison' : e'.isComparison with
  | false => exact he e' r r' he' hgroup' hcomparison' hr.1 hr'.1 h
  | true =>
      -- The first operand of the chain is `e` itself, and `r` would have to go on with a
      -- comparison.
      obtain ⟨op, a, b, rfl⟩ := exists_comparison hcomparison'
      simp only [isOperatorTree, Bool.and_eq_true] at he'
      simp only [isRegrouped, Bool.and_eq_true] at hgroup'
      rw [operatorChars_comparison, List.append_assoc, List.append_assoc] at h
      have hend := endsRun_mark op (b.operatorChars ++ r')
      obtain ⟨_, hrest⟩ := he a _ _ he'.1.2 hgroup'.1.2
        (by simpa [BinaryOp.isComparison] using hgroup'.1.1) hr.1 hend h
      exact absurd hrest (hr.2 op _)

theorem decodes_comparison {op : Comparison} {a b : Expr} (ha : AtomDecodes a) (hb : Decodes b) :
    Decodes (binary (.comparison op) a b) := by
  intro e' r r' he' hgroup' hr hr' h
  rw [operatorChars_comparison, List.append_assoc, List.append_assoc] at h
  have hend := endsRun_mark op (b.operatorChars ++ r)
  cases hcomparison' : e'.isComparison with
  | false =>
      obtain ⟨_, hrest⟩ := ha e' _ _ he' hgroup' hcomparison' hend hr'.1 h
      exact absurd hrest.symm (hr'.2 op _)
  | true =>
      obtain ⟨op', a', b', rfl⟩ := exists_comparison hcomparison'
      simp only [isOperatorTree, Bool.and_eq_true] at he'
      simp only [isRegrouped, Bool.and_eq_true] at hgroup'
      rw [operatorChars_comparison, List.append_assoc, List.append_assoc] at h
      obtain ⟨rfl, hrest⟩ := ha a' _ _ he'.1.2 hgroup'.1.2
        (by simpa [BinaryOp.isComparison] using hgroup'.1.1) hend
        (endsRun_mark op' (b'.operatorChars ++ r')) h
      obtain ⟨hop, hright⟩ := mark_append_inj rfl rfl hrest
      obtain ⟨rfl, hend⟩ := hb b' _ _ he'.2 hgroup'.2 hr hr' hright
      exact ⟨by rw [hop], hend⟩

/-- Every operator expression whose chains are grouped to the right can be recognised at the start
of a text. -/
theorem decodes_of_isRegrouped {e : Expr} (he : e.isOperatorTree = true)
    (hgroup : e.isRegrouped = true) :
    (e.isComparison = false → AtomDecodes e) ∧ Decodes e := by
  induction e with
  | number x =>
      have hatom := atomDecodes_number he
      exact ⟨fun _ => hatom, decodes_of_atomDecodes hatom⟩
  | unary op a ih =>
      have ha : a.isOperatorTree = true := by
        simp only [isOperatorTree, Bool.and_eq_true] at he
        exact he.2
      have hatom := atomDecodes_unary he (ih ha hgroup).2
      exact ⟨fun _ => hatom, decodes_of_atomDecodes hatom⟩
  | binary op a b iha ihb =>
      have htree := he
      simp only [isOperatorTree, Bool.and_eq_true] at htree
      simp only [isRegrouped, Bool.and_eq_true] at hgroup
      obtain ⟨hatom_a, ha⟩ := iha htree.1.2 hgroup.1.2
      obtain ⟨_, hb⟩ := ihb htree.2 hgroup.2
      cases hcomparison : op.isComparison with
      | false =>
          have hatom := atomDecodes_binary htree.1.1 hcomparison he ha hb
          exact ⟨fun _ => hatom, decodes_of_atomDecodes hatom⟩
      | true =>
          refine ⟨fun h => ?_, ?_⟩
          · exact absurd (hcomparison.symm.trans h) (by decide)
          · obtain ⟨op, rfl⟩ : ∃ o, op = .comparison o := by
              cases op <;> simp_all [BinaryOp.isComparison]
            exact decodes_comparison (hatom_a (by simpa [hcomparison] using hgroup.1.1)) hb
  | between v a b ihv iha ihb =>
      have htree := he
      simp only [isOperatorTree, Bool.and_eq_true] at htree
      simp only [isRegrouped, Bool.and_eq_true] at hgroup
      have hatom := atomDecodes_between he (ihv htree.1.1 hgroup.1.1).2
        (iha htree.1.2 hgroup.1.2).2 (ihb htree.2 hgroup.2).2
      exact ⟨fun _ => hatom, decodes_of_atomDecodes hatom⟩
  | _ => cases he

/-- Two operator expressions have one text just if they agree up to the grouping of chains. -/
theorem operatorChars_eq_iff {e e' : Expr} (he : e.isOperatorTree = true)
    (he' : e'.isOperatorTree = true) :
    e.operatorChars = e'.operatorChars ↔ e.regroup = e'.regroup := by
  constructor
  · intro h
    have hdecodes := (decodes_of_isRegrouped (e := e.regroup) (by rwa [isOperatorTree_regroup])
      e.isRegrouped_regroup).2
    refine (hdecodes e'.regroup [] [] (by rwa [isOperatorTree_regroup]) e'.isRegrouped_regroup
      endsOperand_nil endsOperand_nil ?_).1
    rw [operatorChars_regroup, operatorChars_regroup, h]
  · intro h
    rw [← operatorChars_regroup e, h, operatorChars_regroup]

theorem regroup_of_isChainFree {e : Expr} (h : e.isChainFree = true) : e.regroup = e := by
  induction e with
  | unary op a ih => rw [regroup, ih h]
  | binary op a b iha ihb =>
      simp only [isChainFree, Bool.and_eq_true] at h
      rw [regroup, iha h.1.2, ihb h.2]
      apply attach_of_not
      have hchain := h.1.1
      grind
  | between v a b ihv iha ihb =>
      simp only [isChainFree, Bool.and_eq_true] at h
      rw [regroup, ihv h.1.1, iha h.1.2, ihb h.2]
  | _ => rfl

theorem attach_eq_of_isChainFree {op : BinaryOp} {right left : Expr}
    (h : (attach op right left).isChainFree = true) :
    attach op right left = binary op left right := by
  cases left with
  | binary op' a b =>
      by_cases hchain : op.isComparison && op'.isComparison
      · rw [attach, if_pos hchain] at h
        simp only [isChainFree, isComparison_attach] at h
        simp_all
      · rw [attach, if_neg hchain]
  | _ => rfl

theorem regroup_eq_self_of_isChainFree_regroup {e : Expr} (h : e.regroup.isChainFree = true) :
    e.regroup = e := by
  induction e with
  | unary op a ih => rw [regroup, ih h]
  | binary op a b iha ihb =>
      have hattach := attach_eq_of_isChainFree h
      rw [regroup, hattach] at h
      simp only [isChainFree, Bool.and_eq_true] at h
      rw [regroup, hattach, iha h.1.2, ihb h.2]
  | between v a b ihv iha ihb =>
      simp only [regroup, isChainFree, Bool.and_eq_true] at h
      rw [regroup, ihv h.1.1, iha h.1.2, ihb h.2]
  | _ => rfl

theorem attach_attach {op op' : BinaryOp} (hop : op.isComparison = true)
    (hop' : op'.isComparison = true) (a b c : Expr) :
    attach op c (attach op' b a) = attach op' (attach op c b) a := by
  induction a with
  | binary op'' p q _ ihq =>
      by_cases h : op''.isComparison
      · simp only [attach, hop, hop', h, Bool.and_self, if_true, ihq]
      · simp [attach, hop, hop', h]
  | _ => simp [attach, hop, hop']

theorem binary_ne_left {op : BinaryOp} {a b : Expr} : binary op a b ≠ a := by
  intro h
  have hsize := congrArg sizeOf h
  simp at hsize
  omega

theorem exists_other_grouping_of_chain {op : BinaryOp} {a b : Expr} (hop : op.isInfix = true)
    (ha : a.isOperatorTree = true) (hb : b.isOperatorTree = true)
    (hcomparison : op.isComparison = true)
    (hchain : a.isComparison = true ∨ b.isComparison = true) :
    ∃ e', e' ≠ binary op a b ∧ e'.isOperatorTree = true ∧
      e'.regroup = (binary op a b).regroup := by
  rcases hchain with hleft | hright
  · obtain ⟨op', x, y, rfl⟩ := exists_comparison hleft
    simp only [isOperatorTree, Bool.and_eq_true] at ha
    refine ⟨binary (.comparison op') x (binary op y b), ?_, ?_, ?_⟩
    · intro h
      exact binary_ne_left (Expr.binary.inj h).2.1.symm
    · simp [isOperatorTree, hop, ha, hb]
    · exact (attach_attach hcomparison rfl _ _ _).symm
  · obtain ⟨op', y, z, rfl⟩ := exists_comparison hright
    simp only [isOperatorTree, Bool.and_eq_true] at hb
    refine ⟨binary (.comparison op') (binary op a y) z, ?_, ?_, ?_⟩
    · intro h
      exact binary_ne_left (Expr.binary.inj h).2.1
    · simp [isOperatorTree, hop, ha, hb]
    · exact attach_attach rfl hcomparison _ _ _

theorem exists_other_grouping {e : Expr} (he : e.isOperatorTree = true)
    (hchain : e.isChainFree = false) :
    ∃ e', e' ≠ e ∧ e'.isOperatorTree = true ∧ e'.regroup = e.regroup := by
  induction e with
  | unary op a ih =>
      simp only [isOperatorTree, Bool.and_eq_true] at he
      obtain ⟨a', hne, ha', hgroup⟩ := ih he.2 hchain
      exact ⟨unary op a', by simpa using hne, by simp [isOperatorTree, he.1, ha'],
        by rw [regroup, regroup, hgroup]⟩
  | binary op a b iha ihb =>
      simp only [isOperatorTree, Bool.and_eq_true] at he
      obtain ⟨⟨hop, ha⟩, hb⟩ := he
      cases hfree_a : a.isChainFree with
      | false =>
          obtain ⟨a', hne, ha', hgroup⟩ := iha ha hfree_a
          exact ⟨binary op a' b, by simpa using hne, by simp [isOperatorTree, hop, ha', hb],
            by rw [regroup, regroup, hgroup]⟩
      | true =>
          cases hfree_b : b.isChainFree with
          | false =>
              obtain ⟨b', hne, hb', hgroup⟩ := ihb hb hfree_b
              exact ⟨binary op a b', by simpa using hne, by simp [isOperatorTree, hop, ha, hb'],
                by rw [regroup, regroup, hgroup]⟩
          | true =>
              simp only [isChainFree, hfree_a, hfree_b, Bool.and_true, Bool.not_eq_false',
                Bool.and_eq_true, Bool.or_eq_true] at hchain
              exact exists_other_grouping_of_chain hop ha hb hchain.1 hchain.2
  | between v a b ihv iha ihb =>
      simp only [isOperatorTree, Bool.and_eq_true] at he
      obtain ⟨⟨hv, ha⟩, hb⟩ := he
      cases hfree_v : v.isChainFree with
      | false =>
          obtain ⟨v', hne, hv', hgroup⟩ := ihv hv hfree_v
          exact ⟨between v' a b, by simpa using hne, by simp [isOperatorTree, hv', ha, hb],
            by rw [regroup, regroup, hgroup]⟩
      | true =>
          cases hfree_a : a.isChainFree with
          | false =>
              obtain ⟨a', hne, ha', hgroup⟩ := iha ha hfree_a
              exact ⟨between v a' b, by simpa using hne, by simp [isOperatorTree, hv, ha', hb],
                by rw [regroup, regroup, hgroup]⟩
          | true =>
              simp only [isChainFree, hfree_v, hfree_a, Bool.true_and] at hchain
              obtain ⟨b', hne, hb', hgroup⟩ := ihb hb hchain
              exact ⟨between v a b', by simpa using hne, by simp [isOperatorTree, hv, ha, hb'],
                by rw [regroup, regroup, hgroup]⟩
  | _ => cases hchain

end Expr

namespace Script.Emit

theorem expr_run_eq_ok_iff {e : Expr} {d d' : Draft} {t : String} :
    (expr e).run d = .ok (t, d') ↔
      e.script = .ok t ∧ d' = d.add e.demands (linesAt d.indent e.notes) := by
  rw [expr_run]
  cases e.script with
  | error _ => simp
  | ok u =>
      rw [ok_eq_pure, pure_bind]
      simp only [pure, Except.pure, Except.ok.injEq, Prod.mk.injEq]
      grind

/-- The generator gives an operator expression one text from every draft. The operator expressions
with the same text are those that agree with it up to the grouping of chains of comparisons, and
there is no other just if no comparison in it is an operand of a comparison. -/
theorem expr_text_unique_iff {e : Expr} (he : e.isOperatorTree = true) :
    ∃ t, (∀ d, ∃ d', (expr e).run d = .ok (t, d')) ∧
      (∀ e', e'.isOperatorTree = true →
        ((∃ d d', (expr e').run d = .ok (t, d')) ↔ e'.regroup = e.regroup)) ∧
      ((∀ e', e'.isOperatorTree = true → (∃ d d', (expr e').run d = .ok (t, d')) → e' = e) ↔
        e.isChainFree = true) := by
  obtain ⟨t, ht, hchars⟩ := Expr.script_of_isOperatorTree he
  have hsame : ∀ e', e'.isOperatorTree = true →
      ((∃ d d', (expr e').run d = .ok (t, d')) ↔ e'.regroup = e.regroup) := by
    intro e' he'
    obtain ⟨t', ht', hchars'⟩ := Expr.script_of_isOperatorTree he'
    rw [← Expr.operatorChars_eq_iff he' he, ← hchars, ← hchars', String.toList_inj]
    simp only [expr_run_eq_ok_iff, ht', Except.ok.injEq]
    exact ⟨fun ⟨_, _, h, _⟩ => h, fun h => ⟨.empty false, _, h, rfl⟩⟩
  refine ⟨t, fun d => ⟨_, expr_run_eq_ok_iff.mpr ⟨ht, rfl⟩⟩, hsame, ?_⟩
  constructor
  · intro hunique
    by_contra hchain
    obtain ⟨e', hne, he', hgroup⟩ := Expr.exists_other_grouping he (by simpa using hchain)
    exact hne (hunique e' he' ((hsame e' he').mpr hgroup))
  · intro hfree e' he' htext
    have hgroup := (hsame e' he').mp htext
    rw [Expr.regroup_of_isChainFree hfree] at hgroup
    rw [← hgroup, Expr.regroup_eq_self_of_isChainFree_regroup (hgroup ▸ hfree)]

theorem expr_text_unique_negation :
    ∃ t, ∀ e', e'.isOperatorTree = true → (∃ d d', (expr e').run d = .ok (t, d')) →
      e' = .unary .not (.binary (.comparison .less) (.number (.ofInt 1)) (.number (.ofInt 2))) := by
  obtain ⟨t, _, _, hunique⟩ := expr_text_unique_iff (e := .unary .not
    (.binary (.comparison .less) (.number (.ofInt 1)) (.number (.ofInt 2)))) rfl
  exact ⟨t, hunique.mpr rfl⟩

/-- Whether `1` is less than `2`, compared with `3`. -/
def leftChain : Expr :=
  .binary (.comparison .less)
    (.binary (.comparison .less) (.number (.ofInt 1)) (.number (.ofInt 2))) (.number (.ofInt 3))

/-- `1`, compared with whether `2` is less than `3`. -/
def rightChain : Expr :=
  .binary (.comparison .less) (.number (.ofInt 1))
    (.binary (.comparison .less) (.number (.ofInt 2)) (.number (.ofInt 3)))

/-- Two chains of comparisons that are grouped differently give the same line. -/
theorem generate_comparison_chains :
    leftChain ≠ rightChain ∧
      (generate [[.hat none none, .action (.data (.set ⟨"x", "x"⟩ leftChain)),
        .action (.data (.set ⟨"x", "x"⟩ rightChain))]]).map Program.body =
        .ok ["x = 1.0 < 2.0 < 3.0", "x = 1.0 < 2.0 < 3.0"] := by
  constructor
  · simp [leftChain, rightChain]
  · decide +kernel

end Script.Emit

end WordBlocks
