import WordBlocks.Proofs.PythonTokens

/-!
The arguments of a call. `arguments?` cuts the tokens after the name of a function at the commas
outside of all brackets. Tokens that close the brackets they open, with commas inside of them only,
are one argument wherever they stand (`argumentsFrom_append`).
-/

namespace WordBlocks.Python

/-- The number of open brackets after a token. Only what is open can be closed, and commas stand
inside of brackets. -/
def nest (n : Nat) : Token → Option Nat
  | .op sign =>
    if sign ∈ ["(", "[", "\x7b"] then some (n + 1)
    else if sign ∈ [")", "]", "\x7d"] then if n = 0 then none else some (n - 1)
    else if sign = "," ∧ n = 0 then none
    else some n
  | _ => some n

def depthAfter (n : Nat) (ts : List Token) : Option Nat :=
  ts.foldlM nest n

/-- The arguments of a call from the middle of one of them, up to the bracket that closes the call.
-/
def argumentsFrom (n : Nat) (current : List Token) : List Token → Option (List (List Token))
  | [] => none
  | t :: ts =>
    match nest n t with
    | some m => argumentsFrom m (current ++ [t]) ts
    | none =>
      if t = .op ")" then some [current]
      else if t = .op "," then (argumentsFrom 0 [] ts).map (current :: ·)
      else none

/-- The arguments of a call, from the tokens after the name of its function. -/
def arguments? : List Token → Option (List (List Token))
  | .op "(" :: ts => argumentsFrom 0 [] ts
  | _ => none

theorem depthAfter_append (n : Nat) (ts us : List Token) :
    depthAfter n (ts ++ us) = (depthAfter n ts).bind (depthAfter · us) :=
  List.foldlM_append

theorem nest_add {n m : Nat} {t : Token} (h : nest n t = some m) (k : Nat) :
    nest (n + k) t = some (m + k) := by
  cases t with
  | op sign =>
      simp only [nest] at h ⊢
      split at h
      · obtain rfl := Option.some.inj h
        rw [if_pos ‹_›, Nat.add_right_comm]
      · rw [if_neg ‹_›]
        split at h
        · have hn : n ≠ 0 ∧ n - 1 = m := by simpa using h
          rw [if_pos ‹_›, if_neg (by omega)]
          exact congrArg some (by omega)
        · have hn : ¬(sign = "," ∧ n = 0) ∧ n = m := by simpa using h
          rw [if_neg ‹_›, if_neg (fun hcomma => hn.1 ⟨hcomma.1, by omega⟩), hn.2]
  | _ => exact congrArg (some <| · + k) (Option.some.inj h)

theorem depthAfter_add {n m : Nat} {ts : List Token} (h : depthAfter n ts = some m) (k : Nat) :
    depthAfter (n + k) ts = some (m + k) := by
  induction ts generalizing n with
  | nil =>
      obtain rfl := Option.some.inj h
      rfl
  | cons t ts ih =>
      obtain ⟨l, hl, h⟩ :=
        Option.bind_eq_some_iff.mp (h : (nest n t).bind (depthAfter · ts) = some m)
      change (nest (n + k) t).bind (depthAfter · ts) = _
      rw [nest_add hl]
      exact ih h

theorem argumentsFrom_append {n m : Nat} {ts : List Token} (h : depthAfter n ts = some m)
    (current rest : List Token) :
    argumentsFrom n current (ts ++ rest) = argumentsFrom m (current ++ ts) rest := by
  induction ts generalizing n current with
  | nil =>
      obtain rfl := Option.some.inj h
      simp
  | cons t ts ih =>
      obtain ⟨l, hl, h⟩ :=
        Option.bind_eq_some_iff.mp (h : (nest n t).bind (depthAfter · ts) = some m)
      rw [List.cons_append, argumentsFrom, hl]
      simpa using ih h (current ++ [t])

end WordBlocks.Python
