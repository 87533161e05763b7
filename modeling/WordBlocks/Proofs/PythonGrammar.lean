import WordBlocks.Proofs.PythonTokens

/-!
The grammar of Python expressions. Its levels are, from the loosest to the tightest: `or`, `and`,
`not`, comparisons in a chain, sums, products, the minus sign, and calls, attributes and subscripts
of an atom. `parse` reads the tokens of a text level by level. `Reads` says that tokens stand for a
tree at a level, whatever follows them that does not go on at this level.
-/

namespace WordBlocks.Python

inductive Tree where
  | integer (value : Nat)
  | float (value : Binary64)
  | text (value : String)
  | constant (word : String)
  | name (word : String)
  | list (items : List Tree)
  | dict (entries : List (Tree × Tree))
  | call (function : Tree) (arguments : List Tree)
  | member (object : Tree) (word : String)
  | subscript (object index : Tree)
  | neg (operand : Tree)
  | binary (sign : String) (left right : Tree)
  | compare (first : Tree) (rest : List (String × Tree))
  | not (operand : Tree)
  | and (operands : List Tree)
  | or (operands : List Tree)

/-- A call of a method without arguments. -/
def Tree.method (object : Tree) (word : String) : Tree :=
  .call (.member object word) []

inductive Level where
  | disjunction
  | conjunction
  | inversion
  | comparison
  | sum
  | product
  | minus
  | primary
deriving DecidableEq, Repr

/-- Looser levels have smaller ranks. -/
def Level.rank : Level → Nat
  | disjunction => 0
  | conjunction => 1
  | inversion => 2
  | comparison => 3
  | sum => 4
  | product => 5
  | minus => 6
  | primary => 7

/-- A reader of tokens gives what it read and the tokens after it. -/
abbrev Reader (α : Type) := List Token → Option (α × List Token)

def expect (sign : String) : List Token → Option (List Token)
  | .op sign' :: rest => if sign' = sign then some rest else none
  | _ => none

/-- Items with commas between them, up to a closing sign. A comma may stand after the last one. -/
def separated {α : Type} (item : Reader α) (closing : String) : Nat → Reader (List α)
  | 0, _ => none
  | n + 1, ts =>
    match expect closing ts with
    | some rest => some ([], rest)
    | none => do
      let (first, rest) ← item ts
      match expect closing rest with
      | some rest => return ([first], rest)
      | none =>
        let (more, rest) ← separated item closing n (← expect "," rest)
        return (first :: more, rest)

def entry (inner : Reader Tree) : Reader (Tree × Tree) := fun ts => do
  let (key, rest) ← inner ts
  let (value, rest) ← inner (← expect ":" rest)
  return ((key, value), rest)

/-- An atom. What is inside brackets is read by `inner`, and there are at most `n` items. -/
def atom (inner : Reader Tree) (n : Nat) : Reader Tree
  | .name word :: rest => some (.name word, rest)
  | .integer value :: rest => some (.integer value, rest)
  | .float value :: rest => some (.float value, rest)
  | .text value :: rest => some (.text value, rest)
  | .keyword word :: rest =>
    if word ∈ ["None", "True", "False"] then some (.constant word, rest) else none
  | .op sign :: rest =>
    if sign = "(" then do
      let (t, rest) ← inner rest
      return (t, ← expect ")" rest)
    else if sign = "[" then
      (separated inner "]" n rest).map fun (items, rest) => (.list items, rest)
    else if sign = "\x7b" then
      (separated (entry inner) "\x7d" n rest).map fun (entries, rest) => (.dict entries, rest)
    else none
  | _ => none

def name? : Reader String
  | .name word :: rest => some (word, rest)
  | _ => none

/-- The attributes, calls and subscripts after an atom, at most so many. -/
def trailers (inner : Reader Tree) : Nat → Tree → Reader Tree
  | n + 1, t, .op sign :: ts =>
    if sign = "." then do
      let (word, rest) ← name? ts
      trailers inner n (.member t word) rest
    else if sign = "(" then do
      let (arguments, rest) ← separated inner ")" (n + 1) ts
      trailers inner n (.call t arguments) rest
    else if sign = "[" then do
      let (index, rest) ← inner ts
      trailers inner n (.subscript t index) (← expect "]" rest)
    else some (t, .op sign :: ts)
  | _, t, ts => some (t, ts)

def primary (inner : Reader Tree) (n : Nat) : Reader Tree := fun ts => do
  let (t, rest) ← atom inner n ts
  trailers inner n t rest

def prefixed (mark : Token) (wrap : Tree → Tree) (operand : Reader Tree) : Reader Tree
  | [] => operand []
  | t :: ts =>
    if t = mark then (prefixed mark wrap operand ts).map fun (x, rest) => (wrap x, rest)
    else operand (t :: ts)

def Level.signs : Level → List String
  | comparison => ["<", ">", "==", ">=", "<=", "!="]
  | sum => ["+", "-"]
  | product => ["*", "/", "//", "%", "@"]
  | _ => []

/-- The operator of a level that stands at the head of some tokens. -/
def operator? : Level → Reader String
  | level, .op sign :: rest => if sign ∈ level.signs then some (sign, rest) else none
  | .disjunction, .keyword "or" :: rest => some ("or", rest)
  | .conjunction, .keyword "and" :: rest => some ("and", rest)
  | .comparison, .keyword "in" :: rest => some ("in", rest)
  | .comparison, .keyword "not" :: .keyword "in" :: rest => some ("not in", rest)
  | .comparison, .keyword "is" :: .keyword "not" :: rest => some ("is not", rest)
  | .comparison, .keyword "is" :: rest => some ("is", rest)
  | _, _ => none

/-- The operators of a level that follow an operand, each with its right operand, at most so many.
-/
def operands (level : Level) (operand : Reader Tree) : Nat → Reader (List (String × Tree))
  | 0, ts => some ([], ts)
  | n + 1, ts =>
    match operator? level ts with
    | none => some ([], ts)
    | some (sign, rest) => do
      let (t, rest) ← operand rest
      let (more, rest) ← operands level operand n rest
      return ((sign, t) :: more, rest)

/-- The tree of operands and the operators between them: chains of comparisons, `and` and `or` stay
together, and the others group to the left. -/
def Level.join : Level → Tree → List (String × Tree) → Tree
  | _, first, [] => first
  | disjunction, first, more => .or (first :: more.map (·.2))
  | conjunction, first, more => .and (first :: more.map (·.2))
  | comparison, first, more => .compare first more
  | _, first, more => more.foldl (fun left (sign, right) => .binary sign left right) first

def infixed (level : Level) (operand : Reader Tree) (n : Nat) : Reader Tree := fun ts => do
  let (first, rest) ← operand ts
  let (more, rest) ← operands level operand n rest
  return (level.join first more, rest)

section

variable (inner : Reader Tree) (n : Nat)

def minus : Reader Tree := prefixed (.op "-") .neg (primary inner n)

def product : Reader Tree := infixed .product (minus inner n) n

def sum : Reader Tree := infixed .sum (product inner n) n

def comparison : Reader Tree := infixed .comparison (sum inner n) n

def inversion : Reader Tree := prefixed (.keyword "not") .not (comparison inner n)

def conjunction : Reader Tree := infixed .conjunction (inversion inner n) n

def disjunction : Reader Tree := infixed .disjunction (conjunction inner n) n

def Level.reader : Level → Reader Tree
  | .primary => Python.primary inner n
  | .minus => Python.minus inner n
  | .product => Python.product inner n
  | .sum => Python.sum inner n
  | .comparison => Python.comparison inner n
  | .inversion => Python.inversion inner n
  | .conjunction => Python.conjunction inner n
  | .disjunction => Python.disjunction inner n

end

/-- Reads an expression with brackets inside each other less than `n` deep. -/
def expression : Nat → Reader Tree
  | 0 => fun _ => none
  | n + 1 => disjunction (expression n) n

/-- Reads a text that is one expression and nothing else. -/
def parse (text : String) : Option Tree := do
  let ts ← scanner.tokens? text
  match expression (ts.length + 1) ts with
  | some (t, []) => some t
  | _ => none

/-- The level of the operands. -/
def Level.tighter : Level → Level
  | disjunction => conjunction
  | conjunction => inversion
  | inversion => comparison
  | comparison => sum
  | sum => product
  | product => minus
  | minus | primary => primary

/-- The levels whose operators stand between operands. -/
def Level.isInfix : Level → Bool
  | disjunction | conjunction | comparison | sum | product => true
  | inversion | minus | primary => false

theorem Level.reader_of_isInfix {level : Level} (h : level.isInfix = true) (inner : Reader Tree)
    (n : Nat) : level.reader inner n = infixed level (level.tighter.reader inner n) n := by
  cases level with
  | disjunction | conjunction | comparison | sum | product => rfl
  | inversion | minus | primary => cases h

theorem Level.rank_le_tighter (level : Level) : level.rank ≤ level.tighter.rank := by
  cases level <;> decide

/-- Tokens that do not go on at a level or a tighter one. -/
def Stops (level : Level) (rest : List Token) : Prop :=
  (∀ sign ts, rest = .op sign :: ts → sign ∉ [".", "(", "["]) ∧
    ∀ level', level.rank ≤ level'.rank → operator? level' rest = none

/-- Tokens that a level reads as a tree, if what follows does not go on. -/
def Reads (level : Level) (ts : List Token) (t : Tree) : Prop :=
  ∀ n, ts.length ≤ n → ∀ rest, Stops level rest →
    level.reader (expression n) n (ts ++ rest) = some (t, rest)

/-- Tokens that are read as an atom and trailers, whatever further trailers follow. -/
def ReadsPrimary (ts : List Token) (t : Tree) : Prop :=
  -- Every trailer takes one of the `n` steps and has at least one token, so enough steps are left.
  ∀ n, ts.length ≤ n → ∀ rest, ∃ k, n ≤ k + ts.length ∧
    primary (expression n) n (ts ++ rest) = trailers (expression n) k t rest

theorem Stops.mono {level level' : Level} {rest : List Token} (h : Stops level rest)
    (hle : level.rank ≤ level'.rank) : Stops level' rest :=
  ⟨h.1, fun level'' hle' => h.2 level'' (hle.trans hle')⟩

theorem stops_nil (level : Level) : Stops level [] := by
  refine ⟨fun sign ts h => ?_, fun level' _ => ?_⟩
  · cases h
  · cases level' <;> rfl

theorem stops_op {level : Level} {sign : String} (htrailer : sign ∉ [".", "(", "["])
    (h : ∀ level' : Level, level.rank ≤ level'.rank → sign ∉ level'.signs) (rest : List Token) :
    Stops level (.op sign :: rest) := by
  refine ⟨?_, fun level' hle => if_neg (h level' hle)⟩
  rintro _ _ ⟨⟩
  exact htrailer

/-- The signs that end an expression inside brackets. -/
def closingSigns : List String :=
  [")", "]", "\x7d", ",", ":"]

theorem stops_closing {sign : String} (h : sign ∈ closingSigns) (level : Level)
    (rest : List Token) : Stops level (.op sign :: rest) := by
  refine stops_op ?_ (fun level' _ => ?_) rest
  · revert sign
    decide
  · revert sign
    cases level' <;> decide

theorem Level.eq_of_mem_signs {level level' : Level} {sign : String} (h : sign ∈ level.signs)
    (h' : sign ∈ level'.signs) : level = level' := by
  revert sign
  cases level <;> cases level' <;> decide

theorem level_eq_of_operator? {level level' : Level} {ts : List Token} {x y : String × List Token}
    (h : operator? level ts = some x) (h' : operator? level' ts = some y) : level = level' := by
  unfold operator? at h
  split at h
  · have hmem := (Option.ite_none_right_eq_some.mp h).1
    have hmem' := (Option.ite_none_right_eq_some.mp h').1
    exact Level.eq_of_mem_signs hmem hmem'
  all_goals cases level' <;> simp [operator?] at h h' ⊢

theorem Level.rank_lt_tighter {level : Level} (h : level ≠ primary) :
    level.rank < level.tighter.rank := by
  cases level with
  | primary => exact absurd rfl h
  | _ => decide

theorem operator?_primary (ts : List Token) : operator? .primary ts = none := by
  cases ts with
  | nil => rfl
  | cons t ts => cases t <;> simp [operator?, Level.signs]

theorem stops_of_operator? {level : Level} {ts : List Token} {x : String × List Token}
    (h : operator? level ts = some x) : Stops level.tighter ts := by
  refine ⟨?_, fun level' hle => ?_⟩
  · rintro sign us rfl
    have hmem := (Option.ite_none_right_eq_some.mp h).1
    clear h
    revert sign
    cases level <;> decide
  · -- The operator belongs to one level only, which is not among the tighter ones.
    by_contra hne
    obtain ⟨y, hy⟩ := Option.ne_none_iff_exists'.mp hne
    obtain rfl := level_eq_of_operator? h hy
    have hprimary : level ≠ .primary := by
      rintro rfl
      rw [operator?_primary] at h
      cases h
    have hlt := Level.rank_lt_tighter hprimary
    omega

theorem trailers_of_stops {level : Level} {rest : List Token} (h : Stops level rest)
    (inner : Reader Tree) (k : Nat) (t : Tree) : trailers inner k t rest = some (t, rest) := by
  unfold trailers
  split
  · next sign ts =>
      have hsign := h.1 sign ts rfl
      simp only [List.mem_cons, List.not_mem_nil, or_false, not_or] at hsign
      rw [if_neg hsign.1, if_neg hsign.2.1, if_neg hsign.2.2]
  · rfl

theorem operands_of_stops {level : Level} {rest : List Token} (h : Stops level rest)
    (operand : Reader Tree) (n : Nat) : operands level operand n rest = some ([], rest) := by
  cases n with
  | zero => rfl
  | succ n => rw [operands, h.2 level le_rfl]

theorem infixed_of_stops {level : Level} {operand : Reader Tree} {n : Nat} {ts rest : List Token}
    {t : Tree} (h : operand ts = some (t, rest)) (hrest : Stops level rest) :
    infixed level operand n ts = some (t, rest) := by
  have hjoin : level.join t [] = t := by
    cases level <;> rfl
  rw [infixed, h]
  change (operands level operand n rest >>= fun x => some (level.join t x.1, x.2)) = _
  rw [operands_of_stops hrest]
  change some (level.join t [], rest) = _
  rw [hjoin]

theorem prefixed_of_operand {mark : Token} {wrap : Tree → Tree} {operand : Reader Tree}
    {ts : List Token} {x : Tree × List Token} (h : operand ts = some x)
    (hmark : ∀ us, operand (mark :: us) = none) : prefixed mark wrap operand ts = some x := by
  cases ts with
  | nil => exact h
  | cons t ts =>
      rw [prefixed, if_neg, h]
      rintro rfl
      rw [hmark] at h
      cases h

theorem Reads.loosen {level : Level} {ts : List Token} {t : Tree} (h : Reads level.tighter ts t) :
    Reads level ts t := by
  intro n hn rest hrest
  have hread := h n hn rest (hrest.mono level.rank_le_tighter)
  cases level with
  | disjunction | conjunction | comparison | sum | product => exact infixed_of_stops hread hrest
  | inversion => exact prefixed_of_operand hread fun us => rfl
  | minus => exact prefixed_of_operand hread fun us => rfl
  | primary => exact hread

theorem Reads.mono {level level' : Level} {ts : List Token} {t : Tree} (h : Reads level ts t)
    (hle : level'.rank ≤ level.rank) : Reads level' ts t := by
  -- From the tighter level to the looser one, a level at a time.
  by_cases heq : level' = level
  · exact heq ▸ h
  · have hlt : level'.tighter.rank ≤ level.rank ∧ level'.rank < level'.tighter.rank := by
      revert hle heq
      cases level <;> cases level' <;> decide
    exact (h.mono hlt.1).loosen
termination_by level.rank - level'.rank
decreasing_by omega

theorem ReadsPrimary.reads {ts : List Token} {t : Tree} (h : ReadsPrimary ts t) :
    Reads .primary ts t := by
  intro n hn rest hrest
  obtain ⟨k, _, heq⟩ := h n hn rest
  exact heq.trans (trailers_of_stops hrest _ k t)

theorem Reads.minus {ts : List Token} {t : Tree} (h : Reads .minus ts t) :
    Reads .minus (.op "-" :: ts) (.neg t) := by
  intro n hn rest hrest
  have hread := h n (Nat.le_of_succ_le hn) rest hrest
  change (Level.minus.reader (expression n) n (ts ++ rest)).map _ = _
  rw [hread]
  rfl

theorem Reads.not {ts : List Token} {t : Tree} (h : Reads .inversion ts t) :
    Reads .inversion (.keyword "not" :: ts) (.not t) := by
  intro n hn rest hrest
  have hread := h n (Nat.le_of_succ_le hn) rest hrest
  change (Level.inversion.reader (expression n) n (ts ++ rest)).map _ = _
  rw [hread]
  rfl

/-- Tokens that are an operator in front of any operand. -/
def IsOperator (level : Level) (os : List Token) (sign : String) : Prop :=
  os ≠ [] ∧ ∀ ts, (level = .comparison → ts.head? ≠ some (.keyword "not")) →
    operator? level (os ++ ts) = some (sign, ts)

inductive Links (level : Level) : List Token → List (String × Tree) → Prop where
  | nil : Links level [] []
  | cons {os ts us : List Token} {sign : String} {t : Tree} {more : List (String × Tree)} :
      IsOperator level os sign → Reads level.tighter ts t → Links level us more →
      Links level (os ++ (ts ++ us)) ((sign, t) :: more)

theorem Reads.ne_nil {level : Level} {ts : List Token} {t : Tree} (h : Reads level ts t) :
    ts ≠ [] := by
  rintro rfl
  have hread := h 0 le_rfl [] (stops_nil level)
  cases level <;> cases hread

theorem Reads.head?_ne_not {ts : List Token} {t : Tree} (h : Reads .sum ts t) (rest : List Token) :
    (ts ++ rest).head? ≠ some (.keyword "not") := by
  cases ts with
  | nil => exact absurd rfl h.ne_nil
  | cons t' ts =>
      rintro ⟨⟩
      -- A negation is looser than a sum, so the reader of sums fails on its keyword.
      have hread := h _ le_rfl [] (stops_nil .sum)
      cases hread

theorem IsOperator.operator? {level : Level} {os ts : List Token} {sign : String} {t : Tree}
    (hop : IsOperator level os sign) (h : Reads level.tighter ts t) (rest : List Token) :
    operator? level (os ++ (ts ++ rest)) = some (sign, ts ++ rest) := by
  refine hop.2 _ fun heq => ?_
  obtain rfl := heq
  exact h.head?_ne_not rest

theorem Links.stops {level : Level} {ts rest : List Token} {more : List (String × Tree)}
    (h : Links level ts more) (hrest : Stops level rest) : Stops level.tighter (ts ++ rest) := by
  cases h with
  | nil => exact hrest.mono level.rank_le_tighter
  | cons hop ht _ =>
      rw [List.append_assoc, List.append_assoc]
      exact stops_of_operator? (hop.operator? ht _)

theorem Links.operands {level : Level} {ts rest : List Token} {more : List (String × Tree)}
    {n k : Nat} (h : Links level ts more) (hn : ts.length ≤ n) (hk : ts.length ≤ k)
    (hrest : Stops level rest) :
    operands level (level.tighter.reader (expression n) n) k (ts ++ rest) = some (more, rest) := by
  induction h generalizing k with
  | nil => exact operands_of_stops hrest _ k
  | @cons os ts us sign t more hop ht hlinks ih =>
      -- The operator has a token, which pays for the step that reads it.
      have hos := List.length_pos_iff.mpr hop.1
      simp only [List.length_append] at hn hk
      obtain ⟨k, rfl⟩ : ∃ j, k = j + 1 := ⟨k - 1, by omega⟩
      have hread := ht n (by omega) (us ++ rest) (hlinks.stops hrest)
      have hmore := @ih k (by omega) (by omega)
      rw [List.append_assoc, List.append_assoc, Python.operands, hop.operator? ht]
      simp [hread, hmore]

theorem Reads.links {level : Level} {ts us : List Token} {t : Tree} {more : List (String × Tree)}
    (hmarked : level.isInfix = true) (ht : Reads level.tighter ts t) (h : Links level us more) :
    Reads level (ts ++ us) (level.join t more) := by
  intro n hn rest hrest
  rw [List.length_append] at hn
  have hread := ht n (by omega) (us ++ rest) (h.stops hrest)
  have hmore := h.operands (n := n) (k := n) (by omega) (by omega) hrest
  rw [Level.reader_of_isInfix hmarked, List.append_assoc, infixed, hread]
  simp [hmore]

def commas : List (List Token) → List Token
  | [] => []
  | [ts] => ts
  | ts :: us :: rest => ts ++ .op "," :: commas (us :: rest)

theorem length_le_commas (tss : List (List Token)) : tss.length ≤ (commas tss).length + 1 := by
  fun_induction commas tss with
  | case1 => simp
  | case2 ts => simp
  | case3 ts us rest ih =>
      simp only [List.length_cons, List.length_append] at ih ⊢
      omega

theorem length_le_commas_of_mem {tss : List (List Token)} {ts : List Token} (h : ts ∈ tss) :
    ts.length ≤ (commas tss).length := by
  fun_induction commas tss with
  | case1 => cases h
  | case2 us => rw [List.mem_singleton.mp h]
  | case3 us vs rest ih =>
      rw [List.length_append, List.length_cons]
      rcases List.mem_cons.mp h with rfl | h
      · omega
      · have := ih h
        omega

theorem expect_self (sign : String) (rest : List Token) :
    expect sign (.op sign :: rest) = some rest :=
  if_pos rfl

theorem expect_of_ne {sign sign' : String} (h : sign' ≠ sign) (rest : List Token) :
    expect sign (.op sign' :: rest) = none :=
  if_neg h

theorem eq_cons_of_expect {sign : String} {ts rest : List Token} (h : expect sign ts = some rest) :
    ts = .op sign :: rest := by
  unfold expect at h
  split at h
  · obtain ⟨rfl, heq⟩ := Option.ite_none_right_eq_some.mp h
    rw [Option.some.inj heq]
  · cases h

/-- A reader that reads each item in front of a comma or the closing sign reads all of them. -/
theorem separated_commas {α : Type} {item : Reader α} {closing : String} {n : Nat}
    {tss : List (List Token)} {xs : List α} (hcomma : "," ≠ closing)
    (hclosing : ∀ ts, item (.op closing :: ts) = none)
    (h : List.Forall₂ (fun ts x => ∀ sign ∈ [",", closing], ∀ rest,
      item (ts ++ .op sign :: rest) = some (x, .op sign :: rest)) tss xs)
    (hn : tss.length ≤ n) (hpos : 0 < n) (rest : List Token) :
    separated item closing n (commas tss ++ .op closing :: rest) = some (xs, rest) := by
  -- The closing sign is tried before every item, and no item starts with it.
  have hopen {ts : List Token} {x : α × List Token} (h : item ts = some x) :
      expect closing ts = none := by
    by_contra hne
    obtain ⟨us, hus⟩ := Option.ne_none_iff_exists'.mp hne
    rw [eq_cons_of_expect hus, hclosing] at h
    cases h
  induction h generalizing n with
  | nil =>
      obtain ⟨n, rfl⟩ : ∃ m, n = m + 1 := ⟨n - 1, by omega⟩
      rw [commas, List.nil_append, separated, expect_self]
  | @cons ts x tss xs hitem htail ih =>
      obtain ⟨n, rfl⟩ : ∃ m, n = m + 1 := ⟨n - 1, by omega⟩
      cases htail with
      | nil =>
          have hread := hitem closing (by simp) rest
          rw [commas, separated, hopen hread]
          simp [hread, expect_self]
      | @cons us y tss ys hus htail =>
          have hread := hitem "," (by simp) (commas (us :: tss) ++ .op closing :: rest)
          have hmore := @ih n (by simpa using hn) (by simp at hn; omega)
          rw [commas, List.append_assoc, List.cons_append, separated, hopen hread]
          simp [hread, expect_self, expect_of_ne hcomma, hmore]

theorem Reads.expression {ts rest : List Token} {t : Tree} {n : Nat} (h : Reads .disjunction ts t)
    (hn : ts.length < n) (hrest : Stops .disjunction rest) :
    expression n (ts ++ rest) = some (t, rest) := by
  obtain ⟨n, rfl⟩ : ∃ m, n = m + 1 := ⟨n - 1, by omega⟩
  exact h n (by omega) rest hrest

theorem expression_closing {sign : String} (h : sign ∈ closingSigns) (n : Nat) (ts : List Token) :
    Python.expression n (.op sign :: ts) = none := by
  cases n with
  | zero => rfl
  | succ n =>
      simp only [closingSigns, List.mem_cons, List.not_mem_nil, or_false] at h
      rcases h with rfl | rfl | rfl | rfl | rfl <;> rfl

theorem separated_expressions {closing : String} {n k : Nat} {tss : List (List Token)}
    {trees : List Tree} (hmem : closing ∈ closingSigns) (hcomma : "," ≠ closing)
    (h : List.Forall₂ (Reads .disjunction) tss trees) (hn : (commas tss).length < n)
    (hk : (commas tss).length < k) (rest : List Token) :
    separated (Python.expression n) closing k (commas tss ++ .op closing :: rest) =
      some (trees, rest) := by
  have hlength := length_le_commas tss
  refine separated_commas hcomma (expression_closing hmem n) ?_ (by omega) (by omega) rest
  refine List.forall₂_iff_zip.mpr ⟨h.length_eq, fun {ts t} hzip => ?_⟩
  have hread := (List.forall₂_iff_zip.mp h).2 hzip
  have hlt := length_le_commas_of_mem (List.of_mem_zip hzip).1
  intro sign hsign rest
  refine hread.expression (by omega) (stops_closing ?_ _ rest)
  rcases List.mem_cons.mp hsign with rfl | hsign
  · decide
  · rwa [List.mem_singleton.mp hsign]

def ReadsEntry (ts : List Token) (x : Tree × Tree) : Prop :=
  ∃ ks vs, ts = ks ++ .op ":" :: vs ∧ Reads .disjunction ks x.1 ∧ Reads .disjunction vs x.2

namespace ReadsPrimary

variable {ts us : List Token} {t u : Tree}

theorem of_atom (h : ∀ n, ts.length ≤ n → ∀ rest,
    atom (Python.expression n) n (ts ++ rest) = some (t, rest)) : ReadsPrimary ts t := by
  intro n hn rest
  refine ⟨n, Nat.le_add_right _ _, ?_⟩
  rw [primary, h n hn rest]
  rfl

theorem name (word : String) : ReadsPrimary [.name word] (.name word) :=
  of_atom fun _ _ _ => rfl

theorem integer (value : Nat) : ReadsPrimary [.integer value] (.integer value) :=
  of_atom fun _ _ _ => rfl

theorem float (value : Binary64) : ReadsPrimary [.float value] (.float value) :=
  of_atom fun _ _ _ => rfl

theorem text (value : String) : ReadsPrimary [.text value] (.text value) :=
  of_atom fun _ _ _ => rfl

theorem constant {word : String} (h : word ∈ ["None", "True", "False"]) :
    ReadsPrimary [.keyword word] (.constant word) :=
  of_atom fun _ _ _ => if_pos h

theorem paren (h : Reads .disjunction ts t) :
    ReadsPrimary (.op "(" :: (ts ++ [.op ")"])) t := by
  refine of_atom fun n hn rest => ?_
  simp only [List.length_cons, List.length_append] at hn
  have hread : Python.expression n (ts ++ .op ")" :: rest) = some (t, .op ")" :: rest) :=
    h.expression (by omega) (stops_closing (by decide) _ _)
  rw [List.cons_append, List.append_assoc, atom, if_pos rfl]
  simp [hread, expect_self]

theorem list {tss : List (List Token)} {trees : List Tree}
    (h : List.Forall₂ (Reads .disjunction) tss trees) :
    ReadsPrimary (.op "[" :: (commas tss ++ [.op "]"])) (.list trees) := by
  refine of_atom fun n hn rest => ?_
  simp only [List.length_cons, List.length_append] at hn
  have hread : separated (Python.expression n) "]" n (commas tss ++ .op "]" :: rest) =
      some (trees, rest) :=
    separated_expressions (by decide) (by decide) h (by omega) (by omega) rest
  rw [List.cons_append, List.append_assoc, atom, if_neg (by decide), if_pos rfl]
  simp [hread]

theorem dict {tss : List (List Token)} {entries : List (Tree × Tree)}
    (h : List.Forall₂ ReadsEntry tss entries) :
    ReadsPrimary (.op "\x7b" :: (commas tss ++ [.op "\x7d"])) (.dict entries) := by
  refine of_atom fun n hn rest => ?_
  simp only [List.length_cons, List.length_append] at hn
  have hlength := length_le_commas tss
  have hclosing : ∀ sign ∈ [",", "\x7d"], sign ∈ closingSigns := by decide
  have hread : separated (entry (Python.expression n)) "\x7d" n
      (commas tss ++ .op "\x7d" :: rest) = some (entries, rest) := by
    refine separated_commas (by decide) (fun ts => ?_) ?_ (by omega) (by omega) rest
    · rw [entry, expression_closing (by decide)]
      rfl
    · refine List.forall₂_iff_zip.mpr ⟨h.length_eq, fun {ts x} hzip sign hsign rest => ?_⟩
      obtain ⟨ks, vs, rfl, hk, hv⟩ := (List.forall₂_iff_zip.mp h).2 hzip
      have hlt := length_le_commas_of_mem (List.of_mem_zip hzip).1
      simp only [List.length_append, List.length_cons] at hlt
      have hkey : Python.expression n (ks ++ .op ":" :: (vs ++ .op sign :: rest)) =
          some (x.1, .op ":" :: (vs ++ .op sign :: rest)) :=
        hk.expression (by omega) (stops_closing (by decide) _ _)
      have hvalue : Python.expression n (vs ++ .op sign :: rest) =
          some (x.2, .op sign :: rest) :=
        hv.expression (by omega) (stops_closing (hclosing sign hsign) _ _)
      simp [entry, hkey, hvalue, expect_self]
  rw [List.cons_append, List.append_assoc, atom, if_neg (by decide), if_neg (by decide), if_pos rfl]
  simp [hread]

theorem member (h : ReadsPrimary ts t) (word : String) :
    ReadsPrimary (ts ++ [.op ".", .name word]) (.member t word) := by
  intro n hn rest
  simp only [List.length_append, List.length_cons, List.length_nil] at hn ⊢
  obtain ⟨k, hk, heq⟩ := h n (by omega) (.op "." :: .name word :: rest)
  obtain ⟨k, rfl⟩ : ∃ j, k = j + 1 := ⟨k - 1, by omega⟩
  refine ⟨k, by omega, ?_⟩
  rw [List.append_assoc]
  exact heq

theorem call {tss : List (List Token)} {arguments : List Tree} (h : ReadsPrimary ts t)
    (harguments : List.Forall₂ (Reads .disjunction) tss arguments) :
    ReadsPrimary (ts ++ .op "(" :: (commas tss ++ [.op ")"])) (.call t arguments) := by
  intro n hn rest
  simp only [List.length_append, List.length_cons, List.length_nil] at hn ⊢
  obtain ⟨k, hk, heq⟩ := h n (by omega) (.op "(" :: (commas tss ++ .op ")" :: rest))
  obtain ⟨k, rfl⟩ : ∃ j, k = j + 1 := ⟨k - 1, by omega⟩
  have hread : separated (Python.expression n) ")" (k + 1) (commas tss ++ .op ")" :: rest) =
      some (arguments, rest) :=
    separated_expressions (by decide) (by decide) harguments (by omega) (by omega) rest
  refine ⟨k, by omega, ?_⟩
  rw [List.append_assoc, List.cons_append, List.append_assoc, List.singleton_append, heq, trailers,
    if_neg (by decide), if_pos rfl, hread]
  rfl

theorem subscript (h : ReadsPrimary ts t) (hindex : Reads .disjunction us u) :
    ReadsPrimary (ts ++ .op "[" :: (us ++ [.op "]"])) (.subscript t u) := by
  intro n hn rest
  simp only [List.length_append, List.length_cons, List.length_nil] at hn ⊢
  obtain ⟨k, hk, heq⟩ := h n (by omega) (.op "[" :: (us ++ .op "]" :: rest))
  obtain ⟨k, rfl⟩ : ∃ j, k = j + 1 := ⟨k - 1, by omega⟩
  have hread : Python.expression n (us ++ .op "]" :: rest) = some (u, .op "]" :: rest) :=
    hindex.expression (by omega) (stops_closing (by decide) _ _)
  refine ⟨k, by omega, ?_⟩
  rw [List.append_assoc, List.cons_append, List.append_assoc, List.singleton_append, heq, trailers,
    if_neg (by decide), if_neg (by decide), if_pos rfl, hread]
  change (expect "]" (.op "]" :: rest) >>= _) = _
  rw [expect_self]
  rfl

end ReadsPrimary

theorem parse_of_reads {text : String} {ts : List Token} {t : Tree}
    (hlex : scanner.tokens? text = some ts) (h : Reads .disjunction ts t) :
    parse text = some t := by
  have hread := h.expression (Nat.lt_succ_self _) (stops_nil _)
  rw [List.append_nil] at hread
  simp [parse, hlex, hread]

end WordBlocks.Python
