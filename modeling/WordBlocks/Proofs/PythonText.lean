import WordBlocks.Proofs.PythonGrammar
import WordBlocks.Script.Expr

/-!
Texts that Python reads as expressions. `Parses` says that a text stands for a tree at a level of
the grammar, and `Primes` that it does so whatever trailers follow. There is one lemma for each way
to put a text together, so a template is read part by part.
-/

namespace WordBlocks.Python

open Script (isNameChar keywords)

def isName (word : String) : Bool :=
  word.toList.head?.any (fun c => !c.isDigit) && word.toList.all isNameChar &&
    !keywords.contains word

theorem exists_cons_of_head? {p : Char → Bool} {cs : List Char} (h : cs.head?.any p = true) :
    ∃ c ds, cs = c :: ds ∧ p c = true := by
  cases cs with
  | nil => cases h
  | cons c ds => exact ⟨c, ds, rfl, h⟩

theorem exists_cons_of_isName {word : String} (h : isName word = true) : ∃ c cs,
    word.toList = c :: cs ∧ c.isDigit = false ∧ (∀ d ∈ c :: cs, isNameChar d = true) ∧
      wordToken (c :: cs) = .name word := by
  simp only [isName, Bool.and_eq_true, Bool.not_eq_true', List.all_eq_true] at h
  obtain ⟨⟨hhead, hchars⟩, hkeyword⟩ := h
  obtain ⟨c, cs, hcs, hc⟩ := exists_cons_of_head? hhead
  refine ⟨c, cs, hcs, by simpa using hc, hcs ▸ hchars, ?_⟩
  rw [← hcs, wordToken, String.ofList_toList, hkeyword]
  rfl

theorem lexes_name {word : String} (h : isName word = true) :
    Lexes endsWord word.toList [.name word] := by
  obtain ⟨c, cs, hcs, hc, hchars, htoken⟩ := exists_cons_of_isName h
  rw [hcs, ← htoken]
  exact lexes_word hc hchars

theorem lexes_op {follow : Char → Bool} {c : Char} (hstart : start c = some ([], .op [c]))
    (hop : operators.contains [c] = true)
    (h : ∀ d, follow d = true → operators.contains [c, d] = false ∧ ¬(c = '.' ∧ d.isDigit = true)) :
    Lexes follow [c] [.op (String.singleton c)] := by
  refine ⟨[], .op [c], _, .single hstart, if_pos hop, rfl, fun d hd => ?_⟩
  rw [step, List.singleton_append, (h d hd).1, if_neg Bool.false_ne_true, if_neg]
  rintro ⟨heq, hdigit⟩
  exact (h d hd).2 ⟨(List.cons.inj heq).1, hdigit⟩

/-- The characters that do not make a plus or minus sign longer. -/
def endsSign (c : Char) : Bool :=
  c != '=' && c != '>'

theorem lexes_sign {c : Char} (hc : c = '+' ∨ c = '-') :
    Lexes endsSign [c] [.op (String.singleton c)] := by
  refine lexes_op ?_ ?_ fun d hd => ⟨?_, ?_⟩
  · rcases hc with rfl | rfl <;> rfl
  · rcases hc with rfl | rfl <;> rfl
  · simp only [endsSign, Bool.and_eq_true, bne_iff_ne] at hd
    rcases hc with rfl | rfl <;> simp [operators, hd]
  · rcases hc with rfl | rfl <;> simp

theorem lexes_member {word : String} (h : isName word = true) :
    Lexes endsWord ('.' :: word.toList) [.op ".", .name word] := by
  have hpoint : Lexes (fun d => isNameChar d && !d.isDigit) ['.'] [.op "."] := by
    refine lexes_op rfl rfl fun d hd => ⟨?_, ?_⟩
    · simp [operators]
    · simp_all
  have hword := lexes_name h
  obtain ⟨c, cs, hcs, hc, hchars, -⟩ := exists_cons_of_isName h
  rw [hcs] at hword ⊢
  exact hpoint.append (by simp [hc, hchars c List.mem_cons_self]) hword

theorem Lexes.bracket {follow follow' : Char → Bool} {o c : Char} {cs : List Char} {ts : List Token}
    {opening closing : String} (ho : start o = some ([.op opening], .idle))
    (hc : start c = some ([.op closing], .idle)) (h : Lexes follow cs ts)
    (hfollow : follow c = true) :
    Lexes follow' (o :: (cs ++ [c])) (.op opening :: (ts ++ [.op closing])) := by
  have hopening : scanner.Scans .idle [o] [.op opening] .idle := .single ho
  exact .after hopening (h.append hfollow (.of_scans (.single hc)))

theorem lexes_commas {texts : List String} {tss : List (List Token)}
    (h : List.Forall₂ (fun text ts => Lexes endsToken text.toList ts) texts tss) :
    Lexes endsToken (", ".intercalate texts).toList (commas tss) := by
  induction h with
  | nil => exact .of_scans (.nil _)
  | @cons text ts texts tss hhead htail ih =>
      cases htail with
      | nil => simpa [commas] using hhead
      | cons hnext htail =>
          have hcomma : scanner.Scans .idle [',', ' '] [.op ","] .idle := rfl
          rw [String.intercalate_cons_cons, String.toList_append, String.toList_append,
            List.append_assoc]
          exact hhead.append rfl (.after hcomma ih)

/-- A text with tokens that satisfy a condition. It does not make a sign before it longer. -/
def Spells (follow : Char → Bool) (text : String) (condition : List Token → Prop) : Prop :=
  ∃ c cs ts, text.toList = c :: cs ∧ endsSign c = true ∧ Lexes follow (c :: cs) ts ∧ condition ts

/-- A text that stands for a tree at a level of the grammar. -/
def Parses (level : Level) (text : String) (t : Tree) : Prop :=
  Spells endsToken text (Reads level · t)

/-- A text that stands for a tree, also in front of trailers. -/
def Primes (text : String) (t : Tree) : Prop :=
  Spells endsWord text (ReadsPrimary · t)

theorem Spells.of_lexes {follow : Char → Bool} {text : String} {c : Char} {cs : List Char}
    {ts : List Token} {condition : List Token → Prop} (htext : text.toList = c :: cs)
    (hc : endsSign c = true) (h : Lexes follow (c :: cs) ts) (hts : condition ts) :
    Spells follow text condition :=
  ⟨c, cs, ts, htext, hc, h, hts⟩

/-- A text in front of one that starts with a character that may follow it. -/
theorem Spells.append {follow follow' : Char → Bool} {text more : String} {c : Char}
    {cs : List Char} {us : List Token} {condition condition' : List Token → Prop}
    (h : Spells follow text condition) (hmore : more.toList = c :: cs) (hc : follow c = true)
    (hus : Lexes follow' (c :: cs) us) (himp : ∀ ts, condition ts → condition' (ts ++ us)) :
    Spells follow' (text ++ more) condition' := by
  obtain ⟨d, ds, ts, htext, hd, hts, hcondition⟩ := h
  refine ⟨d, ds ++ c :: cs, ts ++ us, ?_, hd, hts.append hc hus, himp ts hcondition⟩
  rw [String.toList_append, htext, hmore]
  rfl

theorem Spells.respell {follow : Char → Bool} {text text' : String} {condition : List Token → Prop}
    (h : Spells follow text condition) (heq : text'.toList = text.toList) :
    Spells follow text' condition := by
  rwa [String.toList_inj.mp heq]

theorem Spells.imp {follow follow' : Char → Bool} {text : String}
    {condition condition' : List Token → Prop} (h : Spells follow text condition)
    (hfollow : ∀ c, follow' c = true → follow c = true)
    (himp : ∀ ts, condition ts → condition' ts) : Spells follow' text condition' := by
  obtain ⟨c, cs, ts, htext, hc, hts, hcondition⟩ := h
  exact ⟨c, cs, ts, htext, hc, hts.mono hfollow, himp ts hcondition⟩

theorem Parses.mono {level level' : Level} {text : String} {t : Tree} (h : Parses level text t)
    (hle : level'.rank ≤ level.rank) : Parses level' text t :=
  h.imp (fun _ hc => hc) fun _ hts => hts.mono hle

theorem Primes.parses {text : String} {t : Tree} (h : Primes text t) (level : Level) :
    Parses level text t :=
  h.imp (fun _ hc => endsWord_of_endsToken hc) fun _ hts =>
    hts.reads.mono (by cases level <;> decide)

theorem Parses.parse {level : Level} {text : String} {t : Tree} (h : Parses level text t) :
    parse text = some t := by
  obtain ⟨c, cs, ts, htext, -, ⟨here, mode, last, hscans, hfinish, rfl, -⟩, hts⟩ := h
  rw [← htext] at hscans
  exact parse_of_reads (Scanner.tokens?_of_scans hscans hfinish) (hts.mono (Nat.zero_le _))

theorem exists_tokens {α : Type} {condition : α → List Token → Prop} {texts : List String}
    {xs : List α} (h : List.Forall₂ (fun text x => Spells endsToken text (condition x)) texts xs) :
    ∃ tss, Lexes endsToken (", ".intercalate texts).toList (commas tss) ∧
      List.Forall₂ (fun ts x => condition x ts) tss xs := by
  have htokens : ∃ tss, List.Forall₂ (fun text ts => Lexes endsToken text.toList ts) texts tss ∧
      List.Forall₂ (fun ts x => condition x ts) tss xs := by
    induction h with
    | nil => exact ⟨[], .nil, .nil⟩
    | cons hhead _ ih =>
        obtain ⟨c, cs, ts, htext, -, hlex, hts⟩ := hhead
        obtain ⟨tss, hlexes, htss⟩ := ih
        rw [← htext] at hlex
        exact ⟨ts :: tss, .cons hlex hlexes, .cons hts htss⟩
  obtain ⟨tss, hlexes, htss⟩ := htokens
  exact ⟨tss, lexes_commas hlexes, htss⟩

section

variable {level : Level} {text index : String} {t u : Tree} {texts : List String}
  {trees : List Tree}

theorem endsSign_of_isNameChar {c : Char} (h : isNameChar c = true) : endsSign c = true := by
  simp [endsSign, ne_of_isNameChar h (d := '=') rfl, ne_of_isNameChar h (d := '>') rfl]

theorem primes_name {word : String} (h : isName word = true) : Primes word (.name word) := by
  have hlex := lexes_name h
  obtain ⟨c, cs, hcs, -, hchars, -⟩ := exists_cons_of_isName h
  rw [hcs] at hlex
  exact .of_lexes hcs (endsSign_of_isNameChar (hchars c List.mem_cons_self)) hlex (.name word)

theorem primes_quote (s : String) : Primes (Script.quote s) (.text s) := by
  have hlex := lexes_quote s
  rw [Script.quote_toList] at hlex
  exact .of_lexes (Script.quote_toList s) rfl hlex (.text s)

theorem primes_none : Primes "None" (.constant "None") :=
  .of_lexes rfl rfl (lexes_word rfl (List.all_eq_true.mp rfl)) (.constant (by decide))

theorem primes_false : Primes "False" (.constant "False") :=
  .of_lexes rfl rfl (lexes_word rfl (List.all_eq_true.mp rfl)) (.constant (by decide))

theorem parses_numeral {c : Char} {cs : List Char} {value : Token} (htext : text.toList = c :: cs)
    (hc : endsSign c = true) (hscans : scanner.Scans .idle (c :: cs) [] (.number (c :: cs)))
    (hvalue : numberToken? (c :: cs) = some value) (h : ReadsPrimary [value] t) :
    Parses .minus text t :=
  .of_lexes htext hc (lexes_number hscans hvalue) (h.reads.mono (by decide))

theorem Parses.paren (h : Parses level text t) : Primes ("(" ++ text ++ ")") t := by
  obtain ⟨c, cs, ts, htext, -, hlex, hts⟩ := h
  rw [← htext] at hlex
  have hbracket : Lexes endsWord ('(' :: (text.toList ++ [')'])) (.op "(" :: (ts ++ [.op ")"])) :=
    .bracket rfl rfl hlex rfl
  exact .of_lexes (by simp) rfl hbracket (.paren (hts.mono (Nat.zero_le _)))

theorem primes_list (h : List.Forall₂ (Parses .disjunction) texts trees) :
    Primes ("[" ++ ", ".intercalate texts ++ "]") (.list trees) := by
  obtain ⟨tss, hlex, hts⟩ := exists_tokens h
  have hbracket : Lexes endsWord ('[' :: ((", ".intercalate texts).toList ++ [']']))
      (.op "[" :: (commas tss ++ [.op "]"])) :=
    .bracket rfl rfl hlex rfl
  exact .of_lexes (by simp) rfl hbracket (.list hts)

theorem Parses.entry {key value : String} {k v : Tree} (hkey : Parses .disjunction key k)
    (hvalue : Parses .disjunction value v) :
    Spells endsToken (key ++ ": " ++ value) (ReadsEntry · (k, v)) := by
  obtain ⟨c, cs, ts, htext, -, hlex, hts⟩ := hvalue
  have hcolon : Lexes endsToken (':' :: ' ' :: value.toList) (.op ":" :: ts) := by
    have hmark : scanner.Scans .idle [':', ' '] [.op ":"] .idle := rfl
    rw [htext]
    exact .after hmark hlex
  rw [String.append_assoc]
  exact hkey.append (by simp) rfl hcolon fun ks hks => ⟨ks, ts, rfl, hks, hts⟩

theorem primes_dict {entries : List (String × String)} {trees : List (Tree × Tree)}
    (h : List.Forall₂ (fun e x => Parses .disjunction e.1 x.1 ∧ Parses .disjunction e.2 x.2) entries
      trees) :
    Primes (Script.dictionary entries) (.dict trees) := by
  have hspells : List.Forall₂ (fun text x => Spells endsToken text (ReadsEntry · x))
      (entries.map fun e => e.1 ++ ": " ++ e.2) trees :=
    List.forall₂_map_left_iff.mpr (h.imp fun _ _ hentry => hentry.1.entry hentry.2)
  obtain ⟨tss, hlex, hts⟩ := exists_tokens hspells
  have hbracket : Lexes endsWord ('\x7b' :: ((", ".intercalate
      (entries.map fun e => e.1 ++ ": " ++ e.2)).toList ++ ['\x7d']))
      (.op "\x7b" :: (commas tss ++ [.op "\x7d"])) :=
    .bracket rfl rfl hlex rfl
  exact .of_lexes (by simp [Script.dictionary]) rfl hbracket (.dict hts)

theorem Primes.member {word : String} (h : Primes text t) (hword : isName word = true) :
    Primes (text ++ "." ++ word) (.member t word) := by
  rw [String.append_assoc]
  exact h.append (by simp) rfl (lexes_member hword) fun ts hts => hts.member word

theorem Primes.call (h : Primes text t)
    (harguments : List.Forall₂ (Parses .disjunction) texts trees) :
    Primes (text ++ "(" ++ ", ".intercalate texts ++ ")") (.call t trees) := by
  obtain ⟨tss, hlex, htss⟩ := exists_tokens harguments
  have hbracket : Lexes endsWord ('(' :: ((", ".intercalate texts).toList ++ [')']))
      (.op "(" :: (commas tss ++ [.op ")"])) :=
    .bracket rfl rfl hlex rfl
  rw [String.append_assoc, String.append_assoc]
  exact h.append (by simp) rfl hbracket fun ts hts => hts.call htss

theorem Primes.call_one {argument : String} (h : Primes text t)
    (hu : Parses .disjunction argument u) :
    Primes (text ++ "(" ++ argument ++ ")") (.call t [u]) :=
  (h.call (.cons hu .nil)).respell (by simp)

theorem Primes.method {word : String} (h : Primes text t) (hword : isName word = true) :
    Primes (text ++ "." ++ word ++ "()") (t.method word) :=
  ((h.member hword).call .nil).respell (by simp)

theorem Primes.subscript (h : Primes text t) (hindex : Parses level index u) :
    Primes (text ++ "[" ++ index ++ "]") (.subscript t u) := by
  obtain ⟨c, cs, us, htext, -, hlex, hus⟩ := hindex
  rw [← htext] at hlex
  have hbracket : Lexes endsWord ('[' :: (index.toList ++ [']'])) (.op "[" :: (us ++ [.op "]"])) :=
    .bracket rfl rfl hlex rfl
  rw [String.append_assoc, String.append_assoc]
  exact h.append (by simp) rfl hbracket fun ts hts => hts.subscript (hus.mono (Nat.zero_le _))

end

section

variable {level : Level} {text rest : String} {t : Tree} {more : List (String × Tree)}

theorem Parses.minus (h : Parses .minus text t) : Parses .minus ("-" ++ text) (.neg t) := by
  obtain ⟨c, cs, ts, htext, hc, hlex, hts⟩ := h
  have hminus : Lexes endsToken ('-' :: c :: cs) (.op "-" :: ts) :=
    (lexes_sign (.inr rfl)).append hc hlex
  exact .of_lexes (by simp [htext]) rfl hminus hts.minus

theorem Parses.not (h : Parses .inversion text t) :
    Parses .inversion ("not " ++ text) (.not t) := by
  obtain ⟨c, cs, ts, htext, hc, hlex, hts⟩ := h
  have hword : scanner.Scans .idle ['n', 'o', 't', ' '] [.keyword "not"] .idle := rfl
  have hnot : Lexes endsToken ('n' :: 'o' :: 't' :: ' ' :: c :: cs) (.keyword "not" :: ts) :=
    .after hword hlex
  exact .of_lexes (by simp [htext]) rfl hnot hts.not

/-- The text of an operator with blanks around it. -/
def IsMark (level : Level) (mark sign : String) : Prop :=
  ∃ cs os, mark.toList = ' ' :: cs ∧ scanner.Scans .idle (' ' :: cs) os .idle ∧
    IsOperator level os sign

/-- A text of operators with their right operands. -/
def Follows (level : Level) (text : String) (more : List (String × Tree)) : Prop :=
  ∃ cs ts, text.toList = ' ' :: cs ∧ Lexes endsToken (' ' :: cs) ts ∧ Links level ts more

theorem Follows.last {mark sign : String} (hmark : IsMark level mark sign)
    (h : Parses level.tighter text t) : Follows level (mark ++ text) [(sign, t)] := by
  obtain ⟨ms, os, hms, hos, hop⟩ := hmark
  obtain ⟨c, cs, ts, htext, -, hlex, hts⟩ := h
  refine ⟨ms ++ c :: cs, os ++ (ts ++ []), by simp [hms, htext], ?_, .cons hop hts .nil⟩
  rw [List.append_nil]
  exact .after hos hlex

theorem Follows.cons {mark sign : String} (hmark : IsMark level mark sign)
    (h : Parses level.tighter text t) (hrest : Follows level rest more) :
    Follows level (mark ++ text ++ rest) ((sign, t) :: more) := by
  obtain ⟨ms, os, hms, hos, hop⟩ := hmark
  obtain ⟨c, cs, ts, htext, -, hlex, hts⟩ := h
  obtain ⟨ds, us, hds, hus, hlinks⟩ := hrest
  refine ⟨ms ++ (c :: cs ++ ' ' :: ds), os ++ (ts ++ us), ?_, ?_, .cons hop hts hlinks⟩
  · simp [hms, htext, hds]
  · exact .after hos (hlex.append rfl hus)

theorem Parses.follows (hmarked : level.isInfix = true) (h : Parses level.tighter text t)
    (hrest : Follows level rest more) : Parses level (text ++ rest) (level.join t more) := by
  obtain ⟨ds, us, hds, hus, hlinks⟩ := hrest
  exact h.append hds rfl hus fun ts hts => hts.links hmarked hlinks

theorem Parses.operation {mark sign left right : String} {t u : Tree}
    (hmarked : level.isInfix = true) (hmark : IsMark level mark sign)
    (ht : Parses level.tighter left t) (hu : Parses level.tighter right u) :
    Parses level (left ++ mark ++ right) (level.join t [(sign, u)]) := by
  rw [String.append_assoc]
  exact ht.follows hmarked (.last hmark hu)

theorem isOperator_sign {sign : String} (h : sign ∈ level.signs) :
    IsOperator level [.op sign] sign :=
  ⟨List.cons_ne_nil _ _, fun _ _ => if_pos h⟩

theorem isMark_sign {sign : String} (h : sign ∈ level.signs) :
    IsMark level (" " ++ sign ++ " ") sign := by
  refine ⟨sign.toList ++ [' '], [.op sign], by simp, ?_, isOperator_sign h⟩
  unfold Scanner.Scans
  revert sign
  cases level <;> decide

theorem isMark_and : IsMark .conjunction " and " "and" :=
  ⟨_, [.keyword "and"], rfl, rfl, List.cons_ne_nil _ _, fun _ _ => rfl⟩

theorem isMark_or : IsMark .disjunction " or " "or" :=
  ⟨_, [.keyword "or"], rfl, rfl, List.cons_ne_nil _ _, fun _ _ => rfl⟩

theorem isMark_in : IsMark .comparison " in " "in" :=
  ⟨_, [.keyword "in"], rfl, rfl, List.cons_ne_nil _ _, fun _ _ => rfl⟩

theorem isMark_is : IsMark .comparison " is " "is" := by
  refine ⟨_, [.keyword "is"], rfl, rfl, List.cons_ne_nil _ _, fun ts hts => ?_⟩
  cases ts with
  | nil => rfl
  | cons t ts =>
      simp only [List.head?_cons, ne_eq, Option.some.injEq, forall_const] at hts
      simp [operator?, hts]

theorem Primes.sum_one {c : Char} (h : Primes text t) (hc : c = '+' ∨ c = '-') :
    Parses .sum (text ++ String.ofList [c, '1'])
      (.binary (String.singleton c) t (.integer 1)) := by
  have hone : Lexes endsToken ['1'] [.integer 1] := lexes_number rfl rfl
  have hlex : Lexes endsToken [c, '1'] [.op (String.singleton c), .integer 1] :=
    (lexes_sign hc).append rfl hone
  have hop : IsOperator .sum [.op (String.singleton c)] (String.singleton c) :=
    isOperator_sign (by rcases hc with rfl | rfl <;> decide)
  have hlinks : Links .sum [.op (String.singleton c), .integer 1]
      [(String.singleton c, .integer 1)] :=
    .cons hop ((ReadsPrimary.integer 1).reads.mono (by decide)) .nil
  have hfollow : endsWord c = true := by
    rcases hc with rfl | rfl <;> rfl
  refine h.append String.toList_ofList hfollow hlex fun ts hts => ?_
  have hread : Reads Level.sum.tighter ts t := hts.reads.mono (by decide)
  exact hread.links rfl hlinks

end

end WordBlocks.Python
