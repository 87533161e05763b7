import WordBlocks.Proofs.Scanner
import WordBlocks.Proofs.TokenText

/-!
The tokens of Python. `Python.scanner` cuts a text into names, keywords, literals and operators,
each as long as it can be, and `Lexes` says which tokens a text gives as part of a larger one: it
names the characters that may come right after the text.
-/

namespace WordBlocks.Python

open Script (isNameChar keywords)

/-- A token of Python. Literals bear their values. -/
inductive Token where
  | name (word : String)
  | keyword (word : String)
  | integer (value : Nat)
  | float (value : Binary64)
  | text (value : String)
  | op (sign : String)
  | newline
deriving DecidableEq, Repr

/-- What the scanner is in the middle of. -/
inductive Mode where
  | idle
  | word (cs : List Char)
  | number (cs : List Char)
  | text (quote : Char) (cs : List Char)
  | escape (quote : Char) (cs : List Char)
  /-- After two quotes, which a third one would make the start of a longer literal. -/
  | emptyText (quote : Char)
  | op (cs : List Char)
  | comment
deriving DecidableEq, Repr

/-- Signs that no longer operator starts with. -/
def delimiters : List Char :=
  ['(', ')', '[', ']', '\x7b', '\x7d', ',', ';', '~']

/-- The other signs. What is left of one without its last character is a sign as well, `!=` apart.
-/
def operators : List (List Char) :=
  [['+'], ['-'], ['*'], ['/'], ['%'], ['@'], ['&'], ['|'], ['^'], ['<'], ['>'], ['='], [':'],
    ['.'], ['*', '*'], ['/', '/'], ['<', '<'], ['>', '>'], ['<', '='], ['>', '='], ['=', '='],
    ['!', '='], ['-', '>'], [':', '='], ['+', '='], ['-', '='], ['*', '='], ['/', '='],
    ['%', '='], ['@', '='], ['&', '='], ['|', '='], ['^', '='], ['*', '*', '='], ['/', '/', '='],
    ['<', '<', '='], ['>', '>', '=']]

def isQuote (c : Char) : Bool :=
  c == '\'' || c == '"'

/-- What a backslash and the character after it stand for in a literal. Escapes by number or name
are not read. -/
def unescape? (c : Char) : Option (List Char) :=
  if c = '\\' ∨ c = '\'' ∨ c = '"' then some [c]
  else if c = 'n' then some ['\n']
  else if c = 'r' then some ['\r']
  else if c = 't' then some ['\t']
  else if c.isDigit ∨ c ∈ ['\n', '\r', 'a', 'b', 'f', 'v', 'x', 'u', 'U', 'N'] then none
  else some ['\\', c]

def wordToken (cs : List Char) : Token :=
  if keywords.contains (String.ofList cs) then .keyword (String.ofList cs)
  else .name (String.ofList cs)

/-- The token of a number. An integer other than zero does not start with a zero. -/
def numberToken? (cs : List Char) : Option Token :=
  if cs.all Char.isDigit then
    if cs.head? = some '0' ∧ digitsValue cs ≠ 0 then none else some (.integer (digitsValue cs))
  else (Binary64.ofNumeral? false cs).map .float

/-- Whether a number goes on with a character: a digit, a letter, a point, or a sign that follows
the mark of an exponent. -/
def continuesNumber (cs : List Char) (c : Char) : Bool :=
  isNameChar c || c == '.' ||
    ((c == '+' || c == '-') && (cs.getLast? == some 'e' || cs.getLast? == some 'E'))

def start (c : Char) : Option (List Token × Mode) :=
  if c = ' ' ∨ c = '\t' then some ([], .idle)
  else if c = '\n' ∨ c = '\r' then some ([.newline], .idle)
  else if c = '#' then some ([], .comment)
  else if c.isDigit then some ([], .number [c])
  else if isNameChar c then some ([], .word [c])
  else if isQuote c then some ([], .text c [])
  else if delimiters.contains c then some ([.op (String.singleton c)], .idle)
  else if operators.any (·.head? == some c) then some ([], .op [c])
  else none

/-- The token that is complete if nothing follows. -/
def finish : Mode → Option (List Token)
  | .idle | .comment => some []
  | .word cs => some [wordToken cs]
  | .number cs => (numberToken? cs).map fun t => [t]
  | .emptyText _ => some [.text ""]
  | .op cs => if operators.contains cs then some [.op (String.ofList cs)] else none
  | .text _ _ | .escape _ _ => none

/-- Completes what the scanner is in the middle of and goes on with a character. -/
def restart (mode : Mode) (c : Char) : Option (List Token × Mode) := do
  let last ← finish mode
  let (here, next) ← start c
  return (last ++ here, next)

/-- Reads a character. A word right before a quote would be part of a literal, which is not read. -/
def step : Mode → Char → Option (List Token × Mode)
  | .idle, c => start c
  | .word cs, c =>
    if isNameChar c then some ([], .word (cs ++ [c]))
    else if isQuote c then none
    else restart (.word cs) c
  | .number cs, c =>
    if continuesNumber cs c then some ([], .number (cs ++ [c])) else restart (.number cs) c
  | .text quote cs, c =>
    if c = quote then
      if cs = [] then some ([], .emptyText quote) else some ([.text (String.ofList cs)], .idle)
    else if c = '\\' then some ([], .escape quote cs)
    else if c = '\n' ∨ c = '\r' then none
    else some ([], .text quote (cs ++ [c]))
  | .escape quote cs, c => (unescape? c).map fun ds => ([], .text quote (cs ++ ds))
  | .emptyText quote, c => if c = quote then none else restart (.emptyText quote) c
  | .op cs, c =>
    if operators.contains (cs ++ [c]) then some ([], .op (cs ++ [c]))
    else if cs = ['.'] ∧ c.isDigit then some ([], .number ['.', c])
    else restart (.op cs) c
  | .comment, c => if c = '\n' ∨ c = '\r' then some ([.newline], .idle) else some ([], .comment)

def scanner : Scanner Mode Token where
  start := .idle
  step := step
  finish := finish

/-- The tokens that a text gives in front of any character that satisfies `follow`. -/
def Lexes (follow : Char → Bool) (cs : List Char) (ts : List Token) : Prop :=
  ∃ here mode last, scanner.Scans .idle cs here mode ∧ finish mode = some last ∧ here ++ last = ts ∧
    ∀ c, follow c = true → step mode c = restart mode c

def endsWord (c : Char) : Bool :=
  !isNameChar c && !isQuote c

/-- The characters that end any token but a literal in quotes. -/
def endsToken (c : Char) : Bool :=
  [')', ']', '\x7d', ',', ' ', ':'].contains c

theorem endsWord_of_endsToken {c : Char} (h : endsToken c = true) : endsWord c = true := by
  simp only [endsToken, List.contains_iff_mem, List.mem_cons, List.not_mem_nil, or_false] at h
  rcases h with rfl | rfl | rfl | rfl | rfl | rfl <;> rfl

namespace Lexes

variable {follow follow' : Char → Bool} {cs ds : List Char} {ts us : List Token}

theorem of_scans (h : scanner.Scans .idle cs ts .idle) : Lexes follow cs ts := by
  refine ⟨ts, .idle, [], h, rfl, List.append_nil ts, fun c _ => ?_⟩
  change start c = (start c).bind _
  cases start c <;> rfl

theorem mono (h : Lexes follow cs ts) (hfollow : ∀ c, follow' c = true → follow c = true) :
    Lexes follow' cs ts := by
  obtain ⟨here, mode, last, hscans, hfinish, htokens, hready⟩ := h
  exact ⟨here, mode, last, hscans, hfinish, htokens, fun c hc => hready c (hfollow c hc)⟩

theorem append {c : Char} (hcs : Lexes follow cs ts) (hc : follow c = true)
    (hds : Lexes follow' (c :: ds) us) : Lexes follow' (cs ++ c :: ds) (ts ++ us) := by
  obtain ⟨here, mode, last, hscans, hfinish, rfl, hready⟩ := hcs
  obtain ⟨here', mode', last', hscans', hfinish', rfl, hready'⟩ := hds
  obtain ⟨first, next, rest, hstep, hrest, rfl⟩ := hscans'.uncons
  -- The character completes the last token of the first text and starts the second one.
  have hstart : start c = some (first, next) := hstep
  have hc : scanner.step mode c = some (last ++ first, next) := by
    change step mode c = _
    rw [hready c hc, restart, hfinish, hstart]
    rfl
  refine ⟨_, mode', last', hscans.append (.cons hc hrest), hfinish', ?_, hready'⟩
  simp only [List.append_assoc]

theorem after (hcs : scanner.Scans .idle cs ts .idle) (hds : Lexes follow ds us) :
    Lexes follow (cs ++ ds) (ts ++ us) := by
  obtain ⟨here, mode, last, hscans, hfinish, rfl, hready⟩ := hds
  exact ⟨ts ++ here, mode, last, hcs.append hscans, hfinish, List.append_assoc _ _ _, hready⟩

theorem tokens? {text : String} (h : Lexes follow cs ts) (htext : text.toList = cs) :
    scanner.tokens? text = some ts := by
  obtain ⟨here, mode, last, hscans, hfinish, rfl, -⟩ := h
  rw [← htext] at hscans
  exact Scanner.tokens?_of_scans hscans hfinish

end Lexes

theorem ne_of_isNameChar {c d : Char} (hc : isNameChar c = true) (hd : isNameChar d = false) :
    c ≠ d := by
  rintro rfl
  rw [hc] at hd
  cases hd

theorem start_of_isNameChar {c : Char} (hc : isNameChar c = true) : start c =
    some ([], if c.isDigit then .number [c] else .word [c]) := by
  have hne := fun d => ne_of_isNameChar (d := d) hc
  unfold start
  rw [if_neg (not_or.mpr ⟨hne ' ' rfl, hne '\t' rfl⟩),
    if_neg (not_or.mpr ⟨hne '\n' rfl, hne '\r' rfl⟩), if_neg (hne '#' rfl), if_pos hc]
  split <;> rfl

theorem lexes_word {c : Char} {cs : List Char} (hc : c.isDigit = false)
    (h : ∀ x ∈ c :: cs, isNameChar x = true) : Lexes endsWord (c :: cs) [wordToken (c :: cs)] := by
  rw [List.forall_mem_cons] at h
  have hstart : scanner.step .idle c = some ([], .word [c]) := by
    change start c = _
    rw [start_of_isNameChar h.1, hc]
    rfl
  have hrest : scanner.Scans (.word [c]) cs [] (.word (c :: cs)) :=
    .chars (fun _ x hx => if_pos (h.2 x hx)) [c]
  refine ⟨[], .word (c :: cs), _, .cons hstart hrest, rfl, rfl, fun d hd => ?_⟩
  simp only [endsWord, Bool.and_eq_true, Bool.not_eq_true'] at hd
  rw [step, if_neg (by simp [hd.1]), if_neg (by simp [hd.2])]

theorem not_continuesNumber_of_endsToken {c : Char} (h : endsToken c = true) (cs : List Char) :
    continuesNumber cs c = false := by
  simp only [endsToken, List.contains_iff_mem, List.mem_cons, List.not_mem_nil, or_false] at h
  rcases h with rfl | rfl | rfl | rfl | rfl | rfl <;> rfl

theorem lexes_number {cs : List Char} {t : Token} (hcs : scanner.Scans .idle cs [] (.number cs))
    (ht : numberToken? cs = some t) : Lexes endsToken cs [t] := by
  refine ⟨[], .number cs, [t], hcs, ?_, rfl, fun c hc => ?_⟩
  · rw [finish, ht]
    rfl
  · rw [step, not_continuesNumber_of_endsToken hc]
    rfl

theorem continuesNumber_of_isPointChar {c : Char} (h : Script.isPointChar c = true)
    (cs : List Char) : continuesNumber cs c = true := by
  simp only [Script.isPointChar, Bool.or_eq_true, beq_iff_eq] at h
  rcases h with h | rfl
  · simp [continuesNumber, isNameChar, Char.isAlphanum, h]
  · rfl

theorem scans_magnitude (x : Binary64) :
    scanner.Scans .idle (Script.numberLayout.magnitude x) []
      (.number (Script.numberLayout.magnitude x)) := by
  obtain ⟨c, cs, hhead, hc⟩ := Script.magnitude_head x
  obtain ⟨lead, tail, heq, hlead, htail⟩ := Script.magnitude_shape x
  have hstart : scanner.step .idle c = some ([], .number [c]) := by
    change start c = _
    rw [start_of_isNameChar (by simp [isNameChar, Char.isAlphanum, hc]), hc]
    rfl
  have hpoints {run : List Char} (h : ∀ d ∈ run, Script.isPointChar d = true) (seen : List Char) :
      scanner.Scans (.number seen) run [] (.number (seen ++ run)) :=
    .chars (fun seen d hd => if_pos (continuesNumber_of_isPointChar (h d hd) seen)) seen
  rcases htail with ⟨rfl, _⟩ | ⟨sign, ds, rfl, hsign, hds⟩
  · rw [List.append_nil] at heq
    rw [hhead] at heq ⊢
    obtain rfl := heq
    exact .cons hstart (hpoints (fun d hd => hlead d (List.mem_cons_of_mem _ hd)) [c])
  · cases lead with
    | nil =>
        -- The digits before the exponent are not missing: the first character is one of them.
        obtain rfl : c = 'e' := (List.cons.inj (hhead.symm.trans heq)).1
        cases hc
    | cons c' lead =>
        obtain rfl : c = c' := (List.cons.inj (hhead.symm.trans heq)).1
        have hmark : scanner.step (.number (c :: lead)) 'e' =
            some ([], .number (c :: lead ++ ['e'])) := rfl
        have hsigned : scanner.step (.number (c :: lead ++ ['e'])) sign =
            some ([], .number (c :: lead ++ ['e'] ++ [sign])) := by
          apply if_pos
          rw [continuesNumber, List.getLast?_concat]
          rcases hsign with rfl | rfl <;> rfl
        have hexponent := hpoints (fun d hd => Script.isPointChar_of_isDigit (hds d hd))
          (c :: lead ++ ['e'] ++ [sign])
        have hlead := hpoints (fun d hd => hlead d (List.mem_cons_of_mem _ hd)) [c]
        rw [heq]
        simpa using Scanner.Scans.cons hstart (hlead.append (.cons hmark (.cons hsigned hexponent)))

theorem numberToken?_magnitude {x : Binary64} (hfin : x.isFinite = true) :
    numberToken? (Script.numberLayout.magnitude x) =
      some (.float { x with negative := false }) := by
  have hread := Script.ofNumeral?_magnitude (x := { x with negative := false }) hfin
  rw [Script.magnitude_abs] at hread
  have hpoint : (Script.numberLayout.magnitude x).all Char.isDigit = false := by
    obtain ⟨lead, tail, heq, -, htail⟩ := Script.magnitude_shape x
    rw [heq, List.all_eq_false]
    rcases htail with ⟨rfl, hpoint⟩ | ⟨sign, ds, rfl, -, -⟩
    · exact ⟨'.', by simpa using hpoint, by decide⟩
    · exact ⟨'e', by simp, by decide⟩
  rw [numberToken?, hpoint, hread]
  rfl

theorem lexes_magnitude {x : Binary64} (hfin : x.isFinite = true) :
    Lexes endsToken (Script.numberLayout.magnitude x) [.float { x with negative := false }] :=
  lexes_number (scans_magnitude x) (numberToken?_magnitude hfin)

theorem scans_escape (seen cs : List Char) :
    scanner.Scans (.text '\'' seen) (cs.flatMap Script.escapeChar) []
      (.text '\'' (seen ++ cs)) := by
  refine Scanner.Scans.flatMap (fun seen c _ => ?_) seen
  have hslash : scanner.step (.text '\'' seen) '\\' = some ([], .escape '\'' seen) := rfl
  have hescape (d : Char) (h : unescape? d = some [c]) :
      scanner.Scans (.text '\'' seen) ['\\', d] [] (.text '\'' (seen ++ [c])) := by
    refine .cons hslash (.single ?_)
    change (unescape? d).map _ = _
    rw [h]
    rfl
  unfold Script.escapeChar
  split
  case isTrue h => exact hescape '\\' (by rw [h]; rfl)
  split
  case isTrue h => exact hescape '\'' (by rw [h]; rfl)
  split
  case isTrue h => exact hescape 'n' (by rw [h]; rfl)
  split
  case isTrue h => exact hescape 'r' (by rw [h]; rfl)
  split
  case isTrue h => exact hescape 't' (by rw [h]; rfl)
  case isFalse hbackslash hquote hfeed hreturn htab =>
    apply Scanner.Scans.single
    change step (.text '\'' seen) c = _
    rw [step, if_neg hquote, if_neg hbackslash, if_neg (not_or.mpr ⟨hfeed, hreturn⟩)]

theorem lexes_quote (s : String) : Lexes endsWord (Script.quote s).toList [.text s] := by
  have hopen : scanner.step .idle '\'' = some ([], .text '\'' []) := rfl
  have hbody := Scanner.Scans.cons hopen (scans_escape [] s.toList)
  rw [Script.quote_toList, ← List.cons_append]
  by_cases hempty : s.toList = []
  · -- The literal is complete only with the next character, which is not a third quote.
    obtain rfl : s = "" := String.toList_eq_nil_iff.mp hempty
    refine ⟨[], .emptyText '\'', _, rfl, rfl, rfl, fun c hc => if_neg ?_⟩
    rintro rfl
    cases hc
  · have hclose : scanner.step (.text '\'' s.toList) '\'' = some ([.text s], .idle) := by
      change step (.text '\'' s.toList) '\'' = _
      rw [step, if_pos rfl, if_neg hempty, String.ofList_toList]
    exact .of_scans (hbody.append (.single hclose))

end WordBlocks.Python
