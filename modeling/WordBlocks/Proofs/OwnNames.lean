import WordBlocks.Proofs.CallArguments
import WordBlocks.Proofs.ExprSyntax

/-!
The names that a script makes for itself, as identifiers in its text. Each of them stands for a
demand of the statements or expressions whose text it occurs in: a `Piece` of a script is a text
together with the names of its own that may occur in it, and what may come before and after it.
Pieces are put together by `Piece.append`. The text of an expression also closes the brackets that
it opens: it is `Nested` with none of them open, and so it is one argument of every call
(`Expr.nested_script`).
-/

namespace WordBlocks

open Choice (tag)
open Script
open Python (Token Lexes scanner endsSign endsToken endsWord)

namespace Script

/-- The names that a script declares, defines or imports for itself. -/
def ownedNames : List String :=
  ["hub", "app", "timer", "motor_pair", brightnessVariable, patternFunction, "randint"] ++
    deviceNames

def ownIn (ts : List Token) : List String :=
  ts.filterMap fun
    | .name word => if ownedNames.contains word then some word else none
    | _ => none

theorem ownIn_append (ts us : List Token) : ownIn (ts ++ us) = ownIn ts ++ ownIn us :=
  List.filterMap_append

theorem mem_ownIn {word : String} {ts : List Token} :
    word ∈ ownIn ts ↔ .name word ∈ ts ∧ word ∈ ownedNames := by
  rw [ownIn, List.mem_filterMap]
  constructor
  · rintro ⟨t, ht, heq⟩
    split at heq
    · obtain ⟨hown, hword⟩ := Option.ite_none_right_eq_some.mp heq
      obtain rfl := Option.some.inj hword
      exact ⟨ht, List.contains_iff_mem.mp hown⟩
    · cases heq
  · rintro ⟨ht, hown⟩
    exact ⟨_, ht, if_pos (List.contains_iff_mem.mpr hown)⟩

def Demand.name (q : Demand) : String :=
  match q.symbol with
  | .object name | .list name => name
  | .patternFunction => Script.patternFunction
  | .randomImport => "randint"

/-- A part of a script: a text that starts with a certain character, gives the same tokens in front
of certain characters, and has no other names of the script's own than the given ones. -/
def Piece (head follow : Char → Bool) (names : List String) (text : String) : Prop :=
  ∃ c cs ts, text.toList = c :: cs ∧ head c = true ∧ Lexes follow (c :: cs) ts ∧ ownIn ts ⊆ names

def anything (_ : Char) : Bool := true

def nothing (_ : Char) : Bool := false

namespace Piece

variable {head head' follow follow' : Char → Bool} {names : List String} {text text' : String}

theorem append (h : Piece head follow names text) (h' : Piece follow follow' names text') :
    Piece head follow' names (text ++ text') := by
  obtain ⟨c, cs, ts, htext, hc, hlex, hnames⟩ := h
  obtain ⟨d, ds, us, htext', hd, hlex', hnames'⟩ := h'
  refine ⟨c, cs ++ d :: ds, ts ++ us, ?_, hc, hlex.append hd hlex', ?_⟩
  · rw [String.toList_append, htext, htext']
    rfl
  · rw [ownIn_append]
    exact List.append_subset.mpr ⟨hnames, hnames'⟩

theorem imp (h : Piece head follow names text) (hhead : ∀ c, head c = true → head' c = true)
    (hfollow : ∀ c, follow' c = true → follow c = true) : Piece head' follow' names text := by
  obtain ⟨c, cs, ts, htext, hc, hlex, hnames⟩ := h
  exact ⟨c, cs, ts, htext, hhead c hc, hlex.mono hfollow, hnames⟩

theorem respell (h : Piece head follow names text) (heq : text'.toList = text.toList) :
    Piece head follow names text' := by
  rwa [String.toList_inj.mp heq]

end Piece

/-- Whether characters make a piece that leaves no token open. -/
def settles (head : Char → Bool) (names : List String) (cs : List Char) : Bool :=
  cs.head?.any head &&
    match scanner.run .idle cs with
    | some (ts, .idle) => (ownIn ts).all names.contains
    | _ => false

/-- Whether characters make a piece at the end of a line. -/
def ends (head : Char → Bool) (names : List String) (cs : List Char) : Bool :=
  cs.head?.any head &&
    match scanner.run .idle cs with
    | some (ts, mode) =>
        (Python.finish mode).any fun last => (ownIn (ts ++ last)).all names.contains
    | none => false

-- Stated on the characters of a literal, which unification finds: to decode them again from the
-- text is what would cost time.
theorem Piece.of_settles {head : Char → Bool} {names names' : List String} {cs : List Char}
    (h : settles head names cs = true) (hnames : names ⊆ names') (follow : Char → Bool) :
    Piece head follow names' (String.ofList cs) := by
  simp only [settles, Bool.and_eq_true] at h
  obtain ⟨hhead, hscans⟩ := h
  obtain ⟨c, cs, rfl, hc⟩ := Python.exists_cons_of_head? hhead
  split at hscans
  · next ts hrun =>
      refine ⟨c, cs, ts, String.toList_ofList, hc, .of_scans hrun, fun word hword => hnames ?_⟩
      simpa using List.all_eq_true.mp hscans word hword
  · cases hscans

theorem Piece.of_ends {head : Char → Bool} {names names' : List String} {cs : List Char}
    (h : ends head names cs = true) (hnames : names ⊆ names') :
    Piece head nothing names' (String.ofList cs) := by
  simp only [ends, Bool.and_eq_true] at h
  obtain ⟨hhead, hends⟩ := h
  obtain ⟨c, cs, rfl, hc⟩ := Python.exists_cons_of_head? hhead
  split at hends
  · next ts mode hrun =>
      obtain ⟨last, hfinish, hall⟩ := (Option.any_eq_true _ _).mp hends
      have hlex : Lexes nothing (c :: cs) (ts ++ last) :=
        ⟨ts, mode, last, hrun, hfinish, rfl, fun _ hd => by cases hd⟩
      refine ⟨c, cs, _, String.toList_ofList, hc, hlex, fun word hword => hnames ?_⟩
      simpa using List.all_eq_true.mp hall word hword
  · cases hends

theorem Piece.tokens {head follow : Char → Bool} {names : List String} {text : String}
    (h : Piece head follow names text) :
    ∃ ts, scanner.tokens? text = some ts ∧ ownIn ts ⊆ names := by
  obtain ⟨c, cs, ts, htext, -, hlex, hnames⟩ := h
  exact ⟨ts, hlex.tokens? htext, hnames⟩

namespace Piece

variable {head follow : Char → Bool} {names : List String} {text a : String} {cs : List Char}

theorem plain (h : settles head [] cs = true) : Piece head follow names (String.ofList cs) :=
  .of_settles h (List.nil_subset _) follow

theorem joined (h : settles head [] text.toList = true) : Piece head follow names text := by
  have hplain : Piece head follow names (String.ofList text.toList) := plain h
  rwa [String.ofList_toList] at hplain

theorem enclose (h : Piece head endsSign names text) (ha : Piece endsSign endsToken names a)
    (hcs : settles endsToken [] cs = true) :
    Piece head follow names (text ++ a ++ String.ofList cs) :=
  (h.append ha).append (.plain hcs)

theorem owned {own : String} (h : own ∈ names) (hcs : settles head [own] cs = true) :
    Piece head follow names (String.ofList cs) :=
  .of_settles hcs (List.cons_subset.mpr ⟨h, List.nil_subset _⟩) follow

theorem ownedJoined {own : String} (h : own ∈ names)
    (htext : settles head [own] text.toList = true) : Piece head follow names text := by
  have howned : Piece head follow names (String.ofList text.toList) := owned h htext
  rwa [String.ofList_toList] at howned

theorem last {own : List String} (h : ends head own text.toList = true) (hown : own ⊆ names) :
    Piece head nothing names text := by
  have hends : Piece head nothing names (String.ofList text.toList) := .of_ends h hown
  rwa [String.ofList_toList] at hends

theorem operand (h : Piece endsSign endsWord names text) : Piece endsSign endsToken names text :=
  h.imp (fun _ hc => hc) fun _ hc => Python.endsWord_of_endsToken hc

end Piece

theorem isReserved_of_mem_ownedNames : ∀ word ∈ ownedNames, isReserved word = true := by
  decide

theorem identifier_notMem_ownedNames (name : String) : identifier name ∉ ownedNames := by
  intro h
  have hreserved := isReserved_of_mem_ownedNames _ h
  rw [isReserved_identifier] at hreserved
  cases hreserved

/-- Tokens with no other names of the script's own than the given ones, which take the number of
open brackets from one value to another. -/
structure Balances (names : List String) (n m : Nat) (ts : List Token) : Prop where
  own : ownIn ts ⊆ names
  depth : Python.depthAfter n ts = some m

namespace Balances

variable {names : List String} {n m l : Nat} {ts us : List Token}

theorem append (h : Balances names n m ts) (h' : Balances names m l us) :
    Balances names n l (ts ++ us) := by
  constructor
  · rw [ownIn_append]
    exact List.append_subset.mpr ⟨h.own, h'.own⟩
  · rw [Python.depthAfter_append, h.depth]
    exact h'.depth

theorem inside (h : Balances names 0 0 ts) (k : Nat) : Balances names k k ts := by
  have hdepth := Python.depthAfter_add h.depth k
  rw [Nat.zero_add] at hdepth
  exact ⟨h.own, hdepth⟩

end Balances

/-- A text with brackets, so many of which are open at its end, and with no other names of the
script's own than the given ones. -/
def Nested (follow : Char → Bool) (names : List String) (n : Nat) (text : String) : Prop :=
  Python.Spells follow text (Balances names 0 n)

/-- Whether characters take the number of open brackets from one value to another and leave no token
open. -/
def nests (head : Char → Bool) (names : List String) (n m : Nat) (cs : List Char) : Bool :=
  cs.head?.any head &&
    match scanner.run .idle cs with
    | some (ts, .idle) => (ownIn ts).all names.contains && Python.depthAfter n ts == some m
    | _ => false

theorem exists_scans_of_nests {head : Char → Bool} {own names : List String} {n m : Nat}
    {cs : List Char} (h : nests head own n m cs = true) (hown : own ⊆ names) :
    ∃ c ds ts, cs = c :: ds ∧ head c = true ∧ scanner.Scans .idle (c :: ds) ts .idle ∧
      Balances names n m ts := by
  simp only [nests, Bool.and_eq_true] at h
  obtain ⟨hhead, hscans⟩ := h
  obtain ⟨c, ds, rfl, hc⟩ := Python.exists_cons_of_head? hhead
  split at hscans
  · next ts hrun =>
      rw [Bool.and_eq_true] at hscans
      refine ⟨c, ds, ts, rfl, hc, hrun, fun word hword => hown ?_, eq_of_beq hscans.2⟩
      simpa using List.all_eq_true.mp hscans.1 word hword
  · cases hscans

namespace Nested

variable {follow follow' : Char → Bool} {own names : List String} {n m : Nat} {text a : String}
  {cs : List Char}

theorem of_nests (h : nests endsSign own 0 n cs = true) (hown : own ⊆ names) :
    Nested follow names n (String.ofList cs) := by
  obtain ⟨c, ds, ts, rfl, hc, hscans, hts⟩ := exists_scans_of_nests h hown
  exact .of_lexes String.toList_ofList hc (.of_scans hscans) hts

theorem plain (h : nests endsSign [] 0 n cs = true) : Nested follow names n (String.ofList cs) :=
  of_nests h (List.nil_subset _)

theorem owned {word : String} (h : word ∈ names) (hcs : nests endsSign [word] 0 n cs = true) :
    Nested follow names n (String.ofList cs) :=
  of_nests hcs (List.cons_subset.mpr ⟨h, List.nil_subset _⟩)

theorem joined (h : nests endsSign [] 0 n text.toList = true) : Nested follow names n text := by
  have hplain : Nested follow names n (String.ofList text.toList) := plain h
  rwa [String.ofList_toList] at hplain

theorem literal (h : Nested follow names n text) (hcs : nests follow [] n m cs = true) :
    Nested follow' names m (text ++ String.ofList cs) := by
  obtain ⟨c, ds, us, rfl, hc, hscans, hus⟩ := exists_scans_of_nests hcs (List.nil_subset names)
  exact h.append String.toList_ofList hc (.of_scans hscans) fun ts hts => hts.append hus

theorem literalJoined {more : String} (h : Nested follow names n text)
    (hmore : nests follow [] n m more.toList = true) : Nested follow' names m (text ++ more) := by
  have hliteral : Nested follow' names m (text ++ String.ofList more.toList) := h.literal hmore
  rwa [String.ofList_toList] at hliteral

theorem operand (h : Nested anything names n text) (ha : Nested follow names 0 a) :
    Nested follow names n (text ++ a) := by
  obtain ⟨c, cs, us, hcs, -, hlex, hus⟩ := ha
  exact h.append hcs rfl hlex fun ts hts => hts.append (hus.inside n)

theorem respell {text' : String} (h : Nested follow names n text)
    (heq : text'.toList = text.toList) : Nested follow names n text' :=
  Python.Spells.respell h heq

theorem ofWord (h : Nested endsWord names n text) : Nested endsToken names n text :=
  h.imp (fun _ hc => Python.endsWord_of_endsToken hc) fun _ hts => hts

theorem minus (h : Nested follow names n text) : Nested follow names n ("-" ++ text) := by
  obtain ⟨c, cs, ts, htext, hc, hlex, hts⟩ := h
  have hminus := (Python.lexes_sign (.inr rfl)).append hc hlex
  refine .of_lexes ?_ rfl hminus ⟨hts.own, hts.depth⟩
  rw [String.toList_append, htext]
  rfl

theorem piece (h : Nested follow names n text) : Piece endsSign follow names text := by
  obtain ⟨c, cs, ts, htext, hc, hlex, hts⟩ := h
  exact ⟨c, cs, ts, htext, hc, hlex, hts.own⟩

end Nested

section

variable {names : List String}

theorem balances_name {word : String} (h : word ∈ ownedNames → word ∈ names) (n : Nat) :
    Balances names n n [.name word] := by
  refine ⟨?_, rfl⟩
  intro other hother
  obtain ⟨hmem, hown⟩ := mem_ownIn.mp hother
  obtain ⟨rfl⟩ := List.mem_singleton.mp hmem
  exact h hown

theorem nested_name {word : String} (hword : Python.isName word = true)
    (h : word ∈ ownedNames → word ∈ names) : Nested endsWord names 0 word := by
  obtain ⟨c, cs, hcs, -, hchars, -⟩ := Python.exists_cons_of_isName hword
  have hlex := Python.lexes_name hword
  rw [hcs] at hlex
  exact .of_lexes hcs (Python.endsSign_of_isNameChar (hchars c List.mem_cons_self)) hlex
    (balances_name h 0)

/-- Whether a word is a name that the script does not make for itself. -/
def isForeign (word : String) : Bool :=
  Python.isName word && !ownedNames.contains word

theorem Nested.member {n : Nat} {text word : String} (h : Nested endsWord names n text)
    (hword : isForeign word = true) : Nested endsWord names n (text ++ "." ++ word) := by
  simp only [isForeign, Bool.and_eq_true, Bool.not_eq_true', List.contains_eq_mem,
    decide_eq_false_iff_not] at hword
  have hpoint : Balances names n n [.op "."] := ⟨List.nil_subset _, rfl⟩
  have hname : Balances names n n [.name word] := balances_name (fun hown => absurd hown hword.2) n
  rw [String.append_assoc]
  exact h.append (by simp) rfl (Python.lexes_member hword.1) fun ts hts =>
    hts.append (hpoint.append hname)

theorem nested_identifier (name : String) : Nested endsWord names 0 (identifier name) :=
  nested_name (isName_identifier name) fun h => absurd h (identifier_notMem_ownedNames name)

theorem nested_objectName {d : Device} {port : Char} (hport : isNameChar port = true)
    (h : d.objectName port ∈ names) : Nested endsWord names 0 (d.objectName port) :=
  nested_name (isName_objectName d hport) fun _ => h

theorem nested_className (d : Device) : Nested endsWord names 0 d.className := by
  refine nested_name ?_ fun h => ?_
  · cases d <;> rfl
  · cases d <;> exact absurd h (by decide)

theorem nested_quote (s : String) : Nested endsWord names 0 (quote s) := by
  have hlex := Python.lexes_quote s
  rw [quote_toList] at hlex
  exact .of_lexes (quote_toList s) rfl hlex ⟨List.nil_subset _, rfl⟩

theorem quote_singleton {c : Char} (h : isNameChar c = true) :
    quote (String.singleton c) = "'" ++ String.singleton c ++ "'" := by
  have hne := fun d => Python.ne_of_isNameChar (d := d) h
  have hescape : escapeChar c = [c] := by
    rw [escapeChar, if_neg (hne '\\' rfl), if_neg (hne '\'' rfl), if_neg (hne '\n' rfl),
      if_neg (hne '\r' rfl), if_neg (hne '\t' rfl)]
  apply String.toList_inj.mp
  simp [quote_toList, hescape]

theorem nested_letter {c : Char} (h : isNameChar c = true) :
    Nested endsWord names 0 ("'" ++ String.singleton c ++ "'") :=
  quote_singleton h ▸ nested_quote (String.singleton c)

theorem nested_none : Nested endsWord names 0 "None" := by
  have hlex : Lexes endsWord ['N', 'o', 'n', 'e'] _ :=
    Python.lexes_word rfl (List.all_eq_true.mp rfl)
  exact .of_lexes rfl rfl hlex ⟨List.nil_subset _, rfl⟩

theorem nested_false : Nested endsWord names 0 "False" := by
  have hlex : Lexes endsWord ['F', 'a', 'l', 's', 'e'] _ :=
    Python.lexes_word rfl (List.all_eq_true.mp rfl)
  exact .of_lexes rfl rfl hlex ⟨List.nil_subset _, rfl⟩

theorem nested_number (x : Binary64) : Nested endsToken names 0 (numberText x) := by
  by_cases hfin : x.isFinite = true
  · obtain ⟨c, cs, hhead, hc⟩ := magnitude_head x
    have hlex := Python.lexes_magnitude hfin
    have htext := numberText_of_isFinite hfin
    have hsign : endsSign c = true :=
      Python.endsSign_of_isNameChar (by simp [isNameChar, Char.isAlphanum, hc])
    have hmagnitude : Nested endsToken names 0 (String.ofList (numberLayout.magnitude x)) := by
      rw [hhead] at hlex ⊢
      exact .of_lexes String.toList_ofList hsign hlex ⟨List.nil_subset _, rfl⟩
    cases hneg : x.negative with
    | true => exact hmagnitude.minus.respell (by rw [htext, hneg]; simp)
    | false => exact hmagnitude.respell (by rw [htext, hneg]; simp)
  · -- What is not finite is written as a call with a text in it.
    have hspecial := numberText_of_not_isFinite (by simpa using hfin)
    simp only [List.mem_cons, List.not_mem_nil, or_false] at hspecial
    rcases hspecial with heq | heq | heq
    · exact heq ▸ .plain (by decide)
    · exact heq ▸ .plain (by decide)
    · exact heq ▸ .plain (by decide)

theorem nested_natural {n : Nat} (h : n ≤ 10) : Nested endsToken names 0 (toString n) := by
  interval_cases n
  all_goals exact ⟨_, _, _, rfl, rfl, Python.lexes_number rfl rfl, List.nil_subset _, rfl⟩

theorem nested_integer {i : Int} (h : -1 ≤ i) (h' : i ≤ 10) :
    Nested endsToken names 0 (toString i) := by
  cases i with
  | ofNat n => exact nested_natural (by simpa using h')
  | negSucc n =>
      obtain rfl : n = 0 := by omega
      exact (nested_natural (n := 1) (by decide)).minus

theorem nested_intercalate {texts : List String} (hne : texts ≠ [])
    (h : ∀ t ∈ texts, Nested endsToken names 0 t) {opening : String}
    (hopening : Nested anything names 1 opening) :
    Nested endsToken names 1 (opening ++ ", ".intercalate texts) := by
  induction texts generalizing opening with
  | nil => exact absurd rfl hne
  | cons t texts ih =>
      obtain ⟨ht, htexts⟩ := List.forall_mem_cons.mp h
      cases texts with
      | nil => simpa using hopening.operand ht
      | cons u texts =>
          have hcomma : Nested anything names 1 (opening ++ t ++ ", ") :=
            (hopening.operand ht).literal (by decide)
          have hrest := ih (List.cons_ne_nil _ _) htexts hcomma
          rw [String.intercalate_cons_cons]
          exact hrest.respell (by simp)

theorem nested_dictionary {entries : List (String × String)} (hne : entries ≠ [])
    (h : ∀ e ∈ entries, Nested endsToken names 0 e.1 ∧ Nested endsToken names 0 e.2) :
    Nested endsWord names 0 (dictionary entries) := by
  have hopening : Nested anything names 1 "\x7b" := .plain (by decide)
  have hentry (e : String × String) (he : e ∈ entries) :
      Nested endsToken names 0 (e.1 ++ ": " ++ e.2) := by
    have hkey : Nested anything names 0 (e.1 ++ ": ") := (h e he).1.literal (by decide)
    exact hkey.operand (h e he).2
  have hitems := nested_intercalate (List.map_eq_nil_iff.not.mpr hne)
    (List.forall_mem_map.mpr hentry) hopening
  exact hitems.literal (by decide)

theorem nested_letters {letters : List Char} (h : ∀ c ∈ letters, isNameChar c = true) :
    Nested endsToken names 0
      ("[" ++ ", ".intercalate (letters.map fun c => "'" ++ String.singleton c ++ "'") ++ "]") := by
  cases letters with
  | nil =>
      have hempty : Nested endsToken names 0 "[]" := .plain (by decide)
      exact hempty
  | cons c letters =>
      have hopening : Nested anything names 1 "[" := .plain (by decide)
      have hitems := nested_intercalate (List.cons_ne_nil _ _)
        (List.forall_mem_map.mpr fun c hc => (nested_letter (h c hc)).ofWord) hopening
      exact hitems.literal (by decide)

theorem piece_intercalate {texts : List String} (hne : texts ≠ [])
    (h : ∀ t ∈ texts, Piece endsSign endsToken names t) :
    Piece endsSign endsToken names (", ".intercalate texts) := by
  induction texts with
  | nil => exact absurd rfl hne
  | cons t texts ih =>
      obtain ⟨ht, htexts⟩ := List.forall_mem_cons.mp h
      cases texts with
      | nil => simpa using ht
      | cons u texts =>
          rw [String.intercalate_cons_cons]
          exact (ht.append (.plain (by decide))).append (ih (List.cons_ne_nil _ _) htexts)

theorem Piece.minus {follow : Char → Bool} {text : String} (h : Piece endsSign follow names text) :
    Piece endsSign follow names ("-" ++ text) := by
  have hminus : Piece endsSign endsSign names "-" :=
    ⟨'-', [], _, rfl, rfl, Python.lexes_sign (.inr rfl), List.nil_subset _⟩
  exact hminus.append h

theorem Piece.negate {text : String} (h : Piece endsSign endsToken names text) :
    Piece endsSign endsToken names (Script.negate text) := by
  unfold Script.negate
  split
  · exact Piece.enclose (.plain (by decide)) h (by decide)
  · exact h.minus

end

end Script

/-- Expressions whose ports are spelled like names, so that a port can be part of the name of a
device and needs no escape in quotes. -/
abbrev Expr.PlainPorts (e : Expr) : Prop :=
  e.PortsIn (isNameChar · = true)

section

variable {names : List String}

theorem SensorColor.nested_scriptName (c : SensorColor) : Nested endsWord names 0 c.scriptName := by
  cases c with
  | none => exact nested_none
  | black => exact nested_quote "black"
  | violet => exact nested_quote "violet"
  | blue => exact nested_quote "blue"
  | azure => exact nested_quote "cyan"
  | green => exact nested_quote "green"
  | yellow => exact nested_quote "yellow"
  | red => exact nested_quote "red"
  | white => exact nested_quote "white"

theorem SensorColor.nested_index (c : SensorColor) :
    Nested endsToken names 0 (toString c.index) := by
  have hindex : -1 ≤ c.index ∧ c.index ≤ 10 := by
    cases c <;> decide
  exact nested_integer hindex.1 hindex.2

theorem nested_colorIndexTable : Nested endsWord names 0 colorIndexTable := by
  refine nested_dictionary (List.cons_ne_nil _ _) (List.forall_mem_map.mpr fun c _ => ?_)
  exact ⟨c.nested_scriptName.ofWord, c.nested_index⟩

theorem nested_colorNameTable : Nested endsWord names 0 colorNameTable := by
  refine nested_dictionary (List.cons_ne_nil _ _) (List.forall_mem_map.mpr fun c _ => ?_)
  exact ⟨c.nested_index, c.nested_scriptName.ofWord⟩

theorem Gesture.nested_scriptName (g : Gesture) : Nested endsWord names 0 g.scriptName := by
  cases g with
  | shaken => exact nested_quote "shaken"
  | tapped => exact nested_quote "tapped"
  | falling => exact nested_quote "falling"

theorem nested_gestureTable : Nested endsWord names 0 gestureTable := by
  have hindex : ∀ g ∈ (Choice.all : List Gesture).zipIdx, g.2 ≤ 10 := by decide
  have hminus : Nested endsToken names 0 "-1" := (nested_natural (n := 1) (by decide)).minus
  refine nested_dictionary (List.cons_ne_nil _ _) (List.forall_mem_cons.mpr ⟨?_, ?_⟩)
  · exact ⟨nested_none.ofWord, hminus⟩
  · exact List.forall_mem_map.mpr fun g hg =>
      ⟨g.1.nested_scriptName.ofWord, nested_natural (hindex g hg)⟩

theorem Orientation.nested_text (o : Orientation) :
    Nested endsWord names 0 ("'" ++ tag o ++ "'") := by
  have hquote : Nested endsWord names 0 (quote (tag o)) := nested_quote (tag o)
  cases o <;> exact hquote

theorem nested_orientationTable : Nested endsWord names 0 orientationTable := by
  have hindex : ∀ o ∈ (Choice.all : List Orientation).zipIdx, o.2 ≤ 10 := by decide
  refine nested_dictionary (List.cons_ne_nil _ _) (List.forall_mem_map.mpr fun o ho => ?_)
  exact ⟨o.1.nested_text.ofWord, nested_natural (hindex o ho)⟩

theorem Reading.nested (r : Reading) (h : r.demand.name ∈ names) :
    Nested endsToken names 0 r.script := by
  have hobject : Nested endsWord names 0 r.object := by
    have hname : r.object = "hub" ∨ r.object = "timer" := by
      cases r <;> simp [Reading.object]
    refine nested_name ?_ fun _ => ?_
    · rcases hname with heq | heq <;> exact heq ▸ rfl
    · cases r <;> exact h
  have hmotion : Nested endsWord names 0 (r.object ++ "." ++ "motion_sensor") := hobject.member rfl
  cases r with
  | gesture =>
      have htable : Nested anything names 1 (gestureTable ++ "[") :=
        nested_gestureTable.literal (by decide)
      exact (htable.operand hobject).literal (by decide)
  | orientation =>
      have htable : Nested anything names 1 (orientationTable ++ "[") :=
        nested_orientationTable.literal (by decide)
      exact (htable.operand hobject).literal (by decide)
  | isGesture g =>
      have htest : Nested anything names 0 (_ ++ ".motion_sensor.get_gesture() == ") :=
        hobject.literal (by decide)
      exact htest.operand g.nested_scriptName.ofWord
  | isOrientation o =>
      have htest : Nested anything names 0 (_ ++ ".motion_sensor.get_orientation() == ") :=
        hobject.literal (by decide)
      exact (htest.operand o.nested_text.ofWord).respell (by simp [Reading.script])
  | angle axis =>
      have hname : isForeign ("get_" ++ tag axis ++ "_angle") = true := by
        cases axis <;> rfl
      have hcall : Nested endsToken names 0 (_ ++ "()") :=
        (hmotion.member hname).literal (by decide)
      exact hcall.respell (by simp [Reading.script])
  | button b s =>
      have hbutton : isForeign (tag b ++ "_button") = true := by
        cases b <;> rfl
      have hstate : isForeign ("is_" ++ tag s) = true := by
        cases s <;> rfl
      have hcall : Nested endsToken names 0 (_ ++ "()") :=
        ((hobject.member hbutton).member hstate).literal (by decide)
      exact hcall.respell (by simp [Reading.script])
  | timer => exact hobject.literal (by decide)
  | volume => exact hobject.literal (by decide)

theorem MathFunction.nests_opening (f : MathFunction) :
    nests endsSign [] 0 1 f.opening.toList = true := by
  cases f <;> decide

theorem UnaryOp.nested {op : UnaryOp} {a text : String} (h : op.text a = .ok text)
    (ha : Nested endsToken names 0 a) : Nested endsToken names 0 text := by
  have henclose {n : Nat} {opening closing : List Char}
      (hopening : nests endsSign [] 0 n opening = true)
      (hclosing : nests endsToken [] n 0 closing = true) :
      Nested endsToken names 0 (String.ofList opening ++ a ++ String.ofList closing) :=
    ((Nested.plain hopening).operand ha).literal hclosing
  cases op with
  | not =>
      obtain rfl := Except.ok.inj h
      exact henclose (n := 1) (by decide) (by decide)
  | length =>
      obtain rfl := Except.ok.inj h
      exact henclose (n := 2) (by decide) (by decide)
  | round =>
      obtain rfl := Except.ok.inj h
      exact henclose (n := 1) (by decide) (by decide)
  | math f =>
      unfold UnaryOp.text at h
      dsimp only at h
      split at h
      · cases h
      · obtain rfl := Except.ok.inj h
        exact ((Nested.joined f.nests_opening).operand ha).literal (by decide)

theorem BinaryOp.nested {op : BinaryOp} {a b : String} (ha : Nested endsToken names 0 a)
    (hb : Nested endsToken names 0 b) (hrandom : op = .random → "randint" ∈ names) :
    Nested endsToken names 0 (op.text a b) := by
  have hmarked {mark : String} (hmark : nests endsToken [] 1 1 mark.toList = true) :
      Nested endsToken names 0 ("(" ++ a ++ mark ++ b ++ ")") := by
    have hopening : Nested anything names 1 "(" := .plain (by decide)
    have hleft : Nested anything names 1 ("(" ++ a ++ mark) :=
      (hopening.operand ha).literalJoined hmark
    exact (hleft.operand hb).literal (by decide)
  cases op with
  | arithmetic op =>
      have hmark : nests endsToken [] 1 1 (" " ++ tag op ++ " ").toList = true := by
        cases op <;> decide
      exact (hmarked hmark).respell (by simp [BinaryOp.text])
  | comparison op =>
      have hmark : nests endsToken [] 0 0 (" " ++ op.symbol ++ " ").toList = true := by
        cases op <;> decide
      have hleft : Nested anything names 0 (a ++ (" " ++ op.symbol ++ " ")) :=
        ha.literalJoined hmark
      exact (hleft.operand hb).respell (by simp [BinaryOp.text])
  | and => exact hmarked (by decide)
  | or => exact hmarked (by decide)
  | modulo => exact hmarked (by decide)
  | join =>
      have hopening : Nested anything names 2 "(str(" := .plain (by decide)
      have hmiddle : Nested anything names 2 ("(str(" ++ a ++ ") + str(") :=
        (hopening.operand ha).literal (by decide)
      exact (hmiddle.operand hb).literal (by decide)
  | letterOf =>
      have hopening : Nested anything names 1 "str(" := .plain (by decide)
      have hmiddle : Nested anything names 2 ("str(" ++ b ++ ")[int(") :=
        (hopening.operand hb).literal (by decide)
      exact (hmiddle.operand ha).literal (by decide)
  | contains =>
      have hopening : Nested anything names 2 "(str(" := .plain (by decide)
      have hmiddle : Nested anything names 2 ("(str(" ++ b ++ ").lower() in str(") :=
        (hopening.operand hb).literal (by decide)
      exact (hmiddle.operand ha).literal (by decide)
  | math f =>
      have hfirst : Nested endsToken names 1 (f.opening ++ a) :=
        (Nested.joined f.nests_opening).operand ha
      unfold BinaryOp.text
      dsimp only
      split
      · have hmiddle : Nested anything names 1 (f.opening ++ a ++ ", ") :=
          hfirst.literal (by decide)
        exact (hmiddle.operand hb).literal (by decide)
      · exact hfirst.literal (by decide)
  | random =>
      have hopening : Nested anything names 2 "randint(int(" := .owned (hrandom rfl) (by decide)
      have hmiddle : Nested anything names 2 ("randint(int(" ++ a ++ "), int(") :=
        (hopening.operand ha).literal (by decide)
      exact (hmiddle.operand hb).literal (by decide)

theorem ListQuery.nested (q : ListQuery) {list a : String} (hlist : Nested endsWord names 0 list)
    (ha : Nested endsToken names 0 a) : Nested endsToken names 0 (q.text list a) := by
  cases q with
  | itemAt =>
      have hopening : Nested anything names 2 (list ++ "[int(") := hlist.literal (by decide)
      exact (hopening.operand ha).literal (by decide)
  | indexOf =>
      have hopening : Nested anything names 1 "(" := .plain (by decide)
      have hcall : Nested anything names 2 ("(" ++ list ++ ".index(") :=
        (hopening.operand hlist).literal (by decide)
      exact (hcall.operand ha).literal (by decide)
  | contains =>
      have hopening : Nested anything names 1 "(" := .plain (by decide)
      have hmiddle : Nested anything names 1 ("(" ++ a ++ " in ") :=
        (hopening.operand ha).literal (by decide)
      exact (hmiddle.operand hlist.ofWord).literal (by decide)

theorem DeviceQuery.nested (q : DeviceQuery) {device : String}
    (h : Nested endsWord names 0 device) : Nested endsToken names 0 (q.text device) := by
  cases q with
  | motorPosition | motorSpeed | reflectedLight => exact h.literal (by decide)
  | color =>
      have htable : Nested anything names 1 (colorIndexTable ++ "[") :=
        nested_colorIndexTable.literal (by decide)
      exact (htable.operand h).literal (by decide)
  | distance unit =>
      have hcall : nests endsWord [] 0 0 ("." ++ unit.method ++ "()").toList = true := by
        cases unit <;> decide
      exact (h.literalJoined hcall).respell (by simp [DeviceQuery.text])

namespace Expr

theorem nested_device {d : Device} {port : Expr} {text : String} (hport : port.PlainPorts)
    (h : port.deviceScript d = .ok text) (hnames : (port.devices d).map Demand.name ⊆ names) :
    Nested endsWord names 0 text := by
  obtain ⟨letter, rfl, rfl⟩ | ⟨r, rfl, rfl⟩ := deviceScript_cases h
  · exact nested_objectName (hport.own letter List.mem_cons_self) (hnames List.mem_cons_self)
  · have hopening : Nested anything names 1 (d.className ++ "(") :=
      (nested_className d).literal (by decide)
    exact (hopening.operand (nested_identifier r.name)).literal (by decide)

theorem nested_literalColorTest {sensor text : String} {i : Int}
    (hsensor : Nested endsWord names 0 sensor) (h : Emit.literalColorTest sensor i = .ok text) :
    Nested endsToken names 0 text := by
  obtain ⟨c, -, rfl⟩ := map_eq_ok_iff.mp h
  have hequal : Nested anything names 0 (sensor ++ ".get_color() == ") :=
    hsensor.literal (by decide)
  cases c with
  | none =>
      have his : Nested anything names 0 (sensor ++ ".get_color() is ") :=
        hsensor.literal (by decide)
      exact (his.operand nested_none.ofWord).respell (by simp)
  | _ => exact hequal.operand (.plain (by decide))

theorem nested_between {v a b : String} (hv : Nested endsToken names 0 v)
    (ha : Nested endsToken names 0 a) (hb : Nested endsToken names 0 b) :
    Nested endsToken names 0 ("(" ++ a ++ " <= " ++ v ++ " <= " ++ b ++ ")") := by
  have hopening : Nested anything names 1 "(" := .plain (by decide)
  have hlow : Nested anything names 1 ("(" ++ a ++ " <= ") :=
    (hopening.operand ha).literal (by decide)
  have hmiddle : Nested anything names 1 ("(" ++ a ++ " <= " ++ v ++ " <= ") :=
    (hlow.operand hv).literal (by decide)
  exact (hmiddle.operand hb).literal (by decide)

theorem nested_deviceTest {test : DeviceTest} {port value : Expr} {text : String}
    (hdevice : ∀ sensor, port.deviceScript test.target = .ok sensor →
      Nested endsWord names 0 sensor)
    (hvalue : ∀ v, value.script = .ok v → Nested endsToken names 0 v)
    (h : (deviceTest test port value).script = .ok text) : Nested endsToken names 0 text := by
  obtain ⟨sensor, hsensor, hcases⟩ := script_deviceTest_cases h
  have hs := hdevice sensor hsensor
  obtain ⟨i, -, -, h⟩ | ⟨v, hv, ⟨-, -, rfl⟩ | ⟨op, -, rfl⟩ | ⟨op, unit, -, rfl⟩⟩ := hcases
  · exact nested_literalColorTest hs h
  · have hequal : Nested anything names 0 (sensor ++ ".get_color() == ") := hs.literal (by decide)
    have htable : Nested anything names 2
        (sensor ++ ".get_color() == " ++ colorNameTable ++ "[int(") :=
      (hequal.operand nested_colorNameTable).literal (by decide)
    exact (htable.operand (hvalue v hv)).literal (by decide)
  · have htest : nests endsWord [] 0 0
        (".get_reflected_light() " ++ op.symbol ++ " ").toList = true := by
      cases op <;> decide
    exact ((hs.literalJoined htest).operand (hvalue v hv)).respell (by simp)
  · have htest : nests endsWord [] 0 0
        ("." ++ unit.method ++ "() " ++ op.symbol ++ " ").toList = true := by
      cases unit <;> cases op <;> decide
    exact ((hs.literalJoined htest).operand (hvalue v hv)).respell (by simp)

theorem demands_subset {e operand : Expr} (h : e.demands.map Demand.name ⊆ names)
    (hoperand : operand ∈ e.visible) : operand.demands.map Demand.name ⊆ names := by
  rw [demands_eq, List.map_append] at h
  refine List.Subset.trans ?_ (List.append_subset.mp h).2
  exact List.map_subset _ fun q hq => List.mem_flatMap.mpr ⟨operand, hoperand, hq⟩

theorem needs_subset {e : Expr} (h : e.demands.map Demand.name ⊆ names) :
    e.needs.map Demand.name ⊆ names := by
  rw [demands_eq, List.map_append] at h
  exact (List.append_subset.mp h).1

/-- The names of the script's own in the text of an expression are those of its demands. The text
closes the brackets that it opens, and its commas are inside of them. -/
theorem nested_script {e : Expr} {text : String} (he : e.PlainPorts) (h : e.script = .ok text)
    (hnames : e.demands.map Demand.name ⊆ names) : Nested endsToken names 0 text := by
  induction e generalizing text with
  | number x =>
      obtain rfl := Except.ok.inj h
      exact nested_number x
  | text s =>
      obtain rfl := Except.ok.inj h
      exact (nested_quote s).ofWord
  | ports letters =>
      obtain rfl := Except.ok.inj h
      exact nested_letters he.own
  | ref r =>
      obtain rfl := Except.ok.inj h
      exact (nested_identifier r.name).ofWord
  | reading r =>
      obtain rfl := Except.ok.inj h
      exact r.nested (hnames List.mem_cons_self)
  | keyPressed key _ =>
      obtain rfl := Except.ok.inj h
      exact nested_false.ofWord
  | listLength list =>
      obtain rfl := Except.ok.inj h
      have hopening : Nested anything names 1 "len(" := .plain (by decide)
      exact (hopening.operand (nested_identifier list.name).ofWord).literal (by decide)
  | unary op a ih =>
      obtain ⟨t, ht, h⟩ := bind_eq_ok_iff.mp h
      have ha : a ∈ (unary op a).visible := List.mem_cons_self
      exact UnaryOp.nested h (ih (he.operand ha) ht (demands_subset hnames ha))
  | binary op a b iha ihb =>
      simp only [script, bind_eq_ok_iff, pure_eq_ok_iff] at h
      obtain ⟨t, ht, u, hu, rfl⟩ := h
      have ha : a ∈ (binary op a b).visible := by simp [visible, children]
      have hb : b ∈ (binary op a b).visible := by simp [visible, children]
      refine BinaryOp.nested (iha (he.operand ha) ht (demands_subset hnames ha))
        (ihb (he.operand hb) hu (demands_subset hnames hb)) ?_
      rintro rfl
      exact hnames List.mem_cons_self
  | between v a b ihv iha ihb =>
      simp only [script, bind_eq_ok_iff, pure_eq_ok_iff] at h
      obtain ⟨s, hs, t, ht, u, hu, rfl⟩ := h
      have hv : v ∈ (between v a b).visible := by simp [visible, children]
      have ha : a ∈ (between v a b).visible := by simp [visible, children]
      have hb : b ∈ (between v a b).visible := by simp [visible, children]
      exact nested_between (ihv (he.operand hv) hs (demands_subset hnames hv))
        (iha (he.operand ha) ht (demands_subset hnames ha))
        (ihb (he.operand hb) hu (demands_subset hnames hb))
  | listQuery q list a ih =>
      simp only [script, bind_eq_ok_iff, pure_eq_ok_iff] at h
      obtain ⟨t, ht, rfl⟩ := h
      have ha : a ∈ (listQuery q list a).visible := List.mem_cons_self
      exact q.nested (nested_identifier list.name)
        (ih (he.operand ha) ht (demands_subset hnames ha))
  | device q port _ =>
      -- The port is no operand: what it demands is the device on it.
      simp only [script, bind_eq_ok_iff, pure_eq_ok_iff] at h
      obtain ⟨sensor, hsensor, rfl⟩ := h
      have hport : port ∈ (device q port).visible := List.mem_cons_self
      exact q.nested (nested_device (he.operand hport) hsensor (needs_subset hnames))
  | deviceTest test port value _ ih =>
      have hport : port ∈ (deviceTest test port value).visible := by simp [visible, children]
      have hoperand : value ∈ (deviceTest test port value).visible := by simp [visible, children]
      refine nested_deviceTest (fun sensor hsensor => ?_) (fun v hv => ?_) h
      · exact nested_device (he.operand hport) hsensor (needs_subset hnames)
      · exact ih (he.operand hoperand) hv (demands_subset hnames hoperand)

theorem piece_script {e : Expr} {text : String} (he : e.PlainPorts) (h : e.script = .ok text)
    (hnames : e.demands.map Demand.name ⊆ names) : Piece endsSign endsToken names text :=
  (nested_script he h hnames).piece

end Expr

end

end WordBlocks
