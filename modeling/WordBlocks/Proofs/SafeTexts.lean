import WordBlocks.Proofs.Collisions

/-!
Texts of the project inside a script. A string literal gives back the text it was written for,
whatever that text is and whatever comes after the literal (`readText_quote`). The identifier for a
name is always safe, and a name that is safe already is its own identifier (`identifier_safe`).
-/

namespace WordBlocks

open Script

namespace Python

/-- The characters that may follow a backslash in a literal, with what they stand for. -/
def escapes : List (Char × Char) :=
  [('\\', '\\'), ('\'', '\''), ('n', '\n'), ('r', '\r'), ('t', '\t')]

/-- A character in front of what is read. -/
def prepend (c : Char) (read : Option (List Char × List Char)) : Option (List Char × List Char) :=
  read.map fun (value, rest) => (c :: value, rest)

/-- Reads what comes after the opening quote of a literal: its characters and what follows the
closing quote. The literal ends on its line, at the first quote without a backslash before it. -/
def readBody (afterBackslash : Bool) : List Char → Option (List Char × List Char)
  | [] => none
  | c :: cs =>
    if afterBackslash then (escapes.lookup c).bind fun d => prepend d (readBody false cs)
    else if c = '\'' then some ([], cs)
    else if c = '\n' ∨ c = '\r' then none
    else if c = '\\' then readBody true cs
    else prepend c (readBody false cs)

/-- Reads a string literal in single quotes at the start of a text. -/
def readText (text : String) : Option (String × String) :=
  match text.toList with
  | '\'' :: cs =>
      (readBody false cs).map fun (value, rest) => (String.ofList value, String.ofList rest)
  | _ => none

theorem readBody_escape {c d : Char} (h : escapes.lookup d = some c) (cs : List Char) :
    readBody false ('\\' :: d :: cs) = prepend c (readBody false cs) := by
  have hslash : readBody false ('\\' :: d :: cs) = readBody true (d :: cs) := rfl
  rw [hslash, readBody, if_pos rfl, h]
  rfl

theorem readBody_escapeChar (c : Char) (cs : List Char) :
    readBody false (escapeChar c ++ cs) = prepend c (readBody false cs) := by
  unfold escapeChar
  split
  case isTrue h => exact readBody_escape (by rw [h]; rfl) cs
  split
  case isTrue h => exact readBody_escape (by rw [h]; rfl) cs
  split
  case isTrue h => exact readBody_escape (by rw [h]; rfl) cs
  split
  case isTrue h => exact readBody_escape (by rw [h]; rfl) cs
  split
  case isTrue h => exact readBody_escape (by rw [h]; rfl) cs
  case isFalse hslash hquote hfeed hreturn _ =>
    change readBody false (c :: cs) = _
    rw [readBody, if_neg Bool.false_ne_true, if_neg hquote, if_neg (not_or.mpr ⟨hfeed, hreturn⟩),
      if_neg hslash]

theorem readBody_flatMap (cs rest : List Char) :
    readBody false (cs.flatMap escapeChar ++ '\'' :: rest) = some (cs, rest) := by
  induction cs with
  | nil => rfl
  | cons c cs ih =>
      rw [List.flatMap_cons, List.append_assoc, readBody_escapeChar, ih]
      rfl

theorem readText_quote_append (s rest : String) : readText (quote s ++ rest) = some (s, rest) := by
  have hchars : (quote s ++ rest).toList =
      '\'' :: (s.toList.flatMap escapeChar ++ '\'' :: rest.toList) := by
    rw [String.toList_append, quote_toList]
    simp
  unfold readText
  rw [hchars]
  simp only [readBody_flatMap, Option.map_some, String.ofList_toList]

/-- Reading the literal of a text in front of any other text gives the first text and leaves the
second one, so a script that starts with a literal does so in one way. -/
theorem readText_quote (s rest : String) :
    readText (quote s ++ rest) = some (s, rest) ∧
      ∀ t more, quote s ++ rest = quote t ++ more → s = t ∧ rest = more := by
  refine ⟨readText_quote_append s rest, fun t more heq => ?_⟩
  have hread := readText_quote_append t more
  rw [← heq, readText_quote_append] at hread
  exact Prod.mk.inj (Option.some.inj hread)

/-- A backslash at the end of a text does not hide the closing quote. -/
example : readText "'it\\'s \\\\', 'on'" = some ("it's \\", ", 'on'") := by
  rfl

end Python

namespace Script

/-- The ports of a hub as the names of device objects have them. -/
def portSuffixes : List Char :=
  ['a', 'b', 'c', 'd', 'e', 'f']

/-- A name that a variable of a script can have: it is spelled as an identifier, and it is neither a
keyword nor a name that the script uses itself. -/
structure IsSafe (name : String) : Prop where
  starts : name.toList.head?.any (fun c => c.isAlpha || c == '_') = true
  chars : ∀ c ∈ name.toList, (c.isAlphanum || c == '_') = true
  notKeyword : name ∉ keywords
  notOwn : name ∉ ownNames
  notDevice : ∀ d : Device, ∀ port ∈ portSuffixes, name ≠ d.stem ++ "_" ++ String.singleton port

theorem mem_deviceNames_iff {name : String} : name ∈ deviceNames ↔
    ∃ d : Device, ∃ port ∈ portSuffixes, name = d.stem ++ "_" ++ String.singleton port := by
  have hlower : ∀ port ∈ portSuffixes, port.toLower = port := by
    simp [portSuffixes]
  have hall (d : Device) : d ∈ Device.all := by
    cases d <;> decide
  unfold deviceNames
  rw [List.mem_flatMap]
  constructor
  · rintro ⟨d, -, hname⟩
    obtain ⟨port, hport, rfl⟩ := List.mem_map.mp hname
    refine ⟨d, port, hport, ?_⟩
    rw [Device.objectName, hlower port hport]
  · rintro ⟨d, port, hport, rfl⟩
    refine ⟨d, hall d, List.mem_map.mpr ⟨port, hport, ?_⟩⟩
    rw [Device.objectName, hlower port hport]

theorem isReserved_eq_false_iff {name : String} : isReserved name = false ↔
    name ∉ keywords ∧ name ∉ ownNames ∧
      ∀ d : Device, ∀ port ∈ portSuffixes, name ≠ d.stem ++ "_" ++ String.singleton port := by
  have hdevice := not_congr (@mem_deviceNames_iff name)
  push Not at hdevice
  rw [isReserved, Bool.or_eq_false_iff, Bool.or_eq_false_iff, and_assoc, ← hdevice]
  simp

theorem isSafe_identifier (name : String) : IsSafe (identifier name) := by
  obtain ⟨hkeyword, hown, hdevice⟩ := isReserved_eq_false_iff.mp (isReserved_identifier name)
  have hchars := identifier_chars name
  refine ⟨?_, hchars, hkeyword, hown, hdevice⟩
  -- The first character is one of a name, and an underscore stands before a digit.
  have hlead := needsLead_identifier name
  cases hname : (identifier name).toList with
  | nil => exact absurd hname (identifier_ne_nil name)
  | cons c cs =>
      rw [hname] at hlead hchars
      have hc := hchars c List.mem_cons_self
      have hdigit : c.isDigit = false := hlead
      simpa [isNameChar, Char.isAlphanum, hdigit] using hc

theorem needsLead_of_isSafe {name : String} (h : IsSafe name) : needsLead name.toList = false := by
  have hstarts := h.starts
  cases hname : name.toList with
  | nil => simp [hname] at hstarts
  | cons c cs =>
      rw [hname] at hstarts
      change (c.isAlpha || c == '_') = true at hstarts
      change c.isDigit = false
      rw [Bool.or_eq_true, isAlpha_iff_toNat, beq_iff_eq] at hstarts
      rcases hstarts with hletter | rfl
      · rw [← Bool.not_eq_true, Char.isDigit_iff_toNat]
        change ¬(48 ≤ c.toNat ∧ c.toNat ≤ 57)
        omega
      · rfl

theorem identifier_of_isSafe {name : String} (h : IsSafe name) : identifier name = name := by
  have hbody : nameBody name = name.toList := by
    rw [nameBody, trimChars_of_isNameChar h.chars]
    exact (List.map_congr_left fun c hc => if_pos (h.chars c hc)).trans (List.map_id _)
  have hled : led name.toList = name.toList := by
    rw [led, needsLead_of_isSafe h]
    rfl
  have hreserved : name.toList ∉ reservedWords := by
    rw [← isReserved_iff, String.ofList_toList, Bool.not_eq_true, isReserved_eq_false_iff]
    exact ⟨h.notKeyword, h.notOwn, h.notDevice⟩
  rw [← String.toList_inj, toList_identifier, hbody, hled, closed, if_neg hreserved]

/-- The identifier for a name is safe, and the names that are their own identifiers are just those
that are safe. -/
theorem identifier_safe (name : String) :
    IsSafe (identifier name) ∧ identifier (identifier name) = identifier name ∧
      (IsSafe name ↔ identifier name = name) := by
  refine ⟨isSafe_identifier name, identifier_of_isSafe (isSafe_identifier name),
    identifier_of_isSafe, fun h => ?_⟩
  rw [← h]
  exact isSafe_identifier name

end Script

end WordBlocks
