import WordBlocks.Proofs.References
import WordBlocks.Proofs.TokenText

/-!
Names that share an identifier. The body of a name is what is left once surrounding blanks are gone
and the characters that an identifier cannot have are underscores. Two names have one identifier
just if their bodies collide: they are the same, or one of them is the other with the underscore
that its identifier gets in front or at the end (`identifier_eq_iff`).
-/

namespace WordBlocks.Script

/-- The characters of a name that its identifier keeps, and underscores for the others. -/
def nameBody (name : String) : List Char :=
  (Text.trimChars name.toList).map fun c => if isNameChar c then c else '_'

/-- Whether an identifier needs an underscore in front of these characters. -/
def needsLead : List Char → Bool
  | [] => true
  | c :: _ => c.isDigit

/-- A body and the longer body that gets the same identifier. -/
inductive Merges : List Char → List Char → Prop where
  | lead {body : List Char} (h : needsLead body = true) : Merges body ('_' :: body)
  | reserved {body : List Char} (h : isReserved (String.ofList body) = true) :
      Merges body (body ++ ['_'])
  /-- A lone underscore is reserved as well. -/
  | blank : Merges [] ['_', '_']

/-- Names whose identifiers are the same. -/
def Collide (m n : String) : Prop :=
  nameBody m = nameBody n ∨ Merges (nameBody m) (nameBody n) ∨ Merges (nameBody n) (nameBody m)

def led (body : List Char) : List Char :=
  if needsLead body then '_' :: body else body

def reservedWords : List (List Char) :=
  (keywords ++ ownNames ++ deviceNames).map String.toList

theorem isReserved_iff {l : List Char} :
    isReserved (String.ofList l) = true ↔ l ∈ reservedWords := by
  simp only [isReserved, reservedWords, Bool.or_eq_true, List.contains_iff_mem, List.mem_map,
    List.mem_append]
  constructor
  · intro h
    exact ⟨_, h, String.toList_ofList⟩
  · rintro ⟨s, hs, rfl⟩
    rwa [String.ofList_toList]

/-- The characters of an identifier from those of its plain name. -/
def closed (l : List Char) : List Char :=
  if l ∈ reservedWords then l ++ ['_'] else l

theorem plainName_eq (name : String) : plainName name.toList = led (nameBody name) := by
  change (match nameBody name with
    | [] => ['_']
    | c :: _ => if c.isDigit then '_' :: nameBody name else nameBody name) = led (nameBody name)
  unfold led
  cases nameBody name <;> rfl

theorem toList_identifier (name : String) :
    (identifier name).toList = closed (led (nameBody name)) := by
  simp only [identifier, plainName_eq, isReserved_iff, closed]
  split <;> simp

/-- Reserved words start with a letter or an underscore, and only the lone underscore is one that
ends with an underscore, or is one in front of a body that needs it. -/
theorem reservedWords_facts : ∀ l ∈ reservedWords,
    needsLead l = false ∧ needsLead (l ++ ['_']).tail = false ∧
      (needsLead l.tail = true → l.head? = some '_' → l = ['_']) ∧
      (l.getLast? = some '_' → l = ['_']) := by
  decide +kernel

theorem append_underscore_notMem {l : List Char} (hl : l ∈ reservedWords) :
    l ++ ['_'] ∉ reservedWords := by
  intro h
  obtain ⟨_, _, _, hlast⟩ := reservedWords_facts _ h
  obtain rfl : l = [] := by simpa using hlast List.getLast?_concat
  exact absurd (reservedWords_facts _ hl).1 (by decide)

theorem closed_notMem (l : List Char) : closed l ∉ reservedWords := by
  unfold closed
  split
  · exact append_underscore_notMem ‹_›
  · assumption

theorem isReserved_identifier (name : String) : isReserved (identifier name) = false := by
  rw [← String.ofList_toList (s := identifier name), ← Bool.not_eq_true, isReserved_iff,
    toList_identifier]
  exact closed_notMem _

theorem needsLead_identifier (name : String) : needsLead (identifier name).toList = false := by
  have hled : needsLead (led (nameBody name)) = false := by
    unfold led
    split
    · rfl
    · simp_all
  rw [toList_identifier, closed]
  split
  · cases h : led (nameBody name) with
    | nil =>
        rw [h] at hled
        cases hled
    | cons c cs =>
        rw [h] at hled
        exact hled
  · exact hled

theorem closed_eq_iff {l l' : List Char} : closed l = closed l' ↔
    l = l' ∨ (l ∈ reservedWords ∧ l' = l ++ ['_']) ∨ (l' ∈ reservedWords ∧ l = l' ++ ['_']) := by
  unfold closed
  constructor
  · intro h
    split at h <;> split at h
    · exact .inl (List.append_cancel_right h)
    · exact .inr (.inl ⟨‹_›, h.symm⟩)
    · exact .inr (.inr ⟨‹_›, h⟩)
    · exact .inl h
  · rintro (rfl | ⟨hl, rfl⟩ | ⟨hl, rfl⟩)
    · rfl
    · rw [if_pos hl, if_neg (append_underscore_notMem hl)]
    · rw [if_pos hl, if_neg (append_underscore_notMem hl)]

theorem led_cons_underscore {body : List Char} (h : needsLead body = true) :
    led ('_' :: body) = led body := by
  have hcons : needsLead ('_' :: body) = false := rfl
  simp [led, h, hcons]

theorem led_eq_iff {x y : List Char} : led x = led y ↔
    x = y ∨ (needsLead x = true ∧ y = '_' :: x) ∨ (needsLead y = true ∧ x = '_' :: y) := by
  constructor
  · intro h
    unfold led at h
    split at h <;> split at h
    · exact .inl (List.cons.inj h).2
    · exact .inr (.inl ⟨‹_›, h.symm⟩)
    · exact .inr (.inr ⟨‹_›, h⟩)
    · exact .inl h
  · rintro (rfl | ⟨hx, rfl⟩ | ⟨hy, rfl⟩)
    · rfl
    · exact (led_cons_underscore hx).symm
    · exact led_cons_underscore hy

theorem eq_of_led_eq {l y : List Char} (h : led y = l) (htail : needsLead l.tail = false) :
    y = l := by
  unfold led at h
  split at h
  · obtain rfl := h
    rw [List.tail_cons] at htail
    simp_all
  · exact h

theorem led_reserved_iff {x y : List Char} : led x ∈ reservedWords ∧ led y = led x ++ ['_'] ↔
    (x ∈ reservedWords ∧ y = x ++ ['_']) ∨ (x = [] ∧ y = ['_', '_']) := by
  constructor
  · rintro ⟨hx, hy⟩
    obtain ⟨_, htail, hlone, _⟩ := reservedWords_facts _ hx
    obtain rfl := eq_of_led_eq hy htail
    by_cases hlead : needsLead x = true
    · -- No reserved word is an underscore before a digit, so only the lone underscore is left.
      have hled : led x = '_' :: x := if_pos hlead
      rw [hled] at hlone ⊢
      obtain rfl := (List.cons.inj (hlone hlead rfl)).2
      exact .inr ⟨rfl, rfl⟩
    · have hled : led x = x := if_neg hlead
      rw [hled] at hx ⊢
      exact .inl ⟨hx, rfl⟩
  · rintro (⟨hx, rfl⟩ | ⟨rfl, rfl⟩)
    · have hlead := (reservedWords_facts x hx).1
      have happend : needsLead (x ++ ['_']) = false := by
        cases x with
        | nil => cases hlead
        | cons c x => exact hlead
      simp [led, hlead, happend, hx]
    · decide +kernel

theorem merges_iff {x y : List Char} : Merges x y ↔
    (needsLead x = true ∧ y = '_' :: x) ∨ (x ∈ reservedWords ∧ y = x ++ ['_']) ∨
      (x = [] ∧ y = ['_', '_']) := by
  constructor
  · rintro (h | h | _)
    · exact .inl ⟨h, rfl⟩
    · exact .inr (.inl ⟨isReserved_iff.mp h, rfl⟩)
    · exact .inr (.inr ⟨rfl, rfl⟩)
  · rintro (⟨h, rfl⟩ | ⟨h, rfl⟩ | ⟨rfl, rfl⟩)
    · exact .lead h
    · exact .reserved (isReserved_iff.mpr h)
    · exact .blank

theorem identifier_eq_iff {m n : String} : identifier m = identifier n ↔ Collide m n := by
  rw [← String.toList_inj, toList_identifier, toList_identifier, closed_eq_iff, led_eq_iff,
    led_reserved_iff, led_reserved_iff, Collide, merges_iff, merges_iff]
  exact iff_of_eq (by ac_rfl)

end WordBlocks.Script

namespace WordBlocks

open Script

/-- The references of a program to two declared variables or lists share an identifier just if the
declared names collide. The primitives of the two that the program reads have to bear the declared
names. -/
theorem identifier_references_eq_iff {project : Json} {bestEffort : Bool} {forest : Forest}
    {p : Project} {r s : Reference} {m n : String} (h : lower project bestEffort = .ok forest)
    (hp : Project.ofJson project = .ok p)
    (hheld : ∀ t, p.Holds t → t.id = r.id ∨ t.id = s.id → p.Agrees t)
    (hr : r ∈ Forest.references forest) (hs : s ∈ Forest.references forest)
    (hm : p.declaredName? r.id = some m) (hn : p.declaredName? s.id = some n) :
    identifier r.name = identifier s.name ↔ Collide m n := by
  have hagrees := (forall_mem_references_iff (P := fun t =>
    t.id = r.id ∨ t.id = s.id → p.Agrees t) h hp fun _ hagrees _ => hagrees).mpr hheld
  rw [identifier_eq_iff, hagrees r hr (.inl rfl) m hm, hagrees s hs (.inr rfl) n hn]

/-- A project that sets one of its variables, named `m`, to another one, named `n`. -/
def Json.twoVariables (m n : String) : Json :=
  .program [("v", .array [.string m, .null]), ("w", .array [.string n, .null])] []
    [("below", .object [("opcode", .string "data_setvariableto"),
      ("fields", .object [("VARIABLE", .array [.string m, .string "v"])]),
      ("inputs", .object [("VALUE", .array [.number (.integer 3),
        .array [.number (.integer 12), .string n, .string "w"]])])])]

theorem lower_twoVariables (m n : String) : lower (.twoVariables m n) false =
    .ok [[.hat none none, .action (.data (.set ⟨m, "v"⟩ (.ref ⟨n, "w"⟩)))]] := by
  with_unfolding_all rfl

theorem identifier_references_left_right :
    ∃ p, Project.ofJson (.twoVariables "left speed" "right speed") = .ok p ∧
      (∀ t, p.Holds t → p.Agrees t) ∧ p.declaredName? "v" = some "left speed" ∧
      p.declaredName? "w" = some "right speed" ∧ ¬Collide "left speed" "right speed" := by
  have hlower := lower_twoVariables "left speed" "right speed"
  have hheld := (forall_mem_references_iff hlower rfl fun _ hagrees => hagrees).mp (by decide)
  refine ⟨_, rfl, hheld, rfl, rfl, fun hcollide => ?_⟩
  have heq := (identifier_references_eq_iff (r := ⟨"left speed", "v"⟩)
    (s := ⟨"right speed", "w"⟩) hlower rfl (fun t ht _ => hheld t ht) (by decide) (by decide)
    rfl rfl).mpr hcollide
  exact absurd heq (by decide +kernel)

/-- Two variables with different names share an identifier if one name has a blank for the
underscore of the other. -/
theorem identifier_blank_underscore :
    ∃ p, Project.ofJson (.twoVariables "a b" "a_b") = .ok p ∧
      p.declaredName? "v" = some "a b" ∧ p.declaredName? "w" = some "a_b" ∧
      lower (.twoVariables "a b" "a_b") false =
        .ok [[.hat none none, .action (.data (.set ⟨"a b", "v"⟩ (.ref ⟨"a_b", "w"⟩)))]] ∧
      identifier "a b" = identifier "a_b" := by
  refine ⟨_, rfl, rfl, rfl, lower_twoVariables _ _, ?_⟩
  decide +kernel

end WordBlocks
