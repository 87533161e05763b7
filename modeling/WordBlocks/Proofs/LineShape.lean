import WordBlocks.Proofs.ActionScript
import WordBlocks.Proofs.TokenText
import WordBlocks.Script.Program

/-!
The first and the last character of the lines of a script. A line is a note, which starts with a
number sign, or it starts a statement; and it ends with a colon just if a suite follows it.
-/

namespace WordBlocks.Script

open Choice (tag)

/-- Whether a text starts with a number sign. -/
def startsNote (s : String) : Bool :=
  s.toList.head?.any (· == '#')

/-- Whether a text starts with something that is neither a tab nor a number sign. -/
def startsStatement (s : String) : Bool :=
  s.toList.head?.any fun c => c != '\t' && c != '#'

/-- Whether a text ends with a colon. -/
def endsHeader (s : String) : Bool :=
  s.toList.getLast?.any (· == ':')

/-- Whether a text ends with something else than a colon. -/
def endsStatement (s : String) : Bool :=
  s.toList.getLast?.any (· != ':')

theorem any_head?_append (p : Char → Bool) (s t : String) :
    (s ++ t).toList.head?.any p =
      (s.toList.head?.any p || (decide (s = "") && t.toList.head?.any p)) := by
  rw [String.toList_append, List.head?_append]
  by_cases hs : s = ""
  · simp [hs]
  · have hne : s.toList ≠ [] := by simpa using hs
    obtain ⟨c, cs, hcons⟩ := List.exists_cons_of_ne_nil hne
    simp [hcons, hs]

theorem any_getLast?_append (p : Char → Bool) (s t : String) :
    (s ++ t).toList.getLast?.any p =
      (t.toList.getLast?.any p || (decide (t = "") && s.toList.getLast?.any p)) := by
  rw [String.toList_append, List.getLast?_append]
  by_cases ht : t = ""
  · simp [ht]
  · have hne : t.toList ≠ [] := by simpa using ht
    simp [List.getLast?_eq_some_getLast hne, ht]

-- The equations below have no side conditions, so that `simp` can follow a text of many parts to
-- its first or last one.

@[simp] theorem startsNote_append (s t : String) :
    startsNote (s ++ t) = (startsNote s || (decide (s = "") && startsNote t)) :=
  any_head?_append _ s t

@[simp] theorem startsStatement_append (s t : String) :
    startsStatement (s ++ t) = (startsStatement s || (decide (s = "") && startsStatement t)) :=
  any_head?_append _ s t

@[simp] theorem endsHeader_append (s t : String) :
    endsHeader (s ++ t) = (endsHeader t || (decide (t = "") && endsHeader s)) :=
  any_getLast?_append _ s t

@[simp] theorem endsStatement_append (s t : String) :
    endsStatement (s ++ t) = (endsStatement t || (decide (t = "") && endsStatement s)) :=
  any_getLast?_append _ s t

theorem endsStatement_append_right (s : String) {t : String} (h : endsStatement t = true) :
    endsStatement (s ++ t) = true := by
  rw [endsStatement_append, h, Bool.true_or]

theorem any_head?_of_forall {p : Char → Bool} {s : String} (hne : s.toList ≠ [])
    (h : ∀ c ∈ s.toList, p c = true) : s.toList.head?.any p = true := by
  obtain ⟨c, cs, hs⟩ := List.exists_cons_of_ne_nil hne
  rw [hs] at h ⊢
  exact h c List.mem_cons_self

theorem any_getLast?_of_forall {p : Char → Bool} {s : String} (hne : s.toList ≠ [])
    (h : ∀ c ∈ s.toList, p c = true) : s.toList.getLast?.any p = true := by
  rw [List.getLast?_eq_some_getLast hne]
  exact h _ (List.getLast_mem hne)

@[simp] theorem startsStatement_identifier (name : String) :
    startsStatement (identifier name) = true := by
  apply any_head?_of_forall (identifier_ne_nil name)
  intro c hc
  have hchar := identifier_chars name c hc
  rw [Bool.and_eq_true, bne_iff_ne, bne_iff_ne]
  constructor
  · rintro rfl
    exact absurd hchar (by decide)
  · rintro rfl
    exact absurd hchar (by decide)

@[simp] theorem endsStatement_identifier (name : String) :
    endsStatement (identifier name) = true := by
  apply any_getLast?_of_forall (identifier_ne_nil name)
  intro c hc
  rw [bne_iff_ne]
  rintro rfl
  exact absurd (identifier_chars name _ hc) (by decide)

@[simp] theorem startsStatement_objectName (d : Device) (port : Char) :
    startsStatement (d.objectName port) = true := by
  have hstem : startsStatement d.stem = true := by cases d <;> decide
  rw [Device.objectName, startsStatement_append, startsStatement_append, hstem]
  rfl

@[simp] theorem startsStatement_className (d : Device) : startsStatement d.className = true := by
  cases d <;> decide

@[simp] theorem endsStatement_quote (s : String) : endsStatement (quote s) = true := by
  simp [endsStatement, quote_toList, List.getLast?_cons]

@[simp] theorem endsStatement_numberText (x : Binary64) : endsStatement (numberText x) = true := by
  cases hfin : x.isFinite with
  | false =>
      have hwords : ∀ w ∈ ["float('nan')", "float('inf')", "float('-inf')"],
          endsStatement w = true := by decide
      exact hwords _ (numberText_of_not_isFinite hfin)
  | true =>
      have hne : (numberText x).toList ≠ [] := by
        obtain ⟨c, cs, hmagnitude, _⟩ := magnitude_head x
        simp [numberText_of_isFinite hfin, hmagnitude]
      apply any_getLast?_of_forall hne
      intro c hc
      rw [bne_iff_ne]
      rintro rfl
      exact absurd (numberText_chars hfin _ hc) (by decide)

@[simp] theorem endsStatement_reading (r : Reading) : endsStatement r.script = true := by
  cases r with
  | isGesture g => cases g <;> decide
  | timer | volume => decide
  | _ => exact endsStatement_append_right _ (by decide)

theorem endsStatement_unary {op : UnaryOp} {a t : String} (h : op.text a = .ok t) :
    endsStatement t = true := by
  cases op with
  | math f =>
      simp only [UnaryOp.text] at h
      split at h
      · cases h
      · obtain rfl := Except.ok.inj h
        simp +decide
  | not | length | round =>
      obtain rfl := Except.ok.inj h
      simp +decide

theorem endsStatement_binary (op : BinaryOp) {a b : String} (hb : endsStatement b = true) :
    endsStatement (op.text a b) = true := by
  cases op with
  | math f =>
      unfold BinaryOp.text
      dsimp only
      split <;> simp +decide
  | comparison op => simp [BinaryOp.text, hb]
  | _ => simp +decide [BinaryOp.text]

theorem endsStatement_literalColorTest {sensor t : String} {i : Int}
    (h : Emit.literalColorTest sensor i = .ok t) : endsStatement t = true := by
  obtain ⟨c, -, rfl⟩ := map_eq_ok_iff.mp h
  cases c <;> simp +decide [SensorColor.scriptName]

theorem endsStatement_script {e : Expr} {t : String} (h : e.script = .ok t) :
    endsStatement t = true := by
  induction e generalizing t with
  | number x | text s | ports letters | ref r | reading r | listLength list | keyPressed key =>
      obtain rfl := Except.ok.inj h
      simp +decide
  | unary op a _ =>
      obtain ⟨u, _, hu⟩ := bind_eq_ok_iff.mp h
      exact endsStatement_unary hu
  | binary op a b _ ihb =>
      simp only [Expr.script, bind_eq_ok_iff, pure_eq_ok_iff] at h
      obtain ⟨u, _, v, hv, rfl⟩ := h
      exact endsStatement_binary op (ihb hv)
  | between v a b _ _ _ =>
      simp only [Expr.script, bind_eq_ok_iff, pure_eq_ok_iff] at h
      obtain ⟨_, _, _, _, _, _, rfl⟩ := h
      simp +decide
  | device q port _ =>
      simp only [Expr.script, bind_eq_ok_iff, pure_eq_ok_iff] at h
      obtain ⟨_, _, rfl⟩ := h
      cases q <;> simp +decide [DeviceQuery.text]
  | deviceTest test port value _ ihv =>
      obtain ⟨sensor, -, ⟨i, -, -, h⟩ | ⟨v, hv, ⟨-, -, rfl⟩ | ⟨op, -, rfl⟩ | ⟨op, unit, -, rfl⟩⟩⟩ :=
        Expr.script_deviceTest_cases h
      · exact endsStatement_literalColorTest h
      · simp +decide
      · simp [ihv hv]
      · simp [ihv hv]
  | listQuery q list operand _ =>
      simp only [Expr.script, bind_eq_ok_iff, pure_eq_ok_iff] at h
      obtain ⟨_, _, rfl⟩ := h
      cases q <;> simp +decide [ListQuery.text]

/-- Texts that are written as they are between the statements of a script. -/
def fixedNotes : List String :=
  serialMotorsNote ++ [wholeDegreesNote, oneBasedNote, movementPairNote, repeatCountNote,
    looseStackNote]

theorem serialNote_subset (t : Targets) : MotorAction.serialNote t ⊆ fixedNotes := by
  unfold MotorAction.serialNote
  split
  · exact List.subset_append_left _ _
  · exact List.nil_subset _

-- Stated on the characters of a literal: evaluating `toList` of a long one is what costs time.
theorem noteShape_ofList {cs : List Char} (hstart : cs.head?.any (· == '#') = true)
    (hend : cs.getLast?.any (· != ':') = true) :
    startsNote (String.ofList cs) = true ∧ endsStatement (String.ofList cs) = true := by
  rw [startsNote, endsStatement, String.toList_ofList]
  exact ⟨hstart, hend⟩

theorem fixedNotes_shape : ∀ t ∈ fixedNotes, startsNote t = true ∧ endsStatement t = true := by
  simp only [fixedNotes, serialMotorsNote, List.cons_append, List.nil_append, List.forall_mem_cons]
  refine ⟨?_, ?_, ?_, ?_, ?_, ?_, ?_, List.forall_mem_nil _⟩
  all_goals exact noteShape_ofList (by decide) (by decide)

theorem placeholderText_shape (block : String) (feature : Option MissingFeature) :
    startsNote (placeholderText block feature) = true ∧
      endsStatement (placeholderText block feature) = true := by
  have hstarts : startsNote "# Placeholder for the " = true := by decide
  have hends : endsStatement " is not supported in Python at the moment." = true := by decide
  unfold placeholderText
  constructor
  · simp only [startsNote_append, hstarts, Bool.true_or]
  · exact endsStatement_append_right _ hends

end WordBlocks.Script
