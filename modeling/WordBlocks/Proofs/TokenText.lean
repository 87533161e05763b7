import WordBlocks.Proofs.NumberText
import WordBlocks.Script.Identifier

/-!
The characters of the tokens in a script that come from the project: identifiers, string literals
and numbers. No token holds a line end, whatever text of the project it stands for.
-/

namespace WordBlocks.Script

theorem plainName_chars (cs : List Char) : ∀ c ∈ plainName cs, isNameChar c = true := by
  have hbody : ∀ c ∈ (Text.trimChars cs).map (fun c => if isNameChar c then c else '_'),
      isNameChar c = true := by
    intro c hc
    obtain ⟨a, _, rfl⟩ := List.mem_map.mp hc
    split
    · assumption
    · rfl
  intro c hc
  unfold plainName at hc
  dsimp only at hc
  split at hc
  · obtain rfl := List.mem_singleton.mp hc
    rfl
  · split at hc
    · rcases List.mem_cons.mp hc with rfl | hc
      · rfl
      · exact hbody c hc
    · exact hbody c hc

theorem plainName_ne_nil (cs : List Char) : plainName cs ≠ [] := by
  unfold plainName
  dsimp only
  split
  · simp
  · split <;> simp_all

theorem isAlpha_iff_toNat {c : Char} :
    c.isAlpha = true ↔ 65 ≤ c.toNat ∧ c.toNat ≤ 90 ∨ 97 ≤ c.toNat ∧ c.toNat ≤ 122 := by
  have hbool : c.isAlpha = (decide (65 ≤ c.val ∧ c.val ≤ 90) ||
      decide (97 ≤ c.val) && decide (c.val ≤ 122)) := rfl
  simp only [hbool, Bool.or_eq_true, Bool.and_eq_true, decide_eq_true_eq, UInt32.le_iff_toNat_le]
  exact Iff.rfl

theorem isBlank_of_isNameChar {c : Char} (h : isNameChar c = true) : Text.isBlank c = false := by
  rw [isNameChar, Bool.or_eq_true, beq_iff_eq, Char.isAlphanum, Bool.or_eq_true, isAlpha_iff_toNat,
    Char.isDigit_iff_toNat] at h
  rcases h with h | rfl
  · change _ ∨ 48 ≤ c.toNat ∧ c.toNat ≤ 57 at h
    simp only [Text.isBlank, Bool.or_eq_false_iff, Bool.and_eq_false_iff, decide_eq_false_iff_not,
      beq_eq_false_iff_ne]
    omega
  · rfl

theorem trimChars_of_isNameChar {cs : List Char} (h : ∀ c ∈ cs, isNameChar c = true) :
    Text.trimChars cs = cs := by
  have hdrop {ds : List Char} (hds : ds ⊆ cs) : ds.dropWhile Text.isBlank = ds := by
    cases ds with
    | nil => rfl
    | cons d ds =>
        have hblank := isBlank_of_isNameChar (h d (hds List.mem_cons_self))
        exact List.dropWhile_cons_of_neg (by simp [hblank])
  rw [Text.trimChars, hdrop (List.Subset.refl cs),
    hdrop (List.reverse_subset.mpr (List.Subset.refl cs)), List.reverse_reverse]

theorem identifier_chars (name : String) :
    ∀ c ∈ (identifier name).toList, isNameChar c = true := by
  intro c hc
  unfold identifier at hc
  dsimp only at hc
  split at hc
  · rw [String.toList_append, String.toList_ofList, List.mem_append] at hc
    rcases hc with hc | hc
    · exact plainName_chars _ c hc
    · obtain rfl : c = '_' := by simpa using hc
      rfl
  · rw [String.toList_ofList] at hc
    exact plainName_chars _ c hc

theorem identifier_ne_nil (name : String) : (identifier name).toList ≠ [] := by
  have hplain := plainName_ne_nil name.toList
  unfold identifier
  dsimp only
  split <;> simp [hplain]

theorem quote_toList (s : String) :
    (quote s).toList = '\'' :: (s.toList.flatMap escapeChar ++ ['\'']) := by
  rw [quote, String.toList_ofList, quoteChars, List.cons_append]

theorem numberText_of_not_isFinite {x : Binary64} (h : x.isFinite = false) :
    numberText x ∈ ["float('nan')", "float('inf')", "float('-inf')"] := by
  have hspecial : x.isNaN = true ∨ x.isInfinite = true := by
    simp only [Binary64.isFinite, bne_eq_false_iff_eq] at h
    simp only [Binary64.isNaN, Binary64.isInfinite, h]
    by_cases hf : x.fraction.val = 0 <;> simp [hf]
  unfold numberText NumberLayout.write
  rcases hspecial with hnan | hinf
  · rw [if_pos hnan]
    exact List.mem_cons_self
  · split
    · exact List.mem_cons_self
    · split
      · exact List.mem_cons_of_mem _ (List.mem_cons_of_mem _ List.mem_cons_self)
      · exact List.mem_cons_of_mem _ List.mem_cons_self

end WordBlocks.Script
