import Mathlib.Data.List.Basic

/-!
Scanners, which cut a text into tokens. A scanner goes through a text character by character, from
mode to mode, and a token is given out as soon as the character after it is read. What a text gives
is put together from what its parts give (`Scans.append`).
-/

namespace WordBlocks

/-- How a text is cut into tokens. A step gives the tokens that a character completes and the mode
after it, or fails; `finish` gives what is complete at the end of the text. -/
structure Scanner (μ τ : Type) where
  start : μ
  step : μ → Char → Option (List τ × μ)
  finish : μ → Option (List τ)

namespace Scanner

variable {μ τ : Type} (s : Scanner μ τ)

/-- The tokens in a text that is scanned from a mode, and the mode after it. -/
def run (mode : μ) : List Char → Option (List τ × μ)
  | [] => some ([], mode)
  | c :: cs => do
    let (here, mode') ← s.step mode c
    let (later, last) ← run mode' cs
    return (here ++ later, last)

/-- The tokens of a whole text. -/
def tokens? (text : String) : Option (List τ) := do
  let (tokens, mode) ← s.run s.start text.toList
  let last ← s.finish mode
  return tokens ++ last

/-- A text takes the scanner from one mode to another and gives some tokens. -/
def Scans (mode : μ) (cs : List Char) (tokens : List τ) (mode' : μ) : Prop :=
  s.run mode cs = some (tokens, mode')

variable {s} {mode mode' mode'' : μ} {here later : List τ} {cs ds : List Char}

theorem Scans.nil (mode : μ) : s.Scans mode [] [] mode :=
  rfl

theorem Scans.cons {c : Char} (h : s.step mode c = some (here, mode'))
    (hcs : s.Scans mode' cs later mode'') : s.Scans mode (c :: cs) (here ++ later) mode'' := by
  unfold Scans at hcs ⊢
  simp [run, h, hcs]

theorem Scans.single {c : Char} (h : s.step mode c = some (here, mode')) :
    s.Scans mode [c] here mode' := by
  have hnil := Scans.cons h (.nil mode')
  rwa [List.append_nil] at hnil

theorem Scans.uncons {c : Char} (h : s.Scans mode (c :: cs) later mode'') :
    ∃ first next rest, s.step mode c = some (first, next) ∧ s.Scans next cs rest mode'' ∧
      later = first ++ rest := by
  unfold Scans run at h
  obtain ⟨⟨first, next⟩, hstep, h⟩ := Option.bind_eq_some_iff.mp h
  obtain ⟨⟨rest, last⟩, hrun, hpure⟩ := Option.bind_eq_some_iff.mp h
  obtain ⟨rfl, rfl⟩ := Prod.mk.inj (Option.some.inj hpure)
  exact ⟨first, next, rest, hstep, hrun, rfl⟩

theorem Scans.append (hcs : s.Scans mode cs here mode') (hds : s.Scans mode' ds later mode'') :
    s.Scans mode (cs ++ ds) (here ++ later) mode'' := by
  induction cs generalizing mode here with
  | nil =>
      obtain ⟨rfl, rfl⟩ := Prod.mk.inj (Option.some.inj hcs)
      exact hds
  | cons c cs ih =>
      obtain ⟨first, next, rest, hstep, hrest, rfl⟩ := hcs.uncons
      rw [List.cons_append, List.append_assoc]
      exact .cons hstep (ih hrest)

theorem Scans.flatMap {collect : List Char → μ} {code : Char → List Char}
    (h : ∀ seen, ∀ c ∈ cs, s.Scans (collect seen) (code c) [] (collect (seen ++ [c])))
    (seen : List Char) : s.Scans (collect seen) (cs.flatMap code) [] (collect (seen ++ cs)) := by
  induction cs generalizing seen with
  | nil =>
      rw [List.append_nil]
      exact .nil _
  | cons c cs ih =>
      have hc := h seen c List.mem_cons_self
      have hcs := ih (fun seen c hc => h seen c (List.mem_cons_of_mem _ hc)) (seen ++ [c])
      rw [List.append_assoc] at hcs
      exact hc.append hcs

theorem Scans.chars {collect : List Char → μ}
    (h : ∀ seen, ∀ c ∈ cs, s.step (collect seen) c = some ([], collect (seen ++ [c])))
    (seen : List Char) : s.Scans (collect seen) cs [] (collect (seen ++ cs)) := by
  have hcode := Scans.flatMap (fun seen c hc => Scans.single (h seen c hc)) seen
  rwa [List.flatMap_singleton'] at hcode

theorem tokens?_of_scans {text : String} {last : List τ}
    (h : s.Scans s.start text.toList here mode) (hlast : s.finish mode = some last) :
    s.tokens? text = some (here ++ last) := by
  simp [tokens?, show s.run s.start text.toList = some (here, mode) from h, hlast]

end Scanner

end WordBlocks
