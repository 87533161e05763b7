import Mathlib.Data.List.Chain
import WordBlocks.Proofs.Suites

/-!
The depth of the lines of a script. A line goes one tab further in just after a line that ends with
a colon, and the lines of a statement lie as deep as the loops and branches around it say.
-/

namespace WordBlocks

namespace Script

/-- A line may follow another one: it is at most one tab further in, and it is so just if the other
one ends with a colon. -/
def StepsTo (l m : String) : Prop :=
  leadingTabs m ≤ leadingTabs l + 1 ∧
    (leadingTabs m = leadingTabs l + 1 ↔ endsHeader l = true)

theorem StepsTo.line {n : Nat} {t m : String} (starts : startsText t = true)
    (ends : endsStatement t = true) (hm : leadingTabs m ≤ n) : StepsTo (Line.render ⟨n, t⟩) m := by
  rw [StepsTo, Line.leadingTabs_render n starts, Line.endsHeader_render n starts,
    endsHeader_of_endsStatement ends]
  exact ⟨by omega, iff_of_false (by omega) Bool.false_ne_true⟩

theorem StepsTo.header {n : Nat} {t m : String} (starts : startsText t = true)
    (ends : endsHeader t = true) (hm : leadingTabs m = n + 1) : StepsTo (Line.render ⟨n, t⟩) m := by
  rw [StepsTo, Line.leadingTabs_render n starts, Line.endsHeader_render n starts]
  exact ⟨hm.le, iff_of_true hm ends⟩

namespace Layout

variable {n : Nat} {ls : List Line} {acts filled : Bool}

theorem le_leadingTabs (h : Layout n ls acts filled) :
    ∀ l ∈ ls.map Line.render, n ≤ leadingTabs l := by
  intro l hl
  obtain ⟨l, hmem, rfl⟩ := List.mem_map.mp hl
  obtain ⟨hdepth, htext⟩ := h.le_depth l hmem
  rwa [Line.leadingTabs_render _ htext]

theorem leadingTabs_head (h : Layout n ls acts filled) (hne : ls ≠ []) (rest : List String) :
    ∀ l ∈ (ls.map Line.render ++ rest).head?, leadingTabs l = n := by
  obtain ⟨first, ls, rfl⟩ := List.exists_cons_of_ne_nil hne
  intro l hl
  obtain rfl := Option.some.inj hl
  rw [Line.leadingTabs_render _ (h.le_depth first List.mem_cons_self).2, h.depth_head first rfl]

/-- The lines of a block follow each other, and so does what follows the block, if it is not further
in. -/
theorem isChain_append (h : Layout n ls acts filled) {rest : List String}
    (hrest : rest.IsChain StepsTo) (hhead : ∀ l ∈ rest.head?, leadingTabs l ≤ n) :
    (ls.map Line.render ++ rest).IsChain StepsTo := by
  induction h generalizing rest with
  | nil => exact hrest
  | note starts ends after ih =>
      exact (ih hrest hhead).cons fun m hm =>
        .line (startsText_of_startsNote starts) ends (after.head_append_le hhead m hm)
  | statement starts ends after ih =>
      exact (ih hrest hhead).cons fun m hm =>
        .line (startsText_of_startsStatement starts) ends (after.head_append_le hhead m hm)
  | @suite n t body ls _ _ _ _ starts ends inner nonempty after ihbody ih =>
      have hafter := after.head_append_le hhead
      have hbody := ihbody (ih hrest hhead) fun l hl => Nat.le_succ_of_le (hafter l hl)
      rw [List.map_cons, List.map_append, List.cons_append, List.append_assoc]
      exact hbody.cons fun m hm => .header (startsText_of_startsStatement starts) ends
        (inner.leadingTabs_head nonempty _ m hm)

theorem isChain (h : Layout 0 ls acts filled) :
    (ls.map Line.render).IsChain StepsTo ∧
      ∀ l ∈ (ls.map Line.render).getLast?, endsHeader l = false := by
  -- An empty line could follow, and it is not further in than the last one.
  obtain ⟨hchain, -, hlast⟩ := List.isChain_append.mp
    (h.isChain_append (List.isChain_singleton "") (by simp [leadingTabs]))
  refine ⟨hchain, fun l hl => ?_⟩
  have hstep := (hlast l hl "" rfl).2
  rw [← Bool.not_eq_true, ← hstep]
  simp [leadingTabs]

end Layout

end Script

open Script

/-- A statement lies in a stack under a number of loops and branches. -/
inductive Stack.Nests : Stack → Nat → Stmt → Prop where
  | here (s : Stmt) (rest : Stack) : Nests (s :: rest) 0 s
  | later (first : Stmt) {rest : Stack} {k : Nat} {s : Stmt} (h : Nests rest k s) :
      Nests (first :: rest) k s
  | inside {first : Stmt} (rest : Stack) {body : Stack} {k : Nat} {s : Stmt}
      (hbody : body ∈ first.bodies) (h : Nests body k s) : Nests (first :: rest) (k + 1) s

/-- A statement lies below a hat of a program under a number of loops and branches. -/
def Forest.Nests (forest : Forest) (k : Nat) (s : Stmt) : Prop :=
  ∃ x y body, .hat x y :: body ∈ forest ∧ Stack.Nests body k s

theorem Stack.Nests.suiteLines_eq {body : Stack} {k : Nat} {s : Stmt} (h : Stack.Nests body k s)
    (b : Bool) (n : Nat) : Stack.suiteLines b n body = Stack.lines b n body := by
  cases h with
  | here | later | inside => rfl

theorem Stmt.suiteLines_infix {s : Stmt} {b : Bool} {n : Nat} {ls : List Line}
    (h : s.lines b n = .ok ls) {body : Stack} (hbody : body ∈ s.bodies) :
    ∃ ms, Stack.suiteLines b (n + 1) body = .ok ms ∧ ms <:+: ls := by
  cases s with
  | hat x y | action a => cases hbody
  | forever body =>
      cases List.mem_singleton.mp hbody
      simp only [lines, bind_eq_ok_iff, pure_eq_ok_iff] at h
      obtain ⟨ms, hms, rfl⟩ := h
      exact ⟨ms, hms, (List.suffix_cons _ _).isInfix⟩
  | repeatTimes e body | repeatUntil e body | ifThen e body =>
      cases List.mem_singleton.mp hbody
      simp only [lines, bind_eq_ok_iff, pure_eq_ok_iff] at h
      obtain ⟨_, _, ms, hms, rfl⟩ := h
      exact ⟨ms, hms, (List.suffix_append _ _).isInfix⟩
  | ifElse e body orElse =>
      simp only [lines, bind_eq_ok_iff, pure_eq_ok_iff] at h
      obtain ⟨_, _, ms, hms, ms', hms', rfl⟩ := h
      simp only [bodies, List.mem_cons, List.not_mem_nil, or_false] at hbody
      rcases hbody with rfl | rfl
      · exact ⟨ms, hms, List.infix_append _ _ _⟩
      · exact ⟨ms', hms', ((List.suffix_cons _ _).trans (List.suffix_append _ _)).isInfix⟩

/-- The lines of a stack hold those of each statement in it, at the depth where it lies. -/
theorem Stack.Nests.lines_infix {s : Stack} {k : Nat} {t : Stmt} (h : Stack.Nests s k t) {b : Bool}
    {n : Nat} {ls : List Line} (hls : Stack.lines b n s = .ok ls) :
    ∃ ms, t.lines b (n + k) = .ok ms ∧ ms <:+: ls := by
  induction h generalizing n ls with
  | here t rest =>
      simp only [Stack.lines, bind_eq_ok_iff, pure_eq_ok_iff] at hls
      obtain ⟨ms, hms, _, _, rfl⟩ := hls
      exact ⟨ms, hms, (List.prefix_append _ _).isInfix⟩
  | later first _ ih =>
      simp only [Stack.lines, bind_eq_ok_iff, pure_eq_ok_iff] at hls
      obtain ⟨_, _, rest, hrest, rfl⟩ := hls
      obtain ⟨ms, hms, hinfix⟩ := ih hrest
      exact ⟨ms, hms, hinfix.trans (List.suffix_append _ _).isInfix⟩
  | @inside first rest body k t hbody hnests ih =>
      simp only [Stack.lines, bind_eq_ok_iff, pure_eq_ok_iff] at hls
      obtain ⟨own, hown, _, _, rfl⟩ := hls
      obtain ⟨suite, hsuite, hinfix⟩ := Stmt.suiteLines_infix hown hbody
      rw [hnests.suiteLines_eq] at hsuite
      obtain ⟨ms, hms, hinfix'⟩ := ih hsuite
      rw [Nat.add_assoc, Nat.add_comm 1 k] at hms
      exact ⟨ms, hms, (hinfix'.trans hinfix).trans (List.prefix_append _ _).isInfix⟩

theorem Forest.lines_infix {forest : Forest} {b started : Bool} {ls : List Line}
    (h : Forest.lines b started forest = .ok ls) {x y : Option Binary64} {body : Stack}
    (hbody : .hat x y :: body ∈ forest) :
    ∃ ms, Stack.lines b 0 body = .ok ms ∧ ms <:+: ls := by
  induction forest generalizing started ls with
  | nil => cases hbody
  | cons root rest ih =>
      rcases Forest.lines_cons_cases h with
        ⟨x', y', body', ls', ms, rfl, hls', hms, rfl⟩ | ⟨ms, hloose, hms, rfl⟩
      · rcases List.mem_cons.mp hbody with heq | hbody
        · cases heq
          exact ⟨ls', hls', List.infix_append _ _ _⟩
        · obtain ⟨ns, hns, hinfix⟩ := ih hms hbody
          exact ⟨ns, hns, hinfix.trans (List.suffix_append _ _).isInfix⟩
      · rcases List.mem_cons.mp hbody with heq | hbody
        · exact absurd heq.symm (hloose x y body)
        · obtain ⟨ns, hns, hinfix⟩ := ih hms hbody
          exact ⟨ns, hns, hinfix.trans (List.suffix_cons _ _).isInfix⟩

/-- Generation writes some lines for a statement at a depth, whatever the draft it adds them to. -/
def Script.Writes (usesBrightness : Bool) (depth : Nat) (s : Stmt) (ls : List String) : Prop :=
  ∀ d : Draft, d.usesBrightness = usesBrightness → d.indent = depth →
    ∃ d', (Emit.stmt s).run d = .ok ((), d') ∧ d'.body = d.body ++ ls

theorem Script.writes_of_lines {s : Stmt} {b : Bool} {n : Nat} {ls : List Line}
    (h : s.lines b n = .ok ls) : Writes b n s (ls.map Line.render) := by
  rintro d rfl rfl
  refine ⟨d.add (s.demands d.usesBrightness) ls, ?_, by rw [Draft.add_eq]⟩
  rw [Emit.stmt_run, h]
  rfl

/-- A script starts at the left margin, goes one tab further in just after a colon, and does not end
with one. The lines of a statement under some loops and branches start as deep as there are loops
and branches, and none of them lies further out. -/
theorem Script.generate_indentation {forest : Forest} {p : Program} (h : generate forest = .ok p) :
    (∀ l ∈ p.body.head?, leadingTabs l = 0) ∧ p.body.IsChain StepsTo ∧
      (∀ l ∈ p.body.getLast?, endsHeader l = false) ∧
      ∀ k s, Forest.Nests forest k s → ∃ ls,
        Writes (forest.any Stack.setsBrightness) k s ls ∧ ls <:+: p.body ∧
          (∃ first ∈ ls.head?, leadingTabs first = k) ∧ ∀ l ∈ ls, k ≤ leadingTabs l := by
  rw [generate_eq, bind_eq_ok_iff] at h
  obtain ⟨ls, hls, hp⟩ := h
  obtain rfl := Except.ok.inj hp
  obtain ⟨acts, filled, hlayout, -⟩ := Forest.layout hls
  obtain ⟨hchain, hlast⟩ := hlayout.isChain
  have hhead : ∀ l ∈ (ls.map Line.render ++ []).head?, leadingTabs l ≤ 0 :=
    hlayout.head_append_le (by simp)
  rw [List.append_nil] at hhead
  refine ⟨fun l hl => Nat.le_zero.mp (hhead l hl), hchain, hlast, ?_⟩
  rintro k s ⟨x, y, body, hbody, hnests⟩
  obtain ⟨stack, hstack, hinfix⟩ := Forest.lines_infix hls hbody
  obtain ⟨own, hown, hinfix'⟩ := hnests.lines_infix hstack
  rw [Nat.zero_add] at hown
  obtain ⟨hne, hlayout⟩ := Stmt.layout hown
  refine ⟨own.map Line.render, writes_of_lines hown, (hinfix'.trans hinfix).map _, ?_,
    hlayout.le_leadingTabs⟩
  obtain ⟨first, own, rfl⟩ := List.exists_cons_of_ne_nil hne
  exact ⟨first.render, rfl, hlayout.leadingTabs_head hne [] _ rfl⟩

/-- A program that stops the motors on the ports in a variable, in the second branch inside a
loop. -/
def Forest.stopInBranch : Forest :=
  [[.hat none none, .forever [.ifElse (.reading .timer) []
    [.action (.motor (.stop (.ref ⟨"p", "v"⟩)))]], .action (.sound .stop)]]

theorem Script.generate_indentation_stopInBranch :
    ∃ p, generate Forest.stopInBranch = .ok p ∧ p.body.IsChain StepsTo ∧ ∃ ls, ls <:+: p.body ∧
      (∃ first ∈ ls.head?, leadingTabs first = 2) ∧ ∀ l ∈ ls, 2 ≤ leadingTabs l := by
  obtain ⟨p, hp⟩ : ∃ p, generate Forest.stopInBranch = .ok p := ⟨_, rfl⟩
  obtain ⟨-, hchain, -, hnested⟩ := generate_indentation hp
  have hnests : Forest.Nests Forest.stopInBranch 2
      (.action (.motor (.stop (.ref ⟨"p", "v"⟩)))) :=
    ⟨none, none, _, List.mem_cons_self, .inside _ List.mem_cons_self
      (.inside _ (List.mem_cons_of_mem _ List.mem_cons_self) (.here _ _))⟩
  obtain ⟨ls, -, hinfix, hfirst, hdepth⟩ := hnested 2 _ hnests
  exact ⟨p, hp, hchain, ls, hinfix, hfirst, hdepth⟩

end WordBlocks
