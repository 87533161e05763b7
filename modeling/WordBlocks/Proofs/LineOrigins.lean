import WordBlocks.Proofs.LineShape
import WordBlocks.Proofs.ProgramScript

/-!
Where the lines of a script come from. A line is a note, or a statement that is visited has written
it: what holds of the lines of each visited statement holds of all lines of a script, at any depth.
-/

namespace WordBlocks

open Script

theorem Stack.visited_rest_subset (first : Stmt) (rest : Stack) :
    Stack.visited rest ⊆ Stack.visited (first :: rest) := by
  intro m hm
  rw [Stack.visited_cons]
  exact List.mem_cons_of_mem _ (List.mem_append_right _ hm)

theorem Stack.visited_body_subset {first : Stmt} (rest : Stack) {body : Stack}
    (h : body ∈ first.bodies) : Stack.visited body ⊆ Stack.visited (first :: rest) := by
  intro m hm
  rw [Stack.visited_cons]
  refine List.mem_cons_of_mem _ (List.mem_append_left _ (List.mem_append_right _ ?_))
  exact List.mem_flatMap.mpr ⟨body, h, hm⟩

theorem Stack.stack_mem_visited (first : Stmt) (rest : Stack) :
    .stack first rest ∈ Stack.visited (first :: rest) := by
  rw [Stack.visited_cons]
  exact List.mem_cons_self

namespace Script

/-- What stands around the operand of a statement in the line before its body. -/
def headerMarks : List (String × String) :=
  [("for _ in range(int(", ")):"), ("while not (", "):"), ("if (", "):")]

/-- The lines before bodies without an operand, and the line of an empty body. -/
def bareLines : List String :=
  ["while True:", "else:", "pass"]

/-- What a line of a script comes from, among some nodes of the program. -/
inductive Line.Origin (b : Bool) (nodes : List Node) : Line → Prop where
  | note {l : Line} (h : startsNote l.text = true) : Origin b nodes l
  | bare {l : Line} (h : l.text ∈ bareLines) : Origin b nodes l
  | action {a : Action} {rest : Stack} {n : Nat} {ls : List Line} {l : Line}
      (hnode : .stack (.action a) rest ∈ nodes) (hlines : a.lines b n = .ok ls) (h : l ∈ ls) :
      Origin b nodes l
  | header {s : Stmt} {rest : Stack} {e : Expr} {n : Nat} {t opening closing : String}
      (hnode : .stack s rest ∈ nodes) (hbodies : s.bodies ≠ []) (he : e ∈ s.operands)
      (ht : e.script = .ok t) (hmarks : (opening, closing) ∈ headerMarks) :
      Origin b nodes ⟨n, opening ++ t ++ closing⟩

namespace Line.Origin

variable {b : Bool} {nodes nodes' : List Node}

theorem mono {l : Line} (h : l.Origin b nodes) (hsubset : nodes ⊆ nodes') : l.Origin b nodes' := by
  cases h with
  | note h => exact .note h
  | bare h => exact .bare h
  | action hnode hlines h => exact .action (hsubset hnode) hlines h
  | header hnode hbodies he ht hmarks => exact .header (hsubset hnode) hbodies he ht hmarks

theorem notes (n : Nat) (es : List Expr) :
    ∀ l ∈ linesAt n (es.flatMap Expr.notes), l.Origin b nodes := by
  intro l hl
  obtain ⟨t, ht, rfl⟩ := List.mem_map.mp hl
  obtain ⟨e, -, ht⟩ := List.mem_flatMap.mp ht
  rw [Expr.eq_keyNote_of_mem_notes ht]
  exact .note (placeholderText_shape _ _).1

theorem operand {s : Stmt} {rest : Stack} {e : Expr} {t opening closing : String}
    (hnode : .stack s rest ∈ nodes) (hbodies : s.bodies ≠ []) (he : e ∈ s.operands)
    (ht : e.script = .ok t) (hmarks : (opening, closing) ∈ headerMarks) (fixed : List String)
    (hfixed : ∀ note ∈ fixed, note ∈ fixedNotes) (n : Nat) :
    ∀ l ∈ linesAt n (e.notes ++ (fixed ++ [opening ++ t ++ closing])), l.Origin b nodes := by
  have hnotes : ∀ l ∈ linesAt n ([e].flatMap Expr.notes), l.Origin b nodes := notes n [e]
  rw [List.flatMap_cons, List.flatMap_nil, List.append_nil] at hnotes
  simp only [linesAt_append, List.forall_mem_append]
  refine ⟨hnotes, ?_, List.forall_mem_singleton.mpr (.header hnode hbodies he ht hmarks)⟩
  exact List.forall_mem_map.mpr fun note hnote =>
    .note (fixedNotes_shape note (hfixed note hnote)).1

end Line.Origin

end Script

mutual

theorem Stmt.lines_origin {s : Stmt} {b : Bool} {n : Nat} {ls : List Line}
    (h : s.lines b n = .ok ls) (rest : Stack) :
    ∀ l ∈ ls, l.Origin b (Stack.visited (s :: rest)) := by
  have hnode := Stack.stack_mem_visited s rest
  have hsuite {body : Stack} {ls : List Line} (hbody : body ∈ s.bodies)
      (hls : ∀ l ∈ ls, l.Origin b (Stack.visited body)) :
      ∀ l ∈ ls, l.Origin b (Stack.visited (s :: rest)) :=
    fun l hl => (hls l hl).mono (Stack.visited_body_subset rest hbody)
  cases s with
  | hat x y => cases h
  | action a =>
      simp only [Stmt.lines, bind_eq_ok_iff, pure_eq_ok_iff] at h
      obtain ⟨ls, hls, rfl⟩ := h
      exact List.forall_mem_append.mpr ⟨.notes n _, fun l hl => .action hnode hls hl⟩
  | repeatTimes times body =>
      simp only [Stmt.lines, bind_eq_ok_iff, pure_eq_ok_iff] at h
      obtain ⟨t, ht, ls, hls, rfl⟩ := h
      refine List.forall_mem_append.mpr
        ⟨?_, hsuite List.mem_cons_self (Stack.suiteLines_origin hls)⟩
      exact .operand hnode (by simp [Stmt.bodies]) List.mem_cons_self ht (by simp [headerMarks])
        [repeatCountNote] (by simp [fixedNotes]) n
  | forever body =>
      simp only [Stmt.lines, bind_eq_ok_iff, pure_eq_ok_iff] at h
      obtain ⟨ls, hls, rfl⟩ := h
      exact List.forall_mem_cons.mpr
        ⟨.bare (by simp [bareLines]), hsuite List.mem_cons_self (Stack.suiteLines_origin hls)⟩
  | repeatUntil condition body | ifThen condition body =>
      simp only [Stmt.lines, bind_eq_ok_iff, pure_eq_ok_iff] at h
      obtain ⟨t, ht, ls, hls, rfl⟩ := h
      refine List.forall_mem_append.mpr
        ⟨?_, hsuite List.mem_cons_self (Stack.suiteLines_origin hls)⟩
      exact .operand hnode (by simp [Stmt.bodies]) List.mem_cons_self ht (by simp [headerMarks])
        [] (List.forall_mem_nil _) n
  | ifElse condition body orElse =>
      simp only [Stmt.lines, bind_eq_ok_iff, pure_eq_ok_iff] at h
      obtain ⟨t, ht, ls, hls, ms, hms, rfl⟩ := h
      refine List.forall_mem_append.mpr ⟨List.forall_mem_append.mpr ⟨?_, ?_⟩,
        List.forall_mem_cons.mpr ⟨.bare (by simp [bareLines]), ?_⟩⟩
      · exact .operand hnode (by simp [Stmt.bodies]) List.mem_cons_self ht (by simp [headerMarks])
          [] (List.forall_mem_nil _) n
      · exact hsuite List.mem_cons_self (Stack.suiteLines_origin hls)
      · exact hsuite (List.mem_cons_of_mem _ List.mem_cons_self) (Stack.suiteLines_origin hms)

theorem Stack.lines_origin {s : List Stmt} {b : Bool} {n : Nat} {ls : List Line}
    (h : Stack.lines b n s = .ok ls) : ∀ l ∈ ls, l.Origin b (Stack.visited s) := by
  cases s with
  | nil =>
      obtain rfl := Except.ok.inj h
      exact List.forall_mem_nil _
  | cons first rest =>
      simp only [Stack.lines, bind_eq_ok_iff, pure_eq_ok_iff] at h
      obtain ⟨ls, hls, ms, hms, rfl⟩ := h
      refine List.forall_mem_append.mpr ⟨Stmt.lines_origin hls rest, fun l hl => ?_⟩
      exact (Stack.lines_origin hms l hl).mono (Stack.visited_rest_subset first rest)

theorem Stack.suiteLines_origin {s : List Stmt} {b : Bool} {n : Nat} {ls : List Line}
    (h : Stack.suiteLines b n s = .ok ls) : ∀ l ∈ ls, l.Origin b (Stack.visited s) := by
  cases s with
  | nil =>
      obtain rfl := Except.ok.inj h
      exact List.forall_mem_singleton.mpr (.bare (by simp [bareLines]))
  | cons first rest =>
      simp only [Stack.suiteLines, bind_eq_ok_iff, pure_eq_ok_iff] at h
      obtain ⟨ls, hls, ms, hms, rfl⟩ := h
      refine List.forall_mem_append.mpr ⟨Stmt.lines_origin hls rest, fun l hl => ?_⟩
      exact (Stack.lines_origin hms l hl).mono (Stack.visited_rest_subset first rest)

end

/-- Every line of a script is a note, or a visited statement has written it. -/
theorem Forest.lines_origin {forest : Forest} {b started : Bool} {ls : List Line}
    (h : Forest.lines b started forest = .ok ls) :
    ∀ l ∈ ls, l.Origin b (Forest.visited forest) := by
  induction forest generalizing started ls with
  | nil =>
      obtain rfl := Except.ok.inj h
      exact List.forall_mem_nil _
  | cons root rest ih =>
      rcases Forest.lines_cons_cases h with
        ⟨x, y, body, ls, ms, rfl, hls, hms, rfl⟩ | ⟨ms, hloose, hms, rfl⟩
      · rw [Forest.visited_cons_hat]
        refine List.forall_mem_append.mpr ⟨List.forall_mem_append.mpr ⟨?_, ?_⟩, ?_⟩
        · refine List.forall_mem_map.mpr fun t ht => .note ?_
          split at ht
          · rw [List.mem_singleton.mp ht]
            exact (placeholderText_shape _ _).1
          · cases ht
        · exact fun l hl => (Stack.lines_origin hls l hl).mono (List.subset_append_left _ _)
        · exact fun l hl => (ih hms l hl).mono (List.subset_append_right _ _)
      · rw [Forest.visited_cons_loose rest hloose]
        refine List.forall_mem_cons.mpr ⟨.note ?_, ih hms⟩
        exact (fixedNotes_shape looseStackNote (by simp [fixedNotes])).1

theorem Forest.setsBrightness_of_mem_visited {forest : Forest} {e : Expr} {rest : Stack}
    (h : .stack (.action (.light (.setBrightness e))) rest ∈ Forest.visited forest) :
    forest.any Stack.setsBrightness = true := by
  obtain ⟨root, hroot, h⟩ := List.mem_flatMap.mp h
  refine List.any_eq_true.mpr ⟨root, hroot, ?_⟩
  split at h
  · rw [Stack.setsBrightness, Stack.setsBrightness_eq, List.any_eq_true.mpr ⟨_, h, rfl⟩,
      Bool.or_true]
  · cases h

end WordBlocks
