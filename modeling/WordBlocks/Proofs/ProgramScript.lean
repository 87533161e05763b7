import WordBlocks.Proofs.ActionScript
import WordBlocks.Script.Program

/-!
Whole scripts without a draft. The body of a script is the concatenation of the lines of its stacks,
statement by statement, where the lines of a statement are a function of the statement, of its depth
and of whether the program sets the brightness of the light matrix. The other sections are what the
first occurrences of the demands bring, in the order in which the nodes of the program are visited.
-/

namespace WordBlocks

open Script

/-- What a statement itself needs, apart from its operands and bodies. -/
def Stmt.needs (usesBrightness : Bool) : Stmt → List Demand
  | action a => a.needs usesBrightness
  | _ => []

/-- What a node itself needs, apart from the nodes below and after it. -/
def Node.needs (usesBrightness : Bool) : Node → List Demand
  | expr e => e.needs
  | stack first _ => first.needs usesBrightness

mutual

/-- The lines of a statement. -/
def Stmt.lines (usesBrightness : Bool) (depth : Nat) : Stmt → Except CompileError (List Line)
  | .hat _ _ => .error (.brokenPromise .hatInsideStack)
  | .action a => do
    let ls ← a.lines usesBrightness depth
    return linesAt depth (a.operands.flatMap Expr.notes) ++ ls
  | .repeatTimes times body => do
    let n ← times.script
    let ls ← Stack.suiteLines usesBrightness (depth + 1) body
    return linesAt depth
      (times.notes ++ [repeatCountNote, "for _ in range(int(" ++ n ++ ")):"]) ++ ls
  | .forever body => do
    let ls ← Stack.suiteLines usesBrightness (depth + 1) body
    return ⟨depth, "while True:"⟩ :: ls
  | .repeatUntil condition body => do
    let c ← condition.script
    let ls ← Stack.suiteLines usesBrightness (depth + 1) body
    return linesAt depth (condition.notes ++ ["while not (" ++ c ++ "):"]) ++ ls
  | .ifThen condition body => do
    let c ← condition.script
    let ls ← Stack.suiteLines usesBrightness (depth + 1) body
    return linesAt depth (condition.notes ++ ["if (" ++ c ++ "):"]) ++ ls
  | .ifElse condition body orElse => do
    let c ← condition.script
    let ls ← Stack.suiteLines usesBrightness (depth + 1) body
    let ms ← Stack.suiteLines usesBrightness (depth + 1) orElse
    return linesAt depth (condition.notes ++ ["if (" ++ c ++ "):"]) ++ ls ++ ⟨depth, "else:"⟩ :: ms

/-- The lines of the statements of a stack, one after the other. -/
def Stack.lines (usesBrightness : Bool) (depth : Nat) :
    List Stmt → Except CompileError (List Line)
  | [] => return []
  | first :: rest => do
    let ls ← first.lines usesBrightness depth
    let ms ← Stack.lines usesBrightness depth rest
    return ls ++ ms

/-- The lines of a body. A body without statements does nothing. -/
def Stack.suiteLines (usesBrightness : Bool) (depth : Nat) :
    List Stmt → Except CompileError (List Line)
  | [] => return [⟨depth, "pass"⟩]
  | first :: rest => do
    let ls ← first.lines usesBrightness depth
    let ms ← Stack.lines usesBrightness depth rest
    return ls ++ ms

end

/-- The comment before a stack that word blocks would run beside another one. -/
def Script.parallelNote : String :=
  placeholderText "when program starts" (some .parallelStacks)

/-- The lines of the stacks of a program. The flag says whether a stack with a hat has come
before. -/
def Forest.lines (usesBrightness : Bool) : (started : Bool) → Forest →
    Except CompileError (List Line)
  | _, [] => return []
  | started, (.hat _ _ :: body) :: rest => do
    let ls ← Stack.lines usesBrightness 0 body
    let ms ← Forest.lines usesBrightness true rest
    return linesAt 0 (if started then [parallelNote] else []) ++ ls ++ ms
  | started, _ :: rest => do
    let ms ← Forest.lines usesBrightness started rest
    return ⟨0, looseStackNote⟩ :: ms

theorem Forest.lines_cons_loose {b started : Bool} {root : Stack} (rest : Forest)
    (h : ∀ x y body, root ≠ .hat x y :: body) :
    Forest.lines b started (root :: rest) =
      Forest.lines b started rest >>= fun ms => pure (⟨0, looseStackNote⟩ :: ms) := by
  rcases root with _ | ⟨first, body⟩
  · rfl
  · cases first with
    | hat x y => exact absurd rfl (h x y body)
    | _ => rfl

theorem Forest.lines_cons_cases {b started : Bool} {root : Stack} {rest : Forest} {ls : List Line}
    (h : Forest.lines b started (root :: rest) = .ok ls) :
    (∃ x y body ls' ms, root = .hat x y :: body ∧ Stack.lines b 0 body = .ok ls' ∧
      Forest.lines b true rest = .ok ms ∧
      linesAt 0 (if started then [parallelNote] else []) ++ ls' ++ ms = ls) ∨
    ∃ ms, (∀ x y body, root ≠ .hat x y :: body) ∧ Forest.lines b started rest = .ok ms ∧
      ⟨0, looseStackNote⟩ :: ms = ls := by
  by_cases hhat : ∃ x y body, root = .hat x y :: body
  · obtain ⟨x, y, body, rfl⟩ := hhat
    simp only [Forest.lines, bind_eq_ok_iff, pure_eq_ok_iff] at h
    obtain ⟨ls', hls, ms, hms, heq⟩ := h
    exact .inl ⟨x, y, body, ls', ms, rfl, hls, hms, heq⟩
  · simp only [not_exists] at hhat
    rw [lines_cons_loose rest hhat] at h
    simp only [bind_eq_ok_iff, pure_eq_ok_iff] at h
    obtain ⟨ms, hms, heq⟩ := h
    exact .inr ⟨ms, hhat, hms, heq⟩

/-- Everything that a stack demands, in the order of the visit. -/
def Stack.demands (usesBrightness : Bool) (s : Stack) : List Demand :=
  (Stack.visited s).flatMap (Node.needs usesBrightness)

/-- Everything that a program demands, in the order of the visit. -/
def Forest.demands (usesBrightness : Bool) (forest : Forest) : List Demand :=
  (Forest.visited forest).flatMap (Node.needs usesBrightness)

/-- Everything that a statement demands, in the order of the visit. -/
def Stmt.demands (usesBrightness : Bool) (s : Stmt) : List Demand :=
  s.needs usesBrightness ++
    (s.operands.flatMap Expr.demands ++ s.bodies.flatMap (Stack.demands usesBrightness))

@[simp] theorem Stack.demands_nil (b : Bool) : Stack.demands b [] = [] := rfl

theorem Stack.demands_cons (b : Bool) (first : Stmt) (rest : Stack) :
    Stack.demands b (first :: rest) = first.demands b ++ Stack.demands b rest := by
  have hoperands : ((first.operands.flatMap Expr.visited).map Node.expr).flatMap (Node.needs b) =
      first.operands.flatMap Expr.demands := by
    rw [List.flatMap_map, List.flatMap_assoc]
    rfl
  have hbodies : (first.bodies.flatMap Stack.visited).flatMap (Node.needs b) =
      first.bodies.flatMap (Stack.demands b) := List.flatMap_assoc
  unfold Stack.demands Stmt.demands
  rw [Stack.visited_cons, List.flatMap_cons, List.flatMap_append, List.flatMap_append, hoperands,
    hbodies]
  simp [Node.needs]

theorem Forest.demands_cons_hat (b : Bool) (x y : Option Binary64) (body : Stack)
    (rest : Forest) : Forest.demands b ((.hat x y :: body) :: rest) =
      Stack.demands b body ++ Forest.demands b rest := by
  rw [Forest.demands, Forest.visited_cons_hat, List.flatMap_append]
  rfl

theorem Forest.demands_cons_loose (b : Bool) {root : Stack} (rest : Forest)
    (h : ∀ x y body, root ≠ .hat x y :: body) :
    Forest.demands b (root :: rest) = Forest.demands b rest := by
  rw [Forest.demands, Forest.visited_cons_loose rest h]
  rfl

namespace Script.Emit

-- By recursion on the program. Drafts compose along `++` (`Draft.add_add`), so that a case only has
-- to list demands in the order of the visit and lines in the order of emission, which may differ.

mutual

theorem stmt_run (s : Stmt) (d : Draft) :
    (stmt s).run d = s.lines d.usesBrightness d.indent >>= fun ls =>
      pure ((), d.add (s.demands d.usesBrightness) ls) := by
  cases s with
  | hat x y => simp [stmt, Stmt.lines]
  | action a =>
      simp [stmt, Stmt.lines, action_run, Stmt.demands, Stmt.needs, Stmt.operands, Stmt.bodies]
  | forever body | repeatTimes _ body | repeatUntil _ body | ifThen _ body =>
      simp [stmt, Stmt.lines, suite_run body, Stmt.demands, Stmt.needs, Stmt.operands, Stmt.bodies]
  | ifElse condition body orElse =>
      simp [stmt, Stmt.lines, suite_run body, suite_run orElse, Stmt.demands, Stmt.needs,
        Stmt.operands, Stmt.bodies]

theorem stack_run (s : List Stmt) (d : Draft) :
    (stack s).run d = Stack.lines d.usesBrightness d.indent s >>= fun ls =>
      pure ((), d.add (Stack.demands d.usesBrightness s) ls) := by
  cases s with
  | nil => simp [stack, Stack.lines]
  | cons first rest =>
      simp [stack, Stack.lines, stmt_run first, stack_run rest, Stack.demands_cons]

theorem suite_run (s : List Stmt) (d : Draft) :
    (suite s).run d = Stack.suiteLines d.usesBrightness (d.indent + 1) s >>= fun ls =>
      pure ((), d.add (Stack.demands d.usesBrightness s) ls) := by
  cases s with
  | nil => simp [suite, Stack.suiteLines]
  | cons first rest =>
      simp [suite, Stack.suiteLines, stmt_run first, stack_run rest, Stack.demands_cons]

end

theorem roots_run (started : Bool) (forest : Forest) (d : Draft) (h : d.indent = 0) :
    (roots started forest).run d = Forest.lines d.usesBrightness started forest >>= fun ls =>
      pure ((), d.add (Forest.demands d.usesBrightness forest) ls) := by
  induction forest generalizing started d with
  | nil => simp [roots, Forest.lines, Forest.demands, Forest.visited]
  | cons root rest ih =>
      unfold roots
      split
      · rename_i x y body
        rw [Forest.demands_cons_hat]
        cases started <;>
          simp [Forest.lines, stack_run, ih, h, parallelNote]
      · rename_i hloose
        rw [Forest.demands_cons_loose _ _ hloose]
        simp [Forest.lines, ih, h]

end Script.Emit

/-- Whether a node is a statement that sets the brightness of the light matrix. -/
def Node.setsBrightness : Node → Bool
  | stack (.action (.light (.setBrightness _))) _ => true
  | _ => false

mutual

theorem Stmt.setsBrightness_eq (s : Stmt) (rest : Stack) :
    s.setsBrightness = ((Node.stack s rest).setsBrightness ||
      (s.bodies.flatMap Stack.visited).any Node.setsBrightness) := by
  cases s with
  | hat x y => rfl
  | action a =>
      simp only [Stmt.setsBrightness, Stmt.bodies, List.flatMap_nil, List.any_nil, Bool.or_false]
      rcases a with _ | _ | _ | (_ | _ | _ | _ | _ | _ | _ | _) | _ | _ | _ | _ | _ | _ <;> rfl
  | forever body | repeatTimes _ body | repeatUntil _ body | ifThen _ body =>
      simp [Stmt.setsBrightness, Stmt.bodies, Node.setsBrightness, Stack.setsBrightness_eq body]
  | ifElse _ body orElse =>
      simp [Stmt.setsBrightness, Stmt.bodies, Node.setsBrightness, Stack.setsBrightness_eq body,
        Stack.setsBrightness_eq orElse]

theorem Stack.setsBrightness_eq (s : List Stmt) :
    Stack.setsBrightness s = (Stack.visited s).any Node.setsBrightness := by
  cases s with
  | nil => rfl
  | cons first rest =>
      have hexprs : ((first.operands.flatMap Expr.visited).map Node.expr).any Node.setsBrightness =
          false := by
        simp [List.any_map, Node.setsBrightness]
      rw [Stack.visited_cons, Stack.setsBrightness, Stmt.setsBrightness_eq first rest,
        Stack.setsBrightness_eq rest, List.any_cons, List.any_append, List.any_append, hexprs,
        Bool.false_or, Bool.or_assoc]

end

/-- A script from its lines and its demands. -/
def Script.assemble (qs : List Demand) (ls : List Line) : Program where
  preamble := importLines ++ String.join ((Demand.firstOccurrences qs).map (·.imports))
  declarations := (Demand.firstOccurrences qs).flatMap (·.declarations)
  functions := (Demand.firstOccurrences qs).flatMap (·.functions)
  body := ls.map Line.render

theorem Script.generate_eq (forest : Forest) :
    generate forest =
      Forest.lines (forest.any Stack.setsBrightness) false forest >>= fun ls =>
        pure (assemble (Forest.demands (forest.any Stack.setsBrightness) forest) ls) := by
  simp [generate, Emit.roots_run, Draft.empty, Draft.add_eq, Draft.finish, assemble]

/-- Whether a node is a random number. -/
def Node.isRandom : Node → Bool
  | expr (.binary .random _ _) => true
  | _ => false

/-- A demand that imports nothing. -/
structure Script.Demand.ImportsNothing (q : Demand) : Prop where
  symbol_ne : q.symbol ≠ .randomImport
  imports_eq : q.imports = ""

theorem Script.Demand.object_importsNothing (name : String) (texts : List String) :
    (object name texts).ImportsNothing :=
  ⟨by simp [object], rfl⟩

theorem Script.Demand.patternDemands_importNothing (b : Bool) :
    ∀ q ∈ patternDemands b, q.ImportsNothing := by
  have hpattern : pattern.ImportsNothing := ⟨by simp [pattern], rfl⟩
  cases b <;> simp [patternDemands, hpattern, object_importsNothing, hub, brightness]

theorem Expr.devices_importNothing (d : Device) (e : Expr) :
    ∀ q ∈ e.devices d, q.ImportsNothing := by
  intro q hq
  unfold devices at hq
  split at hq
  · obtain ⟨c, -, rfl⟩ := List.mem_map.mp hq
    exact Demand.object_importsNothing _ _
  · simp at hq

theorem Action.needs_importNothing (b : Bool) (a : Action) :
    ∀ q ∈ a.needs b, q.ImportsNothing := by
  cases a with
  | data a =>
      have hlist : ∀ name, (Demand.list name).ImportsNothing := by
        intro name
        exact ⟨by simp [Demand.list], rfl⟩
      cases a <;> simp [needs, DataAction.needs, hlist]
  | motor a => exact Expr.devices_importNothing _ _
  | movement a => simp [needs, Demand.motorPair, Demand.object_importsNothing]
  | light a =>
      cases a with
      | displayFor _ _ | display _ | setBrightness _ =>
          exact Demand.patternDemands_importNothing b
      | write _ | off | setPixel _ _ _ | setButton _ =>
          simp [needs, LightAction.needs, Demand.hub, Demand.object_importsNothing]
      | lightSensor port _ => exact Expr.devices_importNothing _ _
  | sound a =>
      cases a <;>
        simp [needs, SoundAction.needs, Demand.app, Demand.hub, Demand.object_importsNothing]
  | resetTimer => simp [needs, Demand.timer, Demand.object_importsNothing]
  | resetYaw => simp [needs, Demand.hub, Demand.object_importsNothing]
  | wait _ | waitUntil _ | placeholder _ _ => simp [needs]

theorem Node.needs_imports (b : Bool) (n : Node) :
    n.isRandom = true ∧ n.needs b = [.random] ∨
      n.isRandom = false ∧ ∀ q ∈ n.needs b, q.ImportsNothing := by
  cases n with
  | stack first rest =>
      refine .inr ⟨rfl, ?_⟩
      cases first with
      | action a => exact Action.needs_importNothing b a
      | _ => simp [needs, Stmt.needs]
  | expr e =>
      cases e with
      | binary op _ _ => cases op <;> simp [needs, Expr.needs, isRandom]
      | reading r =>
          refine .inr ⟨rfl, ?_⟩
          cases r <;> simp [needs, Expr.needs, Reading.demand, Demand.hub, Demand.timer,
            Demand.object_importsNothing]
      | device _ _ | deviceTest _ _ _ => exact .inr ⟨rfl, Expr.devices_importNothing _ _⟩
      | _ => exact .inr ⟨rfl, by simp [needs, Expr.needs]⟩

namespace Script.Demand

theorem mem_of_mem_firstOccurrences {q : Demand} {qs : List Demand}
    (h : q ∈ firstOccurrences qs) : q ∈ qs := by
  induction qs with
  | nil => exact h
  | cons r rs ih =>
      rcases List.mem_cons.mp h with rfl | h
      · exact List.mem_cons_self
      · exact List.mem_cons_of_mem _ (ih (List.mem_filter.mp h).1)

theorem exists_mem_firstOccurrences {q : Demand} {qs : List Demand} (h : q ∈ qs) :
    ∃ r ∈ firstOccurrences qs, r.symbol = q.symbol := by
  induction qs with
  | nil => cases h
  | cons r rs ih =>
      by_cases heq : r.symbol = q.symbol
      · exact ⟨r, List.mem_cons_self, heq⟩
      · rcases List.mem_cons.mp h with rfl | h
        · exact absurd rfl heq
        · obtain ⟨s, hs, hsymbol⟩ := ih h
          refine ⟨s, List.mem_cons_of_mem _ (List.mem_filter.mpr ⟨hs, ?_⟩), hsymbol⟩
          simpa [hsymbol] using Ne.symm heq

theorem pairwise_firstOccurrences (qs : List Demand) :
    (firstOccurrences qs).Pairwise (·.symbol ≠ ·.symbol) := by
  induction qs with
  | nil => exact .nil
  | cons q qs ih =>
      refine .cons ?_ (ih.filter _)
      intro r hr
      simpa using Ne.symm (of_decide_eq_true (List.mem_filter.mp hr).2)

/-- What only one demand contributes is there once, if anything demands it. -/
theorem flatMap_firstOccurrences {α : Type} {f : Demand → List α} {q : Demand} {qs : List Demand}
    (h : ∀ r ∈ qs, r = q ∨ r.symbol ≠ q.symbol ∧ f r = []) :
    (firstOccurrences qs).flatMap f = if q ∈ qs then f q else [] := by
  have hcases : ∀ r ∈ firstOccurrences qs, r = q ∨ r.symbol ≠ q.symbol ∧ f r = [] :=
    fun r hr => h r (mem_of_mem_firstOccurrences hr)
  -- Other demands than the first one for the symbol contribute nothing.
  have hother : ∀ r ∈ firstOccurrences qs, r.symbol ≠ q.symbol → f r = [] := by
    intro r hr hne
    rcases hcases r hr with rfl | ⟨-, hnone⟩
    · exact absurd rfl hne
    · exact hnone
  split
  · next hq =>
      obtain ⟨r, hr, hsymbol⟩ := exists_mem_firstOccurrences hq
      obtain rfl : r = q := (hcases r hr).resolve_right fun hne => hne.1 hsymbol
      obtain ⟨before, after, heq⟩ := List.append_of_mem hr
      have hpairwise := pairwise_firstOccurrences qs
      rw [heq, List.pairwise_append, List.pairwise_cons] at hpairwise
      obtain ⟨-, ⟨hafter, -⟩, hbefore⟩ := hpairwise
      have hbeforeNil : before.flatMap f = [] :=
        List.flatMap_eq_nil_iff.mpr fun s hs =>
          hother s (heq ▸ List.mem_append_left _ hs) (hbefore s hs r List.mem_cons_self)
      have hafterNil : after.flatMap f = [] :=
        List.flatMap_eq_nil_iff.mpr fun s hs =>
          hother s (heq ▸ List.mem_append_right _ (List.mem_cons_of_mem _ hs)) (hafter s hs).symm
      rw [heq, List.flatMap_append, List.flatMap_cons, hbeforeNil, hafterNil, List.nil_append,
        List.append_nil]
  · next hq =>
      refine List.flatMap_eq_nil_iff.mpr fun r hr => ?_
      rcases hcases r hr with rfl | ⟨-, hnone⟩
      · exact absurd (mem_of_mem_firstOccurrences hr) hq
      · exact hnone

theorem join_imports_firstOccurrences {qs : List Demand}
    (h : ∀ q ∈ qs, q = random ∨ q.ImportsNothing) :
    String.join ((firstOccurrences qs).map (·.imports)) =
      if random ∈ qs then randomImportLine else "" := by
  have hchars : (firstOccurrences qs).flatMap (·.imports.toList) =
      if random ∈ qs then random.imports.toList else [] := by
    refine flatMap_firstOccurrences fun q hq => (h q hq).imp_right fun hnothing => ?_
    exact ⟨hnothing.symbol_ne, by simp [hnothing.imports_eq]⟩
  apply String.toList_inj.mp
  rw [String.toList_join, List.flatMap_map, hchars]
  split <;> rfl

end Script.Demand

theorem Forest.demands_imports (b : Bool) (forest : Forest) :
    ∀ q ∈ Forest.demands b forest, q = .random ∨ q.ImportsNothing := by
  intro q h
  obtain ⟨n, -, hq⟩ := List.mem_flatMap.mp h
  rcases Node.needs_imports b n with ⟨-, hn⟩ | ⟨-, hn⟩
  · exact .inl (by simpa [hn] using hq)
  · exact .inr (hn q hq)

theorem Forest.random_mem_demands_iff (b : Bool) (forest : Forest) :
    Demand.random ∈ Forest.demands b forest ↔ (Forest.visited forest).any Node.isRandom = true := by
  rw [List.any_eq_true, Forest.demands, List.mem_flatMap]
  constructor
  · rintro ⟨n, hn, hq⟩
    refine ⟨n, hn, ?_⟩
    rcases Node.needs_imports b n with ⟨hr, -⟩ | ⟨-, hn⟩
    · exact hr
    · exact absurd rfl (hn _ hq).symbol_ne
  · rintro ⟨n, hn, hr⟩
    refine ⟨n, hn, ?_⟩
    rcases Node.needs_imports b n with ⟨-, hn⟩ | ⟨hr', -⟩
    · simp [hn]
    · simp [hr] at hr'

/-- Generation is a function of the statements, their depth and the brightness flag alone. The body
is the concatenation of the lines of the stacks; the declarations are those of the first
occurrences among the demands of the visited nodes; and the random import is there once, exactly
when a random number is visited. -/
theorem Script.generate_eq_stateless (forest : Forest) :
    generate forest = do
      let usesBrightness := forest.any Stack.setsBrightness
      let ls ← Forest.lines usesBrightness false forest
      let demands := (Forest.visited forest).flatMap (Node.needs usesBrightness)
      return {
        preamble := importLines ++
          if (Forest.visited forest).any Node.isRandom then randomImportLine else ""
        declarations := (Demand.firstOccurrences demands).flatMap (·.declarations)
        functions := (Demand.firstOccurrences demands).flatMap (·.functions)
        body := ls.map Line.render } := by
  have himports := Demand.join_imports_firstOccurrences
    (Forest.demands_imports (forest.any Stack.setsBrightness) forest)
  rw [generate_eq]
  simp only [assemble, himports, Forest.random_mem_demands_iff]
  rfl

end WordBlocks
