import WordBlocks.Proofs.Faults
import WordBlocks.Proofs.KnownDemands

/-!
Stacks without a hat. Such a stack never runs, and a script has a note in its place. Two programs
with the same stacks that run have the same script or the same error, with one exception: whether
patterns are shown with a variable brightness is a flag of the whole program, and a stack that never
runs can set it (`generate_eq_iff_of_live_eq`).
-/

namespace WordBlocks

open Script

theorem Stack.hat_cases (s : Stack) :
    (∃ x y body, s = .hat x y :: body) ∨ s.hasHat = false ∧ ∀ x y body, s ≠ .hat x y :: body := by
  rcases s with _ | ⟨first, rest⟩
  · exact .inr ⟨rfl, by simp⟩
  · cases first with
    | hat x y => exact .inl ⟨x, y, rest, rfl⟩
    | _ => exact .inr ⟨rfl, by simp⟩

namespace Forest

/-- The stacks of a program that run, each at its position. -/
def live (forest : Forest) : List (Option Stack) :=
  forest.map fun s => if s.hasHat then some s else none

/-- Whether a stack that never runs sets the brightness of the light matrix. -/
def looseSetsBrightness (forest : Forest) : Bool :=
  forest.any fun s => !s.hasHat && Stack.setsBrightness s

theorem looseSetsBrightness_cons (s : Stack) (f : Forest) :
    Forest.looseSetsBrightness (s :: f) =
      (!s.hasHat && Stack.setsBrightness s || f.looseSetsBrightness) :=
  List.any_cons

theorem live_cons_cases {s : Stack} {f g : Forest} (h : Forest.live (s :: f) = g.live) :
    ∃ (t : Stack) (g' : Forest), g = t :: g' ∧ f.live = g'.live ∧
      (s = t ∨ (∀ x y body, s ≠ .hat x y :: body) ∧ ∀ x y body, t ≠ .hat x y :: body) := by
  cases g with
  | nil => cases h
  | cons t g' =>
      obtain ⟨hhead, htail⟩ := List.cons.inj h
      refine ⟨t, g', rfl, htail, ?_⟩
      rcases s.hat_cases with ⟨x, y, body, rfl⟩ | ⟨hs, hloose⟩ <;>
        rcases t.hat_cases with ⟨x', y', body', rfl⟩ | ⟨ht, hloose'⟩
      · exact .inl (Option.some.inj hhead)
      · simp only [ht] at hhead
        cases hhead
      · simp only [hs] at hhead
        cases hhead
      · exact .inr ⟨hloose, hloose'⟩

theorem lines_eq_of_live_eq {f g : Forest} (h : f.live = g.live) (b started : Bool) :
    Forest.lines b started f = Forest.lines b started g := by
  induction f generalizing g started with
  | nil =>
      obtain rfl := List.map_eq_nil_iff.mp h.symm
      rfl
  | cons s f ih =>
      obtain ⟨t, g, rfl, htail, rfl | ⟨hs, ht⟩⟩ := live_cons_cases h
      · rcases s.hat_cases with ⟨x, y, body, rfl⟩ | ⟨-, hs⟩
        · rw [Forest.lines, Forest.lines, ih htail]
        · rw [lines_cons_loose f hs, lines_cons_loose g hs, ih htail]
      · rw [lines_cons_loose f hs, lines_cons_loose g ht, ih htail]

theorem visited_eq_of_live_eq {f g : Forest} (h : f.live = g.live) :
    Forest.visited f = Forest.visited g := by
  induction f generalizing g with
  | nil =>
      obtain rfl := List.map_eq_nil_iff.mp h.symm
      rfl
  | cons s f ih =>
      obtain ⟨t, g, rfl, htail, rfl | ⟨hs, ht⟩⟩ := live_cons_cases h
      · rcases s.hat_cases with ⟨x, y, body, rfl⟩ | ⟨-, hs⟩
        · rw [visited_cons_hat, visited_cons_hat, ih htail]
        · rw [visited_cons_loose f hs, visited_cons_loose g hs, ih htail]
      · rw [visited_cons_loose f hs, visited_cons_loose g ht, ih htail]

theorem any_setsBrightness_eq (f : Forest) :
    f.any Stack.setsBrightness =
      ((Forest.visited f).any Node.setsBrightness || f.looseSetsBrightness) := by
  induction f with
  | nil => rfl
  | cons s f ih =>
      rw [List.any_cons, ih, looseSetsBrightness_cons]
      rcases s.hat_cases with ⟨x, y, body, rfl⟩ | ⟨hhat, hs⟩
      · rw [visited_cons_hat, List.any_append, ← Stack.setsBrightness_eq, Bool.or_assoc]
        rfl
      · rw [visited_cons_loose f hs, hhat, Bool.or_left_comm]
        rfl

end Forest

/-- Whether a node is a statement that shows a pattern on the light matrix. -/
def Node.showsPattern : Node → Bool
  | stack (.action (.light (.display _))) _ | stack (.action (.light (.displayFor _ _))) _ => true
  | _ => false

theorem Action.lines_eq_of_not_showsPattern {a : Action} {rest : Stack}
    (h : (Node.stack (.action a) rest).showsPattern = false) (b b' : Bool) (depth : Nat) :
    a.lines b depth = a.lines b' depth := by
  cases a with
  | light a =>
      cases a with
      | display _ | displayFor _ _ => cases h
      | _ => rfl
  | _ => rfl

mutual

theorem Stmt.lines_eq_of_not_showsPattern (s : Stmt) (b b' : Bool) (depth : Nat) {rest : Stack}
    (h : (Node.stack s rest).showsPattern = false)
    (hbodies : ∀ body ∈ s.bodies, ∀ n ∈ Stack.visited body, n.showsPattern = false) :
    s.lines b depth = s.lines b' depth := by
  cases s with
  | hat x y => rfl
  | action a => rw [Stmt.lines, Stmt.lines, a.lines_eq_of_not_showsPattern h b b' depth]
  | forever body | repeatTimes _ body | repeatUntil _ body | ifThen _ body =>
      have hbody := hbodies body List.mem_cons_self
      rw [Stmt.lines, Stmt.lines,
        Stack.suiteLines_eq_of_not_showsPattern body b b' (depth + 1) hbody]
  | ifElse _ body orElse =>
      have hbody := hbodies body List.mem_cons_self
      have horElse := hbodies orElse (List.mem_cons_of_mem _ List.mem_cons_self)
      rw [Stmt.lines, Stmt.lines,
        Stack.suiteLines_eq_of_not_showsPattern body b b' (depth + 1) hbody,
        Stack.suiteLines_eq_of_not_showsPattern orElse b b' (depth + 1) horElse]

theorem Stack.lines_eq_of_not_showsPattern (s : List Stmt) (b b' : Bool) (depth : Nat)
    (h : ∀ n ∈ Stack.visited s, n.showsPattern = false) :
    Stack.lines b depth s = Stack.lines b' depth s := by
  cases s with
  | nil => rfl
  | cons first rest =>
      obtain ⟨hfirst, hbodies, hrest⟩ := (Stack.forall_mem_visited_cons (fun _ => rfl) _ _).mp h
      rw [Stack.lines, Stack.lines,
        Stmt.lines_eq_of_not_showsPattern first b b' depth hfirst hbodies,
        Stack.lines_eq_of_not_showsPattern rest b b' depth hrest]

theorem Stack.suiteLines_eq_of_not_showsPattern (s : List Stmt) (b b' : Bool) (depth : Nat)
    (h : ∀ n ∈ Stack.visited s, n.showsPattern = false) :
    Stack.suiteLines b depth s = Stack.suiteLines b' depth s := by
  cases s with
  | nil => rfl
  | cons first rest =>
      obtain ⟨hfirst, hbodies, hrest⟩ := (Stack.forall_mem_visited_cons (fun _ => rfl) _ _).mp h
      rw [Stack.suiteLines, Stack.suiteLines,
        Stmt.lines_eq_of_not_showsPattern first b b' depth hfirst hbodies,
        Stack.lines_eq_of_not_showsPattern rest b b' depth hrest]

end

theorem Forest.lines_eq_of_not_showsPattern {f : Forest}
    (h : ∀ n ∈ Forest.visited f, n.showsPattern = false) (b b' started : Bool) :
    Forest.lines b started f = Forest.lines b' started f := by
  induction f generalizing started with
  | nil => rfl
  | cons s f ih =>
      rcases s.hat_cases with ⟨x, y, body, rfl⟩ | ⟨-, hs⟩
      · rw [visited_cons_hat, List.forall_mem_append] at h
        rw [Forest.lines, Forest.lines, Stack.lines_eq_of_not_showsPattern body b b' 0 h.1, ih h.2]
      · rw [visited_cons_loose f hs] at h
        rw [lines_cons_loose f hs, lines_cons_loose f hs, ih h]

/-- Whether a node is a statement on patterns: it shows one or sets the brightness of all of them.
-/
def Node.usesPattern (n : Node) : Bool :=
  n.showsPattern || n.setsBrightness

theorem Node.needs_eq {n : Node} (h : n.usesPattern = false) (b b' : Bool) :
    n.needs b = n.needs b' := by
  cases n with
  | expr e => rfl
  | stack first rest =>
      cases first with
      | action a =>
          cases a with
          | light a =>
              cases a with
              | display _ | displayFor _ _ | setBrightness _ => cases h
              | _ => rfl
          | _ => rfl
      | _ => rfl

theorem Node.needs_of_usesPattern {n : Node} (h : n.usesPattern = true) (b : Bool) :
    n.needs b = Demand.patternDemands b := by
  rcases Bool.or_eq_true_iff.mp h with h | h
  · unfold showsPattern at h
    split at h
    · rfl
    · rfl
    · cases h
  · unfold setsBrightness at h
    split at h
    · rfl
    · cases h

theorem Expr.pattern_notMem_devices (d : Device) (e : Expr) : Demand.pattern ∉ e.devices d := by
  intro h
  unfold devices at h
  split at h
  · obtain ⟨c, -, heq⟩ := List.mem_map.mp h
    exact absurd (congrArg Demand.symbol heq)
      (by simp [Demand.device, Demand.object, Demand.pattern])
  · cases h

theorem Node.pattern_notMem_needs {n : Node} (h : n.usesPattern = false) (b : Bool) :
    Demand.pattern ∉ n.needs b := by
  have hhub : Demand.pattern ∉ [Demand.hub] := by decide
  cases n with
  | expr e =>
      cases e with
      | device q port => exact port.pattern_notMem_devices _
      | deviceTest test port _ => exact port.pattern_notMem_devices _
      | reading r =>
          cases r with
          | timer => exact (by decide : Demand.pattern ∉ [Demand.timer])
          | _ => exact hhub
      | binary op _ _ => cases op <;> simp [needs, Expr.needs, Demand.pattern, Demand.random]
      | _ => exact List.not_mem_nil
  | stack first rest =>
      cases first with
      | action a =>
          cases a with
          | light a =>
              cases a with
              | display _ | displayFor _ _ | setBrightness _ => cases h
              | lightSensor port _ => exact port.pattern_notMem_devices _
              | _ => exact hhub
          | motor a => exact a.ports.pattern_notMem_devices _
          | sound a =>
              cases a <;> simp [needs, Stmt.needs, Action.needs, SoundAction.needs, Demand.pattern,
                Demand.hub, Demand.app, Demand.object]
          | data a =>
              cases a <;> simp [needs, Stmt.needs, Action.needs, DataAction.needs, Demand.pattern,
                Demand.list]
          | movement a => exact (by decide : Demand.pattern ∉ [Demand.motorPair])
          | resetTimer => exact (by decide : Demand.pattern ∉ [Demand.timer])
          | resetYaw => exact hhub
          | wait | waitUntil | placeholder => exact List.not_mem_nil
      | _ => exact List.not_mem_nil

/-- The line that declares the brightness of the light matrix. -/
def Script.brightnessLine : String :=
  brightnessVariable ++ " = 100"

namespace Script.Demand

/-- Demands that have nothing to do with the brightness. -/
structure LeavesBrightness (q : Demand) : Prop where
  symbol_ne : q.symbol ≠ brightness.symbol
  notMem_declarations : brightnessLine ∉ q.declarations

theorem device_leavesBrightness (d : Device) (port : Char) : (device d port).LeavesBrightness := by
  -- The names of devices do not start with an underscore.
  constructor
  · intro h
    have hfirst := congrArg (fun t : String => t.toList.head?) (Symbol.object.inj h)
    cases d <;> simp [Device.objectName, Device.stem, brightnessVariable] at hfirst
  · intro h
    have hfirst := congrArg (fun t : String => t.toList.head?) (List.mem_singleton.mp h)
    cases d <;>
      simp [brightnessLine, brightnessVariable, Device.objectName, Device.stem] at hfirst

theorem list_leavesBrightness (name : String) : (list name).LeavesBrightness := by
  constructor
  · simp [list, brightness, object]
  · intro h
    have hlast := congrArg (fun t : String => t.toList.getLast?) (List.mem_singleton.mp h)
    simp [brightnessLine, brightnessVariable, List.getLast?_append] at hlast

theorem fixed_leaveBrightness :
    ∀ q ∈ [hub, app, timer, motorPair, pattern, random], q.LeavesBrightness := by
  have hfixed : ∀ q ∈ [hub, app, timer, motorPair, pattern, random],
      q.symbol ≠ brightness.symbol ∧ brightnessLine ∉ q.declarations := by
    decide
  exact fun q hq => ⟨(hfixed q hq).1, (hfixed q hq).2⟩

theorem Issued.brightness_cases {b : Bool} {P : Char → Prop} {q : Demand} (h : q.Issued b P) :
    b = true ∧ q = .brightness ∨ q.LeavesBrightness := by
  cases h with
  | brightness h => exact .inl ⟨h, rfl⟩
  | device d _ => exact .inr (device_leavesBrightness d _)
  | list name => exact .inr (list_leavesBrightness _)
  | _ => exact .inr (fixed_leaveBrightness _ (by simp))

end Script.Demand

theorem Forest.demands_cases (b : Bool) (f : Forest) :
    ∀ q ∈ Forest.demands b f, b = true ∧ q = .brightness ∨ q.LeavesBrightness := fun q hq =>
  (Forest.demands_issued (P := fun _ => True) b (fun _ _ _ _ => trivial) q hq).brightness_cases

theorem Forest.pattern_mem_demands_iff (b : Bool) (f : Forest) :
    .pattern ∈ Forest.demands b f ↔ (Forest.visited f).any Node.usesPattern = true := by
  rw [List.any_eq_true]
  constructor
  · intro h
    obtain ⟨n, hn, h⟩ := List.mem_flatMap.mp h
    refine ⟨n, hn, ?_⟩
    cases huses : n.usesPattern with
    | true => rfl
    | false => exact absurd h (Node.pattern_notMem_needs huses b)
  · rintro ⟨n, hn, huses⟩
    refine List.mem_flatMap.mpr ⟨n, hn, ?_⟩
    rw [Node.needs_of_usesPattern huses]
    simp [Demand.patternDemands]

theorem Forest.brightness_mem_demands_iff (b : Bool) (f : Forest) :
    .brightness ∈ Forest.demands b f ↔ (b && (Forest.visited f).any Node.usesPattern) = true := by
  have hunset : .brightness ∉ Forest.demands false f := by
    intro h
    rcases Forest.demands_cases false f _ h with ⟨hflag, -⟩ | hleaves
    · cases hflag
    · exact hleaves.symbol_ne rfl
  cases b with
  | false => exact iff_of_false hunset Bool.false_ne_true
  | true =>
      rw [Bool.true_and, List.any_eq_true]
      constructor
      · intro h
        obtain ⟨n, hn, h⟩ := List.mem_flatMap.mp h
        refine ⟨n, hn, ?_⟩
        cases huses : n.usesPattern with
        | true => rfl
        | false =>
            -- Such a node needs the same without the flag.
            rw [Node.needs_eq huses true false] at h
            exact absurd (List.mem_flatMap.mpr ⟨n, hn, h⟩) hunset
      · rintro ⟨n, hn, huses⟩
        refine List.mem_flatMap.mpr ⟨n, hn, ?_⟩
        rw [Node.needs_of_usesPattern huses]
        simp [Demand.patternDemands]

/-- A script with a pattern has the declaration of the brightness once if the flag is set, and does
not have it otherwise. -/
theorem Script.count_brightnessLine (b : Bool) (f : Forest) (ls : List Line) :
    (assemble (Forest.demands b f) ls).declarations.count brightnessLine =
      (b && (Forest.visited f).any Node.usesPattern).toNat := by
  have hlines : (Demand.firstOccurrences (Forest.demands b f)).flatMap
      (·.declarations.filter (· == brightnessLine)) =
        if .brightness ∈ Forest.demands b f then [brightnessLine] else [] := by
    refine Demand.flatMap_firstOccurrences fun q hq => ?_
    refine (Forest.demands_cases b f q hq).imp (·.2) fun hleaves => ⟨hleaves.symbol_ne, ?_⟩
    refine List.filter_eq_nil_iff.mpr fun t ht heq => hleaves.notMem_declarations ?_
    exact eq_of_beq heq ▸ ht
  rw [assemble, List.count_eq_length_filter, List.filter_flatMap, hlines]
  simp only [Forest.brightness_mem_demands_iff]
  cases b && (Forest.visited f).any Node.usesPattern <;> rfl

namespace Script

/-- Generation with a given flag. -/
def generateWith (b : Bool) (f : Forest) : Except CompileError Program :=
  Forest.lines b false f >>= fun ls => pure (assemble (Forest.demands b f) ls)

theorem generateWith_eq_of_live_eq {f g : Forest} (h : f.live = g.live) (b : Bool) :
    generateWith b f = generateWith b g := by
  rw [generateWith, generateWith, Forest.lines_eq_of_live_eq h, Forest.demands, Forest.demands,
    Forest.visited_eq_of_live_eq h]

theorem generateWith_error_iff (b b' : Bool) (f : Forest) (e : CompileError) :
    generateWith b f = .error e ↔ generateWith b' f = .error e := by
  have hfails (b : Bool) : FailsFirst (generateWith b f) (Forest.faults f) :=
    (Forest.failsFirst_lines b false f).bind_pure _
  exact (hfails b e).trans (hfails b' e).symm

theorem generateWith_eq_of_not_shows {f : Forest}
    (hshows : ∀ n ∈ Forest.visited f, n.showsPattern = false)
    (hunset : ∀ n ∈ Forest.visited f, n.setsBrightness = false) (b b' : Bool) :
    generateWith b f = generateWith b' f := by
  have hdemands : Forest.demands b f = Forest.demands b' f :=
    List.flatMap_congr fun n hn =>
      Node.needs_eq (Bool.or_eq_false_iff.mpr ⟨hshows n hn, hunset n hn⟩) b b'
  rw [generateWith, generateWith, Forest.lines_eq_of_not_showsPattern hshows b b', hdemands]

/-- Scripts that show a pattern tell the flag that they are generated with. -/
theorem flag_eq_of_generateWith_eq {f : Forest} {b b' : Bool} {p : Program}
    (hshows : ∃ n ∈ Forest.visited f, n.showsPattern = true) (h : generateWith b f = .ok p)
    (h' : generateWith b' f = .ok p) : b = b' := by
  obtain ⟨n, hn, hshows⟩ := hshows
  have huses : (Forest.visited f).any Node.usesPattern = true :=
    List.any_eq_true.mpr ⟨n, hn, Bool.or_eq_true_iff.mpr (.inl hshows)⟩
  have hcount {b : Bool} (h : generateWith b f = .ok p) :
      p.declarations.count brightnessLine = b.toNat := by
    obtain ⟨ls, -, hp⟩ := bind_eq_ok_iff.mp h
    obtain rfl := Except.ok.inj hp
    rw [count_brightnessLine, huses, Bool.and_true]
  rw [Bool.eq_iff_iff, ← Bool.toNat_eq_one, ← hcount h, hcount h', Bool.toNat_eq_one]

theorem generate_eq_generateWith {f g : Forest} (h : f.live = g.live) :
    generate g =
      generateWith ((Forest.visited f).any Node.setsBrightness || g.looseSetsBrightness) f := by
  rw [generateWith_eq_of_live_eq h, Forest.visited_eq_of_live_eq h, ← Forest.any_setsBrightness_eq]
  exact generate_eq g

end Script

/-- Programs whose script tells whether a stack that never runs sets the brightness: generation
succeeds, a pattern is shown below a hat, and nothing below a hat sets the brightness. -/
structure Forest.TellsLoose (f : Forest) : Prop where
  generates : ∃ p, generate f = .ok p
  shows : ∃ n ∈ Forest.visited f, n.showsPattern = true
  unset : ∀ n ∈ Forest.visited f, n.setsBrightness = false

/-- Two programs with the same stacks that run give the same script or the same error, unless one of
them sets the brightness in a stack that never runs, the other does not, and their scripts tell. -/
theorem Script.generate_eq_iff_of_live_eq {f g : Forest} (h : f.live = g.live) :
    generate f = generate g ↔
      (f.TellsLoose → f.looseSetsBrightness = g.looseSetsBrightness) := by
  have hf := generate_eq_generateWith (rfl : f.live = f.live)
  have hg := generate_eq_generateWith h
  constructor
  · rintro heq ⟨⟨p, hp⟩, hshows, hunset⟩
    have hlive : (Forest.visited f).any Node.setsBrightness = false := by
      simpa using hunset
    rw [hlive, Bool.false_or] at hf hg
    exact flag_eq_of_generateWith_eq hshows (hf ▸ hp) (hg ▸ heq ▸ hp)
  · intro htells
    rw [hf, hg]
    by_cases hlive : (Forest.visited f).any Node.setsBrightness = true
    · rw [hlive, Bool.true_or, Bool.true_or]
    by_cases hloose : f.looseSetsBrightness = g.looseSetsBrightness
    · rw [hloose]
    have hunset : ∀ n ∈ Forest.visited f, n.setsBrightness = false := by
      simpa using hlive
    by_cases hshows : ∃ n ∈ Forest.visited f, n.showsPattern = true
    · cases hrun : generate f with
      | ok p => exact absurd (htells ⟨⟨p, hrun⟩, hshows, hunset⟩) hloose
      | error e =>
          rw [← hf, hrun]
          exact ((generateWith_error_iff _ _ f e).mp (hf ▸ hrun)).symm
    · have hnone : ∀ n ∈ Forest.visited f, n.showsPattern = false := by
        simpa using hshows
      exact generateWith_eq_of_not_shows hnone hunset _ _

/-- A program that shows a pattern, beside a stack that never runs. -/
def Forest.patternBeside (loose : Stack) : Forest :=
  [[.hat none none, .action (.light (.display (.text "9")))], loose]

theorem Forest.visited_patternBeside (s : Stmt) (rest : Stack) (h : s.isHat = false) :
    Forest.visited (patternBeside (s :: rest)) =
      [.stack (.action (.light (.display (.text "9")))) [], .expr (.text "9")] := by
  have hloose : ∀ x y body, s :: rest ≠ .hat x y :: body := by
    rintro x y body heq
    obtain ⟨rfl, -⟩ := List.cons.inj heq
    cases h
  rw [patternBeside, visited_cons_hat, visited_cons_loose [] hloose, Stack.visited_cons]
  simp [Forest.visited, Stmt.operands, Stmt.bodies, Action.operands, LightAction.operands,
    Expr.visited]

theorem Script.generate_patternBeside_loop :
    let f := Forest.patternBeside [.forever [.action (.light (.setBrightness (.text "7")))]]
    let g := Forest.patternBeside [.action (.light (.setBrightness .zero)), .action (.light .off)]
    f.live = g.live ∧ f.TellsLoose ∧ f.looseSetsBrightness = g.looseSetsBrightness ∧
      generate f = generate g := by
  intro f g
  have hlive : f.live = g.live := rfl
  have hvisited := Forest.visited_patternBeside
    (.forever [.action (.light (.setBrightness (.text "7")))]) [] rfl
  have htells : f.TellsLoose := by
    refine ⟨⟨_, rfl⟩, ?_, ?_⟩
    · exact ⟨_, hvisited ▸ List.mem_cons_self, rfl⟩
    · rw [hvisited]
      decide
  exact ⟨hlive, htells, rfl, (generate_eq_iff_of_live_eq hlive).mpr fun _ => rfl⟩

/-- A stack that never runs and sets the brightness changes the lines of the stack that runs. -/
theorem Script.generate_patternBeside_brightness :
    let f := Forest.patternBeside [.action (.light (.setBrightness .zero))]
    let g := Forest.patternBeside [.action (.light .off)]
    f.live = g.live ∧
      (generate f).map (fun p => (p.declarations, p.body)) = .ok
        (["hub = MSHub()", "_brightness = 100"],
          ["_turn_on_pattern('9', _brightness)", looseStackNote]) ∧
      (generate g).map (fun p => (p.declarations, p.body)) = .ok
        (["hub = MSHub()"], ["_turn_on_pattern('9')", looseStackNote]) ∧
      generate f ≠ generate g := by
  intro f g
  have hf : (generate f).map (fun p => (p.declarations, p.body)) = .ok
      (["hub = MSHub()", "_brightness = 100"],
        ["_turn_on_pattern('9', _brightness)", looseStackNote]) := by
    decide +kernel
  have hg : (generate g).map (fun p => (p.declarations, p.body)) = .ok
      (["hub = MSHub()"], ["_turn_on_pattern('9')", looseStackNote]) := by
    decide +kernel
  refine ⟨rfl, hf, hg, fun heq => ?_⟩
  rw [heq, hg] at hf
  exact absurd hf (by decide)

end WordBlocks
