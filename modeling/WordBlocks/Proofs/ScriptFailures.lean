import WordBlocks.Proofs.Faults

/-!
When a lowered program has no script. Every node of a lowered program, at every depth, has the ports
and arguments that its block asks for, and so only four things are left that stop a script: a hat in
the middle of a stack, a rotation in percent, a reporter that asks several devices at once, and a
colour that is written out but not in the palette.
-/

namespace WordBlocks

open Script

/-- The nodes of a program at every depth, with those that no script is generated from. -/
inductive Forest.Holds (forest : Forest) : Node → Prop where
  | root {s : Stack} {n : Node} (hs : s ∈ forest) (hn : n ∈ Node.ofStack s) : Holds forest n
  | child {n m : Node} (h : Holds forest n) (hm : m ∈ n.children) : Holds forest m
  | next {n m : Node} (h : Holds forest n) (hm : m ∈ n.next) : Holds forest m

theorem Forest.Holds.visited {forest : Forest} {n m : Node} (hn : Forest.Holds forest n)
    (hm : m ∈ n.visited) : Forest.Holds forest m := by
  rw [Node.visited_eq, ← List.flatMap_append] at hm
  rcases List.mem_cons.mp hm with rfl | hm
  · exact hn
  · obtain ⟨k, hk, hm⟩ := List.mem_flatMap.mp hm
    rcases List.mem_append.mp hk with hk | hk
    · have hlt := Node.size_lt_of_mem_visible hk
      exact visited (.child hn (n.visible_subset k hk)) hm
    · have hlt := Node.size_lt_of_mem_next hk
      exact visited (.next hn hk) hm
termination_by n.size

theorem Forest.holds_of_mem_visited {forest : Forest} {n : Node} (hn : n ∈ Forest.visited forest) :
    Forest.Holds forest n := by
  obtain ⟨root, hroot, hn⟩ := List.mem_flatMap.mp hn
  split at hn
  · obtain ⟨m, hm, hn⟩ := List.mem_flatMap.mp hn
    exact Forest.Holds.visited (.next (.root hroot List.mem_cons_self) hm) hn
  · cases hn

namespace Node

/-- A node has the ports and arguments that its block asks for: reporters and statements ask the
devices on some ports, the movement has two motors, and a function has a second argument just if it
takes two. -/
def WellFormed : Node → Prop
  | expr (.device _ port) | expr (.deviceTest _ port _) => port.IsPortSet
  | expr (.unary (.math f) _) => f.arity ≠ 2
  | expr (.binary (.math f) _ _) => f.arity = 2
  | stack (.action (.motor a)) _ => a.ports.IsPortSet
  | stack (.action (.light (.lightSensor port _))) _ => port.IsPortSet
  | stack (.action (.movement (.setMotors ports))) _ => ports.IsPortPair
  | _ => True

/-- What stops a script at a node whose ports and arguments are in order. -/
inductive StopsScript : Node → Prop where
  | hat (x y : Option Binary64) (rest : Stack) : StopsScript (stack (.hat x y) rest)
  | percent (distance : Expr) (rest : Stack) :
      StopsScript (stack (.action (.movement (.setRotation distance .percent))) rest)
  | devices (query : DeviceQuery) {letters : List Char} (h : 2 ≤ letters.length) :
      StopsScript (expr (.device query (.ports letters)))
  | testedDevices (test : DeviceTest) {letters : List Char} (value : Expr)
      (h : 2 ≤ letters.length) : StopsScript (expr (.deviceTest test (.ports letters) value))
  | sensorColor (port : Expr) {value : Expr} {i : Int} (hi : literalIndex? value = some i)
      (h : i ∉ SensorColor.all.map SensorColor.index) :
      StopsScript (expr (.deviceTest .color port value))
  | buttonColor {color : Expr} {i : Int} (rest : Stack) (hi : literalIndex? color = some i)
      (h : i ∉ ButtonColor.all.map ButtonColor.index) :
      StopsScript (stack (.action (.light (.setButton color))) rest)

end Node

section

variable {p : Project} {bestEffort : Bool}

/-- Nodes as the blocks of a project give them, with all that is below and after them. -/
def Node.Lowered (p : Project) (bestEffort : Bool) : Node → Prop
  | expr e => e.WellFormed ∨ e.IsPortSet ∨ e.IsPortPair
  | stack first rest => Stack.LoweredFrom p bestEffort (first :: rest)

theorem Node.lowered_of_mem_ofStack {s : Stack} {n : Node} (hs : Stack.LoweredFrom p bestEffort s)
    (hn : n ∈ ofStack s) : n.Lowered p bestEffort := by
  cases s with
  | nil => cases hn
  | cons first rest =>
      obtain rfl := List.mem_singleton.mp hn
      exact hs

theorem Stmt.loweredFrom_of_mem_bodies {s : Stmt} (hs : s.LoweredFrom p bestEffort) :
    ∀ body ∈ s.bodies, Stack.LoweredFrom p bestEffort body := by
  cases s with
  | hat x y | action a => simp [bodies]
  | forever body => exact List.forall_mem_singleton.mpr hs
  | repeatTimes e body | repeatUntil e body | ifThen e body => simpa [bodies] using hs.2
  | ifElse e body orElse => simpa [bodies] using hs.2

theorem Node.Lowered.children {n : Node} (hn : n.Lowered p bestEffort) :
    ∀ m ∈ n.children, m.Lowered p bestEffort := by
  intro m hm
  cases n with
  | expr e =>
      obtain ⟨d, hd, rfl⟩ := List.mem_map.mp hm
      exact Expr.children_cases hn d hd
  | stack first rest =>
      rcases List.mem_append.mp hm with hm | hm
      · obtain ⟨e, he, rfl⟩ := List.mem_map.mp hm
        exact Stmt.operands_cases hn.1 e he
      · obtain ⟨body, hbody, hm⟩ := List.mem_flatMap.mp hm
        exact lowered_of_mem_ofStack (Stmt.loweredFrom_of_mem_bodies hn.1 body hbody) hm

theorem Node.Lowered.next {n : Node} (hn : n.Lowered p bestEffort) :
    ∀ m ∈ n.next, m.Lowered p bestEffort := by
  intro m hm
  cases n with
  | expr e => cases hm
  | stack first rest => exact lowered_of_mem_ofStack hn.2 hm

theorem Forest.Holds.lowered {forest : Forest}
    (hforest : ∀ s ∈ forest, Stack.LoweredFrom p bestEffort s) {n : Node}
    (hn : Forest.Holds forest n) : n.Lowered p bestEffort := by
  induction hn with
  | root hs hn => exact Node.lowered_of_mem_ofStack (hforest _ hs) hn
  | child _ hm ih => exact ih.children _ hm
  | next _ hm ih => exact ih.next _ hm

theorem Expr.wellFormed_node {e : Expr} (he : e.WellFormed ∨ e.IsPortSet ∨ e.IsPortPair) :
    (Node.expr e).WellFormed := by
  cases e with
  | number _ | text _ | ref _ | ports _ | reading _ | listLength _ | keyPressed _
  | listQuery _ _ _ | between _ _ _ => trivial
  | unary op a =>
      obtain ⟨harity, _⟩ : (unary op a).WellFormed := he.resolve_right fun h => h.elim id id
      cases op with
      | math f => simp [Node.WellFormed, harity f rfl]
      | not | length | round => trivial
  | binary op a b =>
      obtain ⟨harity, _⟩ : (binary op a b).WellFormed := he.resolve_right fun h => h.elim id id
      cases op with
      | math f => exact harity f rfl
      | _ => trivial
  | device query port => exact he.resolve_right fun h => h.elim id id
  | deviceTest test port value => exact (he.resolve_right fun h => h.elim id id).1

theorem Stmt.wellFormed_node {s : Stmt} (hs : s.LoweredFrom p bestEffort) (rest : Stack) :
    (Node.stack s rest).WellFormed := by
  cases s with
  | action a =>
      cases a with
      | motor a =>
          cases a with
          | run _ _ _ _ | goTo _ _ _ | setSpeed _ _ => exact hs.1
          | start _ _ | stop _ => exact hs
      | light a =>
          cases a with
          | lightSensor port pattern => exact hs.1
          | _ => trivial
      | movement a =>
          cases a with
          | setMotors ports => exact hs
          | _ => trivial
      | _ => trivial
  | _ => trivial

theorem Node.Lowered.wellFormed {n : Node} (hn : n.Lowered p bestEffort) : n.WellFormed := by
  cases n with
  | expr e => exact Expr.wellFormed_node hn
  | stack first rest => exact Stmt.wellFormed_node hn.1 rest

end

namespace Expr

theorem deviceFaults_ne_nil_iff {port : Expr} (h : port.IsPortSet) :
    port.deviceFaults ≠ [] ↔ ∃ letters, port = .ports letters ∧ 2 ≤ letters.length := by
  cases port with
  | ref r => simp [deviceFaults]
  | ports letters =>
      rcases letters with _ | ⟨first, _ | ⟨second, rest⟩⟩
      · exact absurd rfl h.1
      · simp [deviceFaults]
      · simp [deviceFaults]
  | _ => exact h.elim

theorem targetFaults_eq_nil {ports : Expr} (h : ports.IsPortSet) : ports.targetFaults = [] := by
  cases ports with
  | ref r => rfl
  | ports letters =>
      cases letters with
      | nil => exact absurd rfl h.1
      | cons first rest => rfl
  | _ => exact h.elim

theorem pairFaults_eq_nil {ports : Expr} (h : ports.IsPortPair) : ports.pairFaults = [] := by
  unfold IsPortPair at h
  split at h
  · rfl
  · rfl
  · exact h.elim

theorem indexFaults_ne_nil_iff {palette : String} {indices : List Int} {e : Expr} :
    e.indexFaults palette indices ≠ [] ↔ ∃ i, literalIndex? e = some i ∧ i ∉ indices := by
  unfold indexFaults
  cases literalIndex? e with
  | none => simp
  | some i => by_cases h : i ∈ indices <;> simp [h]

end Expr

theorem DeviceTest.indexFaults_ne_nil_iff {test : DeviceTest} {value : Expr} :
    test.indexFaults value ≠ [] ↔ test = .color ∧
      ∃ i, literalIndex? value = some i ∧ i ∉ SensorColor.all.map SensorColor.index := by
  cases test with
  | color => simp only [indexFaults, Expr.indexFaults_ne_nil_iff, true_and]
  | reflectedLight _ | distance _ _ => simp [indexFaults]

theorem Node.stopsScript_iff_of_nil {n : Node} {faults : List CompileError} (hfaults : faults = [])
    (hn : ¬n.StopsScript) : faults ≠ [] ↔ n.StopsScript :=
  iff_of_false (not_not_intro hfaults) hn

theorem Expr.ownFaults_ne_nil_iff {e : Expr} (he : (Node.expr e).WellFormed) :
    e.ownFaults ≠ [] ↔ (Node.expr e).StopsScript := by
  cases e with
  | unary op a =>
      have hnil : (unary op a).ownFaults = [] := by
        cases op with
        | math f => exact if_neg he
        | not | length | round => rfl
      exact Node.stopsScript_iff_of_nil hnil (by rintro ⟨⟩)
  | device query port =>
      rw [ownFaults, deviceFaults_ne_nil_iff he]
      constructor
      · rintro ⟨letters, rfl, hletters⟩
        exact .devices query hletters
      · intro h
        cases h with
        | devices _ hletters => exact ⟨_, rfl, hletters⟩
  | deviceTest test port value =>
      rw [ownFaults, ne_eq, List.append_eq_nil_iff, not_and_or, ← ne_eq, ← ne_eq,
        deviceFaults_ne_nil_iff he, DeviceTest.indexFaults_ne_nil_iff]
      constructor
      · rintro (⟨letters, rfl, hletters⟩ | ⟨rfl, i, hi, hmem⟩)
        · exact .testedDevices test value hletters
        · exact .sensorColor port hi hmem
      · intro h
        cases h with
        | testedDevices _ _ hletters => exact .inl ⟨_, rfl, hletters⟩
        | sensorColor _ hi hmem => exact .inr ⟨rfl, _, hi, hmem⟩
  | _ => exact Node.stopsScript_iff_of_nil rfl (by rintro ⟨⟩)

theorem Action.ownFaults_ne_nil_iff {a : Action} {rest : Stack}
    (ha : (Node.stack (.action a) rest).WellFormed) :
    a.faultsBefore ++ a.faultsAfter ≠ [] ↔ (Node.stack (.action a) rest).StopsScript := by
  cases a with
  | motor a =>
      simp only [faultsBefore, faultsAfter, List.append_nil, Expr.targetFaults_eq_nil ha]
      exact Node.stopsScript_iff_of_nil rfl (by rintro ⟨⟩)
  | movement a =>
      cases a with
      | setMotors ports =>
          simp only [faultsBefore, faultsAfter, List.append_nil, Expr.pairFaults_eq_nil ha]
          exact Node.stopsScript_iff_of_nil rfl (by rintro ⟨⟩)
      | setRotation distance unit =>
          cases unit with
          | percent => exact ⟨fun _ => .percent distance rest, fun _ => List.cons_ne_nil _ _⟩
          | cm | inches => exact Node.stopsScript_iff_of_nil rfl (by rintro ⟨⟩)
      | _ => exact Node.stopsScript_iff_of_nil rfl (by rintro ⟨⟩)
  | light a =>
      cases a with
      | setButton color =>
          simp only [faultsBefore, faultsAfter, List.append_nil, Expr.indexFaults_ne_nil_iff]
          constructor
          · rintro ⟨i, hi, hmem⟩
            exact .buttonColor rest hi hmem
          · intro h
            cases h with
            | buttonColor _ hi hmem => exact ⟨_, hi, hmem⟩
      | lightSensor port pattern =>
          simp only [faultsBefore, faultsAfter, List.append_nil, Expr.targetFaults_eq_nil ha]
          exact Node.stopsScript_iff_of_nil rfl (by rintro ⟨⟩)
      | _ => exact Node.stopsScript_iff_of_nil rfl (by rintro ⟨⟩)
  | _ => exact Node.stopsScript_iff_of_nil rfl (by rintro ⟨⟩)

theorem Node.ownFaults_ne_nil_iff {n : Node} (hn : n.WellFormed) :
    n.ownFaults ≠ [] ↔ n.StopsScript := by
  cases n with
  | expr e => exact Expr.ownFaults_ne_nil_iff hn
  | stack first rest =>
      cases first with
      | hat x y => exact ⟨fun _ => .hat x y rest, fun _ => List.cons_ne_nil _ _⟩
      | action a => exact Action.ownFaults_ne_nil_iff hn
      | _ => exact Node.stopsScript_iff_of_nil rfl (by rintro ⟨⟩)

/-- Generation fails if a node that it visits has a fault of its own. -/
theorem Script.generate_error_iff (forest : Forest) :
    (∃ e, generate forest = .error e) ↔ ∃ n ∈ Forest.visited forest, n.ownFaults ≠ [] := by
  simp only [failsFirst_generate forest _]
  constructor
  · rintro ⟨e, he⟩
    obtain ⟨n, hn, hfault⟩ := (Forest.mem_faults_iff forest).mp (List.mem_of_mem_head? he)
    exact ⟨n, hn, List.ne_nil_of_mem hfault⟩
  · rintro ⟨n, hn, hfaults⟩
    obtain ⟨e, he⟩ := List.exists_mem_of_ne_nil _ hfaults
    have hmem : e ∈ Forest.faults forest := (Forest.mem_faults_iff forest).mpr ⟨n, hn, he⟩
    exact ⟨_, List.head?_eq_some_head (List.ne_nil_of_mem hmem)⟩

/-- All nodes of a lowered program are well-formed, and it has no script just if one of the four
reasons stands below a hat. -/
theorem generate_fails_iff_stopsScript {project : Json} {bestEffort : Bool} {forest : Forest}
    (h : lower project bestEffort = .ok forest) :
    (∀ n, Forest.Holds forest n → n.WellFormed) ∧
      ((∃ e, generate forest = .error e) ↔ ∃ n ∈ Forest.visited forest, n.StopsScript) := by
  obtain ⟨p, _, hforest⟩ := loweredFrom_of_lower h
  have hwf : ∀ n, Forest.Holds forest n → n.WellFormed :=
    fun n hn => (hn.lowered hforest).wellFormed
  refine ⟨hwf, ?_⟩
  rw [Script.generate_error_iff]
  refine exists_congr fun n => and_congr_right fun hn => ?_
  exact Node.ownFaults_ne_nil_iff (hwf n (Forest.holds_of_mem_visited hn))

/-- A project that waits for as long as a reporter says, which asks the motors on some ports. -/
def Json.waitForSpeed (ports : String) : Json :=
  .program [] [] [("below", .object [("opcode", .string "control_wait"),
      ("inputs", .object [("DURATION", .array [.number (.integer 3), .string "speed"])])]),
    ("speed", .object [("opcode", .string "flippermotor_speed"),
      ("inputs", .object [("PORT", .array [.number (.integer 1),
        .array [.number (.integer 10), .string ports]])])])]

theorem generate_fails_of_two_motors :
    ∃ forest, lower (.waitForSpeed "BA") false = .ok forest ∧
      (∀ n, Forest.Holds forest n → n.WellFormed) ∧ ∃ e, generate forest = .error e := by
  have hlower : lower (.waitForSpeed "BA") false =
      .ok [[.hat none none, .action (.wait (.device .motorSpeed (.ports ['A', 'B'])))]] := by
    with_unfolding_all rfl
  obtain ⟨hwf, hfails⟩ := generate_fails_iff_stopsScript hlower
  refine ⟨_, hlower, hwf, hfails.mpr
    ⟨.expr (.device .motorSpeed (.ports ['A', 'B'])), ?_, .devices .motorSpeed (by decide)⟩⟩
  simp [Forest.visited, Stack.visited_cons, Stmt.operands, Action.operands, Expr.visited]

end WordBlocks
