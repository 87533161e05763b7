import WordBlocks.Proofs.Lowered
import WordBlocks.Proofs.ProgramScript

/-!
What stands in the way of a script. The faults of a program are the errors that it holds below its
hats, in the order in which generation comes across them, and generation fails with the first of
them. A lowered program cannot hold every fault: ports are never empty and functions have their
arguments, but a hat may follow a statement and a rotation may be given in percent.
-/

namespace WordBlocks

open Choice (tag)
open Script

/-- A run fails with the first of some faults, and succeeds if there are none. -/
def FailsFirst {α : Type} (run : Except CompileError α) (faults : List CompileError) : Prop :=
  ∀ e, run = .error e ↔ faults.head? = some e

namespace FailsFirst

variable {α β : Type}

theorem pure (a : α) : FailsFirst (.ok a) [] := by
  intro e
  simp

theorem error (e : CompileError) (es : List CompileError) :
    FailsFirst (.error e : Except CompileError α) (e :: es) := by
  intro e'
  simp

theorem bind {run : Except CompileError α} {next : α → Except CompileError β}
    {es fs : List CompileError} (hrun : FailsFirst run es)
    (hnext : ∀ a, run = .ok a → FailsFirst (next a) fs) : FailsFirst (run >>= next) (es ++ fs) := by
  cases run with
  | error e =>
      obtain ⟨es, rfl⟩ := List.head?_eq_some_iff.mp ((hrun e).mp rfl)
      exact error e (es ++ fs)
  | ok a =>
      have hes : es = [] := by
        rw [← List.head?_eq_none_iff, Option.eq_none_iff_forall_ne_some]
        intro e he
        exact nomatch (hrun e).mpr he
      rw [hes]
      exact hnext a rfl

theorem congr {run : Except CompileError α} {es fs : List CompileError} (hrun : FailsFirst run es)
    (h : es = fs) : FailsFirst run fs :=
  h ▸ hrun

theorem bind_pure {run : Except CompileError α} {es : List CompileError} (hrun : FailsFirst run es)
    (f : α → β) : FailsFirst (run >>= fun a => Pure.pure (f a)) es :=
  (hrun.bind fun a _ => pure (f a)).congr (List.append_nil es)

theorem map {run : Except CompileError α} {es : List CompileError} (hrun : FailsFirst run es)
    (f : α → β) : FailsFirst (f <$> run) es := by
  rw [map_eq_pure_bind]
  exact hrun.bind_pure f

theorem lookup {run : Except CompileError α} {entries : List α} {index : α → Int} {i : Int}
    {e : CompileError} (hsome : ∀ a, entries.find? (index · == i) = some a → run = .ok a)
    (hnone : entries.find? (index · == i) = none → run = .error e) :
    FailsFirst run (if i ∈ entries.map index then [] else [e]) := by
  cases hfind : entries.find? (index · == i) with
  | some a =>
      have hi : index a = i := by simpa using List.find?_some hfind
      rw [if_pos (List.mem_map.mpr ⟨a, List.mem_of_find?_eq_some hfind, hi⟩), hsome a hfind]
      exact pure a
  | none =>
      rw [if_neg, hnone hfind]
      · exact error e []
      · intro hmem
        obtain ⟨a, ha, hi⟩ := List.mem_map.mp hmem
        exact absurd hi (by simpa using List.find?_eq_none.mp hfind a ha)

end FailsFirst

/-- The errors that generation can raise; lowering raises the others. -/
def CompileError.OfScript : CompileError → Prop
  | unsupportedPort _ | invalidIndex _ _ | brokenPromise _ => True
  | malformed _ | unsupportedOpcode _ | invalidChoice _ _ => False

namespace Expr

/-- A reporter asks one device, whose port is written or found in a variable. -/
def deviceFaults : Expr → List CompileError
  | ports [_] | ref _ => []
  | other => [.unsupportedPort (.operand other.label)]

/-- A statement sends its calls to any number of devices, but not to none. -/
def targetFaults : Expr → List CompileError
  | ports [] => [.brokenPromise .emptyPorts]
  | ports _ | ref _ => []
  | other => [.unsupportedPort (.operand other.label)]

def pairFaults : Expr → List CompileError
  | ports [_, _] | ref _ => []
  | other => [.unsupportedPort (.pairOperand other.label)]

/-- A colour that is written directly has to be in the palette. -/
def indexFaults (palette : String) (indices : List Int) (e : Expr) : List CompileError :=
  match literalIndex? e with
  | some i => if i ∈ indices then [] else [.invalidIndex palette i]
  | none => []

end Expr

def DeviceTest.indexFaults (test : DeviceTest) (value : Expr) : List CompileError :=
  match test with
  | color => value.indexFaults "SensorColor" (SensorColor.all.map SensorColor.index)
  | reflectedLight _ | distance _ _ => []

def UnaryOp.faults : UnaryOp → List CompileError
  | math f => if f.arity = 2 then [.brokenPromise (.missingArgument (tag f))] else []
  | not | length | round => []

namespace Expr

/-- The faults of an expression. The operand of a key press is never looked at. -/
def faults : Expr → List CompileError
  | number _ | text _ | ports _ | ref _ | reading _ | listLength _ | keyPressed _ => []
  | unary op a => a.faults ++ op.faults
  | binary _ a b => a.faults ++ b.faults
  | between v a b => v.faults ++ (a.faults ++ b.faults)
  | device _ port => port.deviceFaults ++ port.faults
  | deviceTest test port value =>
    port.deviceFaults ++ (port.faults ++ (test.indexFaults value ++ value.faults))
  | listQuery _ _ a => a.faults

theorem failsFirst_deviceScript (dev : Device) (port : Expr) :
    FailsFirst (port.deviceScript dev) (port.deviceFaults ++ port.faults) := by
  cases port with
  | ports letters =>
      rcases letters with _ | ⟨_, _ | ⟨_, _⟩⟩
      · exact .error _ _
      · exact .pure _
      · exact .error _ _
  | ref _ => exact .pure _
  | _ => exact .error _ _

theorem failsFirst_targets (dev : Device) (ports : Expr) :
    FailsFirst (ports.targets dev) (ports.targetFaults ++ ports.faults) := by
  cases ports with
  | ports letters =>
      rcases letters with _ | ⟨_, _⟩
      · exact .error _ _
      · exact .pure _
  | ref _ => exact .pure _
  | _ => exact .error _ _

theorem failsFirst_pairTexts (ports : Expr) :
    FailsFirst ports.pairTexts (ports.pairFaults ++ ports.faults) := by
  cases ports with
  | ports letters =>
      rcases letters with _ | ⟨_, _ | ⟨_, _ | ⟨_, _⟩⟩⟩
      · exact .error _ _
      · exact .error _ _
      · exact .pure _
      · exact .error _ _
  | ref _ => exact .pure _
  | _ => exact .error _ _

theorem faults_of_literalIndex {e : Expr} {i : Int} (h : literalIndex? e = some i) :
    e.faults = [] := by
  cases e with
  | number _ | text _ => rfl
  | _ => cases h

theorem faults_of_digitPattern {e : Expr} {ds : List Char} (h : digitPattern? e = some ds) :
    e.faults = [] := by
  cases e with
  | number _ | text _ => rfl
  | _ => cases h

end Expr

theorem SensorColor.failsFirst_ofIndex (i : Int) :
    FailsFirst (ofIndex i) (if i ∈ all.map index then [] else [.invalidIndex "SensorColor" i]) :=
  .lookup (fun c hc => by simp [ofIndex, hc]) fun hc => by simp [ofIndex, hc]

theorem ButtonColor.failsFirst_ofIndex (i : Int) :
    FailsFirst (ofIndex i)
      (if i ∈ all.map index then [] else [.invalidIndex "CenterButtonColor" i]) :=
  .lookup (fun c hc => by simp [ofIndex, hc]) fun hc => by simp [ofIndex, hc]

theorem UnaryOp.failsFirst_text (op : UnaryOp) (a : String) : FailsFirst (op.text a) op.faults := by
  cases op with
  | not | length | round => exact .pure _
  | math f =>
      by_cases h : f.arity = 2
      · simpa [UnaryOp.text, UnaryOp.faults, h] using FailsFirst.error _ []
      · simpa [UnaryOp.text, UnaryOp.faults, h] using FailsFirst.pure _

theorem Expr.failsFirst_script (e : Expr) : FailsFirst e.script e.faults := by
  induction e with
  | number _ | text _ | ports _ | ref _ | reading _ | listLength _ | keyPressed _ => exact .pure _
  | unary op a ih => exact ih.bind fun t _ => op.failsFirst_text t
  | binary op a b iha ihb => exact iha.bind fun _ _ => ihb.bind_pure _
  | between v a b ihv iha ihb => exact ihv.bind fun _ _ => iha.bind fun _ _ => ihb.bind_pure _
  | device q port => exact (failsFirst_deviceScript _ port).bind_pure _
  | listQuery q list a ih => exact ih.bind_pure _
  | deviceTest test port value _ ih =>
      rw [faults, ← List.append_assoc]
      refine (failsFirst_deviceScript _ port).bind fun sensor _ => ?_
      cases test with
      | color =>
          cases hi : literalIndex? value with
          | none => simpa [DeviceTest.indexFaults, indexFaults, hi] using ih.bind_pure _
          | some i =>
              rw [faults_of_literalIndex hi, List.append_nil]
              simp only [DeviceTest.indexFaults, indexFaults, hi]
              exact (SensorColor.failsFirst_ofIndex i).map _
      | reflectedLight op => exact ih.bind_pure _
      | distance op unit => exact ih.bind_pure _

theorem Expr.failsFirst_buttonColor (color : Expr) :
    FailsFirst color.buttonColor (color.indexFaults "CenterButtonColor"
      (ButtonColor.all.map ButtonColor.index) ++ color.faults) := by
  cases hi : literalIndex? color with
  | none => simpa [buttonColor, indexFaults, hi] using color.failsFirst_script.bind_pure _
  | some i =>
      rw [faults_of_literalIndex hi, List.append_nil]
      simp only [buttonColor, indexFaults, hi]
      exact (ButtonColor.failsFirst_ofIndex i).map _

theorem Expr.failsFirst_sensorLights (pattern : Expr) :
    FailsFirst pattern.sensorLights pattern.faults := by
  unfold sensorLights
  split
  · rename_i ds hds
    rw [faults_of_digitPattern hds]
    exact .pure _
  · exact pattern.failsFirst_script.bind_pure _

namespace Action

/-- The faults that a statement has before its operands are worked out. -/
@[simp] def faultsBefore : Action → List CompileError
  | motor a => a.ports.targetFaults
  | movement (.setMotors ports) => ports.pairFaults
  | light (.setButton color) =>
    color.indexFaults "CenterButtonColor" (ButtonColor.all.map ButtonColor.index)
  | light (.lightSensor port _) => port.targetFaults
  | _ => []

@[simp] def faultsAfter : Action → List CompileError
  | movement (.setRotation _ .percent) => [.brokenPromise .percentRotation]
  | _ => []

@[simp] def faults (a : Action) : List CompileError :=
  a.faultsBefore ++ (a.operands.flatMap Expr.faults ++ a.faultsAfter)

end Action

theorem DataAction.failsFirst_lines (depth : Nat) (a : DataAction) :
    FailsFirst (a.lines depth) (a.operands.flatMap Expr.faults) := by
  cases a with
  | set _ value | change _ value | append _ value | delete _ value =>
      exact (value.failsFirst_script.bind_pure _).congr (by simp [operands])
  | clear _ => exact .pure _
  | insert _ first second | replace _ first second =>
      exact (first.failsFirst_script.bind fun _ _ => second.failsFirst_script.bind_pure _).congr
        (by simp [operands])

theorem MotorAction.failsFirst_lines (depth : Nat) (a : MotorAction) :
    FailsFirst (a.lines depth) (a.ports.targetFaults ++ a.operands.flatMap Expr.faults) := by
  have htargets := a.ports.failsFirst_targets .motor
  cases a with
  | run ports _ value _ | goTo ports _ value | setSpeed ports value =>
      exact (htargets.bind fun _ _ => value.failsFirst_script.bind_pure _).congr
        (by simp [operands, MotorAction.ports])
  | start ports _ | stop ports =>
      exact (htargets.bind_pure _).congr (by simp [operands, MotorAction.ports])

theorem MovementAction.failsFirst_texts (a : MovementAction) :
    FailsFirst a.texts (Action.movement a).faults := by
  cases a with
  | move _ value _ | startSteering value | setSpeed value =>
      exact (value.failsFirst_script.bind_pure _).congr
        (by simp [Action.operands, operands])
  | steer first second _ =>
      exact (first.failsFirst_script.bind fun _ _ => second.failsFirst_script.bind_pure _).congr
        (by simp [Action.operands, operands])
  | start _ | stop => exact .pure _
  | setMotors ports =>
      exact ports.failsFirst_pairTexts.congr
        (by simp [Action.operands, operands])
  | setRotation distance unit =>
      cases unit with
      | cm | inches =>
          exact (distance.failsFirst_script.bind_pure _).congr
            (by simp [Action.operands, operands])
      | percent =>
          exact (distance.failsFirst_script.bind fun _ _ => .error _ []).congr
            (by simp [Action.operands, operands])

theorem LightAction.failsFirst_lines (usesBrightness : Bool) (depth : Nat) (a : LightAction) :
    FailsFirst (a.lines usesBrightness depth) (Action.light a).faults := by
  cases a with
  | display value | write value | setBrightness value =>
      exact (value.failsFirst_script.bind_pure _).congr
        (by simp [Action.operands, operands])
  | displayFor first second =>
      exact (first.failsFirst_script.bind fun _ _ => second.failsFirst_script.bind_pure _).congr
        (by simp [Action.operands, operands])
  | off => exact .pure _
  | setPixel x y brightness =>
      exact (x.failsFirst_script.bind fun _ _ => y.failsFirst_script.bind fun _ _ =>
        brightness.failsFirst_script.bind_pure _).congr
        (by simp [Action.operands, operands])
  | setButton color =>
      exact (color.failsFirst_buttonColor.bind_pure _).congr
        (by simp [Action.operands, operands])
  | lightSensor port pattern =>
      exact ((port.failsFirst_targets _).bind fun _ _ =>
        pattern.failsFirst_sensorLights.bind_pure _).congr
        (by simp [Action.operands, operands])

theorem SoundAction.failsFirst_texts (a : SoundAction) :
    FailsFirst a.texts (a.operands.flatMap Expr.faults) := by
  cases a with
  | play _ | start _ | stop => exact .pure _
  | beep first second =>
      exact (first.failsFirst_script.bind fun _ _ => second.failsFirst_script.bind_pure _).congr
        (by simp [operands])
  | startBeep value | setVolume value | changeVolume value =>
      exact (value.failsFirst_script.bind_pure _).congr (by simp [operands])

theorem Action.failsFirst_lines (usesBrightness : Bool) (depth : Nat) (a : Action) :
    FailsFirst (a.lines usesBrightness depth) a.faults := by
  cases a with
  | data a => exact (a.failsFirst_lines depth).congr (by simp [operands])
  | motor a => exact (a.failsFirst_lines depth).congr (by simp [operands])
  | movement a => exact a.failsFirst_texts.map _
  | light a => exact a.failsFirst_lines usesBrightness depth
  | sound a => exact (a.failsFirst_texts.map _).congr (by simp [operands])
  | wait value | waitUntil value =>
      exact (value.failsFirst_script.bind_pure _).congr (by simp [operands])
  | resetTimer | resetYaw | placeholder _ _ => exact .pure _

mutual

def Stmt.faults : Stmt → List CompileError
  | .hat _ _ => [.brokenPromise .hatInsideStack]
  | .action a => a.faults
  | .repeatTimes e body => e.faults ++ Stack.faults body
  | .forever body => Stack.faults body
  | .repeatUntil e body => e.faults ++ Stack.faults body
  | .ifThen e body => e.faults ++ Stack.faults body
  | .ifElse e body orElse => e.faults ++ (Stack.faults body ++ Stack.faults orElse)

def Stack.faults : List Stmt → List CompileError
  | [] => []
  | first :: rest => first.faults ++ Stack.faults rest

end

mutual

theorem Stmt.failsFirst_lines (b : Bool) (depth : Nat) (s : Stmt) :
    FailsFirst (s.lines b depth) s.faults := by
  cases s with
  | hat x y => exact .error _ _
  | action a => exact (a.failsFirst_lines b depth).bind_pure _
  | forever body => exact (Stack.failsFirst_suiteLines b (depth + 1) body).bind_pure _
  | repeatTimes e body | repeatUntil e body | ifThen e body =>
      exact e.failsFirst_script.bind fun _ _ =>
        (Stack.failsFirst_suiteLines b (depth + 1) body).bind_pure _
  | ifElse e body orElse =>
      exact e.failsFirst_script.bind fun _ _ =>
        (Stack.failsFirst_suiteLines b (depth + 1) body).bind fun _ _ =>
          (Stack.failsFirst_suiteLines b (depth + 1) orElse).bind_pure _

theorem Stack.failsFirst_lines (b : Bool) (depth : Nat) (s : List Stmt) :
    FailsFirst (Stack.lines b depth s) (Stack.faults s) := by
  cases s with
  | nil => exact .pure _
  | cons first rest =>
      exact (first.failsFirst_lines b depth).bind fun _ _ =>
        (Stack.failsFirst_lines b depth rest).bind_pure _

theorem Stack.failsFirst_suiteLines (b : Bool) (depth : Nat) (s : List Stmt) :
    FailsFirst (Stack.suiteLines b depth s) (Stack.faults s) := by
  cases s with
  | nil => exact .pure _
  | cons first rest =>
      exact (first.failsFirst_lines b depth).bind fun _ _ =>
        (Stack.failsFirst_lines b depth rest).bind_pure _

end

def Forest.faults (forest : Forest) : List CompileError :=
  forest.flatMap fun
    | .hat _ _ :: body => Stack.faults body
    | _ => []

theorem Forest.failsFirst_lines (b started : Bool) (forest : Forest) :
    FailsFirst (Forest.lines b started forest) (Forest.faults forest) := by
  induction forest generalizing started with
  | nil => exact .pure _
  | cons root rest ih =>
      rcases root with _ | ⟨first, body⟩
      · exact (ih started).bind_pure _
      · cases first with
        | hat x y =>
            exact (Stack.failsFirst_lines b 0 body).bind fun _ _ => (ih true).bind_pure _
        | _ => exact (ih started).bind_pure _

/-- Generation fails with the first fault of a program. -/
theorem Script.failsFirst_generate (forest : Forest) :
    FailsFirst (generate forest) (Forest.faults forest) := by
  rw [generate_eq]
  exact (Forest.failsFirst_lines _ false forest).bind_pure _

/-- The faults of an expression itself, apart from its operands. -/
def Expr.ownFaults : Expr → List CompileError
  | unary op _ => op.faults
  | device _ port => port.deviceFaults
  | deviceTest test port value => port.deviceFaults ++ test.indexFaults value
  | _ => []

def Stmt.ownFaults : Stmt → List CompileError
  | hat _ _ => [.brokenPromise .hatInsideStack]
  | action a => a.faultsBefore ++ a.faultsAfter
  | _ => []

/-- The faults of a node itself, apart from the nodes below and after it. -/
def Node.ownFaults : Node → List CompileError
  | expr e => e.ownFaults
  | stack first _ => first.ownFaults

theorem Expr.mem_faults_iff {x : CompileError} (e : Expr) :
    x ∈ e.faults ↔ x ∈ e.visited.flatMap ownFaults := by
  induction e with
  | number _ | text _ | ports _ | ref _ | reading _ | listLength _ | keyPressed _ =>
      simp [faults, visited, ownFaults]
  | unary op a ih => simp [faults, visited, ownFaults, ih, or_comm]
  | listQuery query list a ih => simp [faults, visited, ownFaults, ih]
  | device query port ih => simp [faults, visited, ownFaults, ih]
  | binary op a b iha ihb => simp [faults, visited, ownFaults, iha, ihb]
  | between v a b ihv iha ihb => simp [faults, visited, ownFaults, ihv, iha, ihb]
  | deviceTest test port value ihp ihv =>
      simp [faults, visited, ownFaults, ihp, ihv, or_left_comm]

mutual

theorem Stmt.mem_faults_iff {x : CompileError} (s : Stmt) :
    x ∈ s.faults ↔ x ∈ s.ownFaults ∨
      x ∈ s.operands.flatMap (fun e => e.visited.flatMap Expr.ownFaults) ∨
      x ∈ s.bodies.flatMap (fun body => (Stack.visited body).flatMap Node.ownFaults) := by
  cases s with
  | hat x y => simp [Stmt.faults, Stmt.ownFaults, Stmt.operands, Stmt.bodies]
  | action a =>
      simp [Stmt.faults, Stmt.ownFaults, Stmt.operands, Stmt.bodies, Expr.mem_faults_iff, or_assoc,
        or_comm, or_left_comm]
  | forever body =>
      simp [Stmt.faults, Stmt.ownFaults, Stmt.operands, Stmt.bodies, Stack.mem_faults_iff body]
  | repeatTimes e body | repeatUntil e body | ifThen e body =>
      simp [Stmt.faults, Stmt.ownFaults, Stmt.operands, Stmt.bodies, Expr.mem_faults_iff,
        Stack.mem_faults_iff body]
  | ifElse e body orElse =>
      simp [Stmt.faults, Stmt.ownFaults, Stmt.operands, Stmt.bodies, Expr.mem_faults_iff,
        Stack.mem_faults_iff body, Stack.mem_faults_iff orElse]

theorem Stack.mem_faults_iff {x : CompileError} (s : List Stmt) :
    x ∈ Stack.faults s ↔ x ∈ (Stack.visited s).flatMap Node.ownFaults := by
  cases s with
  | nil => simp [Stack.faults]
  | cons first rest =>
      have hoperands : ((first.operands.flatMap Expr.visited).map Node.expr).flatMap
          Node.ownFaults = first.operands.flatMap fun e => e.visited.flatMap Expr.ownFaults := by
        rw [List.flatMap_map, List.flatMap_assoc]
        rfl
      have hbodies : (first.bodies.flatMap Stack.visited).flatMap Node.ownFaults =
          first.bodies.flatMap fun body => (Stack.visited body).flatMap Node.ownFaults :=
        List.flatMap_assoc
      rw [Stack.faults, List.mem_append, Stmt.mem_faults_iff first, Stack.mem_faults_iff rest,
        Stack.visited_cons, List.flatMap_cons, List.flatMap_append, List.flatMap_append, hoperands,
        hbodies]
      simp only [List.mem_append, or_assoc]
      rfl

end

theorem Forest.mem_faults_iff {x : CompileError} (forest : Forest) :
    x ∈ Forest.faults forest ↔ ∃ n ∈ Forest.visited forest, x ∈ n.ownFaults := by
  rw [← List.mem_flatMap, Forest.visited, List.flatMap_assoc, Forest.faults, List.mem_flatMap,
    List.mem_flatMap]
  refine exists_congr fun root => and_congr_right fun _ => ?_
  rcases root with _ | ⟨first, body⟩
  · rfl
  · cases first with
    | hat x y => exact Stack.mem_faults_iff body
    | _ => rfl

namespace Expr

theorem eq_of_mem_deviceFaults {x : CompileError} {port : Expr} (h : x ∈ port.deviceFaults) :
    x = .unsupportedPort (.operand port.label) := by
  unfold deviceFaults at h
  split at h
  · cases h
  · cases h
  · exact List.mem_singleton.mp h

theorem eq_of_mem_targetFaults {x : CompileError} {ports : Expr} (h : x ∈ ports.targetFaults) :
    x = .unsupportedPort (.operand ports.label) ∨
      x = .brokenPromise .emptyPorts ∧ ports = .ports [] := by
  unfold targetFaults at h
  split at h
  · exact .inr ⟨List.mem_singleton.mp h, rfl⟩
  · cases h
  · cases h
  · exact .inl (List.mem_singleton.mp h)

theorem eq_of_mem_pairFaults {x : CompileError} {ports : Expr} (h : x ∈ ports.pairFaults) :
    x = .unsupportedPort (.pairOperand ports.label) := by
  unfold pairFaults at h
  split at h
  · cases h
  · cases h
  · exact List.mem_singleton.mp h

theorem eq_of_mem_indexFaults {x : CompileError} {palette : String} {indices : List Int} {e : Expr}
    (h : x ∈ e.indexFaults palette indices) :
    ∃ i, literalIndex? e = some i ∧ i ∉ indices ∧ x = .invalidIndex palette i := by
  unfold indexFaults at h
  split at h
  · rename_i i hi
    split at h
    · cases h
    · exact ⟨i, hi, ‹_›, List.mem_singleton.mp h⟩
  · cases h

end Expr

/-- The promises that a statement breaks whatever its operands are. -/
def Node.breach? : Node → Option Breach
  | stack (.hat _ _) _ => some .hatInsideStack
  | stack (.action (.movement (.setRotation _ .percent))) _ => some .percentRotation
  | _ => none

/-- What lowering keeps: a function has the arguments it takes, and there is a port to call. -/
def Node.KeepsArguments : Node → Prop
  | expr (.unary (.math f) _) => f.arity ≠ 2
  | stack (.action (.motor a)) _ => a.ports ≠ .ports []
  | stack (.action (.light (.lightSensor port _))) _ => port ≠ .ports []
  | _ => True

/-- A fault of a node is a bad port, a colour that is not in the palette, or a broken promise. -/
inductive Node.Fault (n : Node) : CompileError → Prop
  | port (fault : PortFault) : n.Fault (.unsupportedPort fault)
  | index (palette : String) (i : Int) : n.Fault (.invalidIndex palette i)
  | breach {breach : Breach} (h : n.KeepsArguments → n.breach? = some breach) :
      n.Fault (.brokenPromise breach)

theorem Node.fault_of_mem_targetFaults {n : Node} {ports : Expr} {x : CompileError}
    (hkeeps : n.KeepsArguments → ports ≠ .ports []) (h : x ∈ ports.targetFaults) : n.Fault x := by
  rcases Expr.eq_of_mem_targetFaults h with rfl | ⟨rfl, hports⟩
  · exact .port _
  · exact .breach fun hn => absurd hports (hkeeps hn)

theorem Expr.fault_of_mem_ownFaults {e : Expr} {x : CompileError} (h : x ∈ e.ownFaults) :
    (Node.expr e).Fault x := by
  cases e with
  | unary op a =>
      cases op with
      | math f =>
          simp only [ownFaults, UnaryOp.faults] at h
          split at h
          · obtain rfl := List.mem_singleton.mp h
            exact .breach fun harity => absurd ‹_› harity
          · cases h
      | not | length | round => cases h
  | device query port =>
      obtain rfl := eq_of_mem_deviceFaults h
      exact .port _
  | deviceTest test port value =>
      rcases List.mem_append.mp h with h | h
      · obtain rfl := eq_of_mem_deviceFaults h
        exact .port _
      · cases test with
        | color =>
            obtain ⟨i, _, _, rfl⟩ := eq_of_mem_indexFaults h
            exact .index _ i
        | reflectedLight _ | distance _ _ => cases h
  | _ => cases h

theorem Action.fault_of_mem_ownFaults {a : Action} {rest : Stack} {x : CompileError}
    (h : x ∈ a.faultsBefore ++ a.faultsAfter) : (Node.stack (.action a) rest).Fault x := by
  cases a with
  | motor a =>
      simp only [faultsBefore, faultsAfter, List.append_nil] at h
      exact Node.fault_of_mem_targetFaults id h
  | movement a =>
      cases a with
      | setMotors ports =>
          simp only [faultsBefore, faultsAfter, List.append_nil] at h
          obtain rfl := Expr.eq_of_mem_pairFaults h
          exact .port _
      | setRotation distance unit =>
          cases unit with
          | percent =>
              obtain rfl := List.mem_singleton.mp h
              exact .breach fun _ => rfl
          | cm | inches => cases h
      | _ => cases h
  | light a =>
      cases a with
      | setButton color =>
          simp only [faultsBefore, faultsAfter, List.append_nil] at h
          obtain ⟨i, _, _, rfl⟩ := Expr.eq_of_mem_indexFaults h
          exact .index _ i
      | lightSensor port pattern =>
          simp only [faultsBefore, faultsAfter, List.append_nil] at h
          exact Node.fault_of_mem_targetFaults id h
      | _ => cases h
  | _ => cases h

theorem Node.fault_of_mem_ownFaults {n : Node} {x : CompileError} (h : x ∈ n.ownFaults) :
    n.Fault x := by
  cases n with
  | expr e => exact Expr.fault_of_mem_ownFaults h
  | stack first rest =>
      cases first with
      | hat _ _ =>
          obtain rfl := List.mem_singleton.mp h
          exact .breach fun _ => rfl
      | action a => exact Action.fault_of_mem_ownFaults h
      | _ => cases h

theorem Script.ofScript_of_generate {forest : Forest} {x : CompileError}
    (h : generate forest = .error x) : x.OfScript := by
  have hfault := List.mem_of_mem_head? ((failsFirst_generate forest x).mp h)
  obtain ⟨n, _, hn⟩ := (Forest.mem_faults_iff forest).mp hfault
  cases Node.fault_of_mem_ownFaults hn with
  | port _ | index _ _ | breach _ => trivial

namespace Expr

theorem keepsArguments_of_isPortSet {ports : Expr} (h : ports.IsPortSet ∨ ports.IsPortPair) :
    ∀ d ∈ ports.visited, (Node.expr d).KeepsArguments := by
  cases ports with
  | ref r | ports letters => exact List.forall_mem_singleton.mpr trivial
  | _ => exact (h.elim id id).elim

theorem keepsArguments_of_wellFormed {e : Expr} (he : e.WellFormed) :
    ∀ d ∈ e.visited, (Node.expr d).KeepsArguments := by
  induction e with
  | number _ | text _ | ref _ | reading _ | listLength _ | keyPressed _ =>
      exact List.forall_mem_singleton.mpr trivial
  | ports letters => exact he.elim
  | unary op a ih =>
      refine List.forall_mem_cons.mpr ⟨?_, ih he.2⟩
      cases op with
      | math f => simp [Node.KeepsArguments, he.1 f rfl]
      | not | length | round => trivial
  | listQuery query list a ih => exact List.forall_mem_cons.mpr ⟨trivial, ih he⟩
  | binary op a b iha ihb =>
      exact List.forall_mem_cons.mpr
        ⟨trivial, List.forall_mem_append.mpr ⟨iha he.2.1, ihb he.2.2⟩⟩
  | between v a b ihv iha ihb =>
      exact List.forall_mem_cons.mpr ⟨trivial, List.forall_mem_append.mpr
        ⟨ihv he.1, List.forall_mem_append.mpr ⟨iha he.2.1, ihb he.2.2⟩⟩⟩
  | device query port _ =>
      exact List.forall_mem_cons.mpr ⟨trivial, keepsArguments_of_isPortSet (.inl he)⟩
  | deviceTest test port value _ ih =>
      exact List.forall_mem_cons.mpr ⟨trivial, List.forall_mem_append.mpr
        ⟨keepsArguments_of_isPortSet (.inl he.1), ih he.2⟩⟩

theorem ne_nil_of_isPortSet {ports : Expr} (h : ports.IsPortSet) : ports ≠ .ports [] := by
  rintro rfl
  exact h.1 rfl

end Expr

section

variable {p : Project} {bestEffort : Bool}

theorem Stmt.keepsArguments {s : Stmt} (hs : s.LoweredFrom p bestEffort) (rest : Stack) :
    (Node.stack s rest).KeepsArguments := by
  cases s with
  | action a =>
      cases a with
      | motor a =>
          apply Expr.ne_nil_of_isPortSet
          cases a with
          | run _ _ _ _ | goTo _ _ _ | setSpeed _ _ => exact hs.1
          | start _ _ | stop _ => exact hs
      | light a =>
          cases a with
          | lightSensor port pattern => exact Expr.ne_nil_of_isPortSet hs.1
          | _ => trivial
      | _ => trivial
  | _ => trivial

theorem Forest.keepsArguments {forest : Forest}
    (hforest : ∀ s ∈ forest, Stack.LoweredFrom p bestEffort s) :
    ∀ n ∈ Forest.visited forest, n.KeepsArguments := by
  intro n hn
  cases n with
  | stack first rest => exact Stmt.keepsArguments (Forest.loweredFrom_visited hforest _ hn) rest
  | expr e =>
      obtain ⟨first, rest, hfirst, o, ho, he⟩ := Forest.exists_operand_of_mem_visited hn
      have hlowered : first.LoweredFrom p bestEffort := Forest.loweredFrom_visited hforest _ hfirst
      rcases Stmt.operands_cases hlowered o ho with hwf | hports
      · exact Expr.keepsArguments_of_wellFormed hwf e he
      · exact Expr.keepsArguments_of_isPortSet hports e he

end

theorem Node.breach_mem_ownFaults {n : Node} {breach : Breach} (h : n.breach? = some breach) :
    .brokenPromise breach ∈ n.ownFaults := by
  unfold Node.breach? at h
  split at h
  · obtain rfl := Option.some.inj h
    exact List.mem_singleton_self _
  · obtain rfl := Option.some.inj h
    exact List.mem_singleton_self _
  · cases h

/-- The script of a lowered program fails with the first fault that stands below a hat. A promise
is broken there just by a further hat and by a rotation in percent. -/
theorem generate_breach_iff {project : Json} {bestEffort : Bool} {forest : Forest}
    (h : lower project bestEffort = .ok forest) :
    (∀ e, generate forest = .error e ↔ (Forest.faults forest).head? = some e) ∧
      ∀ breach, .brokenPromise breach ∈ Forest.faults forest ↔
        ∃ n ∈ Forest.visited forest, n.breach? = some breach := by
  obtain ⟨p, _, hforest⟩ := loweredFrom_of_lower h
  refine ⟨failsFirst_generate forest, fun breach => ?_⟩
  rw [Forest.mem_faults_iff]
  constructor
  · rintro ⟨n, hn, hfault⟩
    cases Node.fault_of_mem_ownFaults hfault with
    | breach hbreach => exact ⟨n, hn, hbreach (Forest.keepsArguments hforest n hn)⟩
  · rintro ⟨n, hn, hbreach⟩
    exact ⟨n, hn, Node.breach_mem_ownFaults hbreach⟩

/-- A project that sets the distance of a rotation in percent below its hat. -/
def Json.percentRotation (distance : Json) (reporters : List (String × Json)) : Json :=
  .program [] [] (("below", .object [("opcode", .string "flippermove_setDistance"),
    ("inputs", .object [("DISTANCE", distance)]),
    ("fields", .object [("UNIT", .array [.string "%"])])]) :: reporters)

theorem generate_breach_after_port :
    ∃ forest, lower (.percentRotation (.array [.number (.integer 3), .string "speed"])
        [("speed", .object [("opcode", .string "flippermotor_speed"),
          ("inputs", .object [("PORT", .array [.number (.integer 1),
            .array [.number (.integer 10), .string "AB"]])])])]) false = .ok forest ∧
      generate forest = .error (.unsupportedPort (.operand "ListLiteral(AB)")) ∧
      ∃ n ∈ Forest.visited forest, n.breach? = some .percentRotation := by
  have hlower : lower (.percentRotation (.array [.number (.integer 3), .string "speed"])
      [("speed", .object [("opcode", .string "flippermotor_speed"),
        ("inputs", .object [("PORT", .array [.number (.integer 1),
          .array [.number (.integer 10), .string "AB"]])])])]) false =
      .ok [[.hat none none, .action (.movement (.setRotation
        (.device .motorSpeed (.ports ['A', 'B'])) .percent))]] := by
    with_unfolding_all rfl
  obtain ⟨hfirst, hbreach⟩ := generate_breach_iff hlower
  refine ⟨_, hlower, (hfirst _).mpr (by decide), (hbreach _).mp (by decide)⟩

/-- A rotation in percent is lowered and then breaks a promise of generation. -/
theorem generate_percentRotation :
    ∃ forest, lower (.percentRotation (.array [.number (.integer 1), .null]) []) false =
        .ok forest ∧
      generate forest = .error (.brokenPromise .percentRotation) := by
  have hlower : lower (.percentRotation (.array [.number (.integer 1), .null]) []) false =
      .ok [[.hat none none, .action (.movement (.setRotation .zero .percent))]] := by
    with_unfolding_all rfl
  exact ⟨_, hlower, (failsFirst_generate _ _).mpr (by decide)⟩

end WordBlocks
