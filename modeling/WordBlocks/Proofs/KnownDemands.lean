import WordBlocks.Proofs.Lowered
import WordBlocks.Proofs.ProgramScript

/-!
What a program demands of its script. Every demand is one of a few kinds, where lists have the
identifiers of their names, devices are on ports that the program names, and the brightness is
demanded only if the program sets it. If the program comes from a project, the ports are those of
the hub.
-/

namespace WordBlocks

open Script

/-- The demands of programs, by whether they set the brightness and by the ports that they name. -/
inductive Script.Demand.Issued (b : Bool) (P : Char → Prop) : Demand → Prop where
  | hub : Issued b P .hub
  | app : Issued b P .app
  | timer : Issued b P .timer
  | motorPair : Issued b P .motorPair
  | brightness (h : b = true) : Issued b P .brightness
  | pattern : Issued b P .pattern
  | random : Issued b P .random
  | device (d : Device) {port : Char} (h : P port) : Issued b P (.device d port)
  | list (name : String) : Issued b P (.list (identifier name))

theorem Script.Demand.Issued.mono {b b' : Bool} {P Q : Char → Prop} {q : Demand}
    (h : q.Issued b P) (hb : b = true → b' = true) (hports : ∀ c, P c → Q c) : q.Issued b' Q := by
  cases h with
  | brightness h => exact .brightness (hb h)
  | device d h => exact .device d (hports _ h)
  | _ => constructor

/-- The demands of programs that come from a project. -/
abbrev Script.Demand.Known (q : Demand) : Prop :=
  q.Issued true (· ∈ portLetters)

section

variable {b : Bool} {P : Char → Prop}

theorem Script.Demand.patternDemands_issued (b : Bool) : ∀ q ∈ patternDemands b, q.Issued b P := by
  cases b <;> simp [patternDemands, Issued.hub, Issued.pattern, Issued.brightness]

theorem Expr.devices_issued (d : Device) {ports : Expr} (h : ∀ c ∈ ports.letters, P c) :
    ∀ q ∈ ports.devices d, q.Issued b P := by
  intro q hq
  unfold devices at hq
  split at hq
  · obtain ⟨letter, hletter, rfl⟩ := List.mem_map.mp hq
    exact .device d (h letter hletter)
  · cases hq

theorem Expr.needs_issued {e : Expr} (h : ∀ o ∈ e.visible, ∀ c ∈ o.letters, P c) :
    ∀ q ∈ e.needs, q.Issued b P := by
  cases e with
  | reading r =>
      refine List.forall_mem_singleton.mpr ?_
      cases r with
      | timer => exact .timer
      | _ => exact .hub
  | binary op _ _ => cases op <;> simp [needs, Demand.Issued.random]
  | device _ port | deviceTest _ port _ => exact devices_issued _ (h port List.mem_cons_self)
  | _ => exact List.forall_mem_nil _

theorem MotorAction.ports_mem_operands (a : MotorAction) : a.ports ∈ a.operands := by
  cases a <;> exact List.mem_cons_self

theorem Action.needs_issued {a : Action} (h : ∀ o ∈ a.operands, ∀ c ∈ o.letters, P c) :
    ∀ q ∈ a.needs b, q.Issued b P := by
  cases a with
  | data a => cases a <;> simp [needs, DataAction.needs, Demand.Issued.list]
  | motor a => exact Expr.devices_issued .motor (h a.ports a.ports_mem_operands)
  | movement a => exact List.forall_mem_singleton.mpr .motorPair
  | light a =>
      cases a with
      | displayFor _ _ | display _ | setBrightness _ => exact Demand.patternDemands_issued b
      | write _ | off | setPixel _ _ _ | setButton _ => exact List.forall_mem_singleton.mpr .hub
      | lightSensor port _ => exact Expr.devices_issued .distanceSensor (h port List.mem_cons_self)
  | sound a => cases a <;> simp [needs, SoundAction.needs, Demand.Issued.app, Demand.Issued.hub]
  | resetTimer => exact List.forall_mem_singleton.mpr .timer
  | resetYaw => exact List.forall_mem_singleton.mpr .hub
  | wait _ | waitUntil _ | placeholder _ _ => exact List.forall_mem_nil _

theorem Forest.demands_issued (b : Bool) {forest : Forest} (h : Forest.PortsIn P forest) :
    ∀ q ∈ Forest.demands b forest, q.Issued b P := by
  intro q hq
  obtain ⟨n, hn, hq⟩ := List.mem_flatMap.mp hq
  cases n with
  | stack first rest =>
      cases first with
      | action a => exact Action.needs_issued (fun o ho => (h.operand hn ho).own) q hq
      | _ => cases hq
  | expr e =>
      -- What is below an expression is visited with it.
      obtain ⟨first, rest, hfirst, o, ho, he⟩ := Forest.exists_operand_of_mem_visited hn
      refine Expr.needs_issued (fun x hx => h x (Forest.expr_mem_visited hfirst ho ?_)) q hq
      exact Expr.visited_subset he (Expr.mem_visited_of_visible hx x.mem_visited_self)

end

theorem Forest.demands_known {p : Project} {bestEffort : Bool} (b : Bool) {forest : Forest}
    (hforest : ∀ s ∈ forest, Stack.LoweredFrom p bestEffort s) :
    ∀ q ∈ Forest.demands b forest, q.Known := fun q hq =>
  (Forest.demands_issued b (Forest.portsIn_portLetters hforest) q hq).mono (fun _ => rfl)
    fun _ => id

end WordBlocks
