import WordBlocks.Proofs.ProgramScript

/-!
What the generation of an expression leaves alone. An expression announces the objects that it asks
and comments on its key presses, and does nothing else to a draft: what a draft holds stays where it
is, no function is added, and the text of the expression is the same from every draft.
-/

namespace WordBlocks

open Script

/-- The key presses of an expression, apart from those in the operand of another one. -/
def Expr.keyPresses : Expr → Nat
  | keyPressed _ => 1
  | number _ | text _ | ports _ | ref _ | reading _ | listLength _ => 0
  | unary _ a | device _ a | listQuery _ _ a => a.keyPresses
  | binary _ a b | deviceTest _ a b => a.keyPresses + b.keyPresses
  | between v a b => v.keyPresses + a.keyPresses + b.keyPresses

theorem Expr.notes_eq_replicate (e : Expr) : e.notes = List.replicate e.keyPresses keyNote := by
  induction e with
  | number _ | text _ | ports _ | ref _ | reading _ | listLength _ | keyPressed _ => rfl
  | unary _ a ih | device _ a ih | listQuery _ _ a ih =>
      rw [notes_eq]
      simp [ownNotes, visible, children, keyPresses, ih]
  | binary _ a b iha ihb | deviceTest _ a b iha ihb =>
      rw [notes_eq]
      simp [ownNotes, visible, children, keyPresses, iha, ihb]
  | between v a b ihv iha ihb =>
      rw [notes_eq]
      simp [ownNotes, visible, children, keyPresses, ihv, iha, ihb, Nat.add_assoc]

theorem Expr.functions_of_mem_devices {dev : Device} {port : Expr} {q : Demand}
    (h : q ∈ port.devices dev) : q.functions = [] := by
  cases port with
  | ports letters =>
      obtain ⟨letter, _, rfl⟩ := List.mem_map.mp h
      rfl
  | _ => cases h

theorem Expr.functions_of_mem_needs {e : Expr} {q : Demand} (h : q ∈ e.needs) :
    q.functions = [] := by
  unfold needs at h
  split at h
  · rename_i r
    obtain rfl := List.mem_singleton.mp h
    cases r <;> rfl
  · obtain rfl := List.mem_singleton.mp h
    rfl
  · exact functions_of_mem_devices h
  · exact functions_of_mem_devices h
  · cases h

theorem Expr.functions_of_mem_demands {e : Expr} {q : Demand} (h : q ∈ e.demands) :
    q.functions = [] := by
  obtain ⟨o, _, hq⟩ := List.mem_flatMap.mp h
  exact functions_of_mem_needs hq

namespace Script

theorem Demand.mem_of_mem_fresh {known : List Symbol} {qs : List Demand} {q : Demand}
    (h : q ∈ fresh known qs) : q ∈ qs :=
  mem_of_mem_firstOccurrences (List.mem_filter.mp h).1

/-- A draft grows into another by announcements and by lines of the body: every section that grows
does so at its end, and nothing else changes. -/
structure Draft.Announces (d d' : Draft) (lines : List String) : Prop where
  indent : d'.indent = d.indent
  usesBrightness : d'.usesBrightness = d.usesBrightness
  functions : d'.functions = d.functions
  preamble : d.preamble.toList <+: d'.preamble.toList
  declarations : d.declarations <+: d'.declarations
  declared : d.declared ⊆ d'.declared
  body : d'.body = d.body ++ lines

theorem Draft.announces_add (d : Draft) {qs : List Demand} (ls : List Line)
    (h : ∀ q ∈ qs, q.functions = []) : d.Announces (d.add qs ls) (ls.map Line.render) := by
  have hfunctions : (Demand.fresh d.declared qs).flatMap (·.functions) = [] :=
    List.flatMap_eq_nil_iff.mpr fun q hq => h q (Demand.mem_of_mem_fresh hq)
  rw [add_eq]
  constructor
  case functions => simp [hfunctions]
  case preamble => simp
  case declarations => exact List.prefix_append _ _
  case declared => exact List.subset_append_left _ _
  all_goals rfl

/-- Generation of an expression only makes announcements, leaves one comment for each key press, and
gives a text that does not depend on the draft. -/
theorem Emit.expr_announces {e : Expr} {d d' : Draft} {t : String}
    (h : (expr e).run d = .ok (t, d')) :
    d.Announces d' (List.replicate e.keyPresses (tabs d.indent ++ keyNote)) ∧
      ∀ other : Draft, Prod.fst <$> (expr e).run other = .ok t := by
  rw [expr_run, bind_eq_ok_iff] at h
  obtain ⟨t', hscript, h⟩ := h
  obtain ⟨rfl, rfl⟩ := Prod.mk.inj (pure_eq_ok_iff.mp h)
  refine ⟨?_, fun other => ?_⟩
  · have hlines : (linesAt d.indent e.notes).map Line.render =
        List.replicate e.keyPresses (tabs d.indent ++ keyNote) := by
      rw [Expr.notes_eq_replicate, linesAt, List.map_replicate, List.map_replicate]
      rfl
    rw [← hlines]
    exact d.announces_add _ fun q => Expr.functions_of_mem_demands
  · rw [expr_run, hscript]
    rfl

/-- A random number between a key press, which has another one for its key, and a test with a second
key press in it. -/
def Emit.keyedRandom : Expr :=
  .binary .random (.keyPressed (.keyPressed (.text "a")))
    (.between (.keyPressed (.text "b")) (.device .motorPosition (.ports ['A'])) (.reading .timer))

theorem Emit.expr_announces_keyedRandom :
    ∃ t d', (expr keyedRandom).run { Draft.empty true with indent := 2 } = .ok (t, d') ∧
      t = "randint(int(False), int((motor_a.get_position() <= False <= timer.now())))" ∧
      d'.declared = [.randomImport, .object "motor_a", .object "timer"] ∧
      Draft.Announces { Draft.empty true with indent := 2 } d'
        [tabs 2 ++ keyNote, tabs 2 ++ keyNote] ∧
      ∀ other : Draft, Prod.fst <$> (expr keyedRandom).run other = .ok t := by
  obtain ⟨t, d', h, htext, hdeclared⟩ :
      ∃ t d', (expr keyedRandom).run { Draft.empty true with indent := 2 } = .ok (t, d') ∧
        t = "randint(int(False), int((motor_a.get_position() <= False <= timer.now())))" ∧
        d'.declared = [.randomImport, .object "motor_a", .object "timer"] :=
    ⟨_, _, rfl, by decide, by decide⟩
  exact ⟨t, d', h, htext, hdeclared, expr_announces h⟩

end Script

end WordBlocks
