import WordBlocks.Script.Draft

/-!
What the lines of a script need to have declared. A demand names a symbol and says what is added to
a draft the first time that symbol is met. `Draft.add_eq` says what a draft looks like after any
number of demands: each section grows by the contributions of their first occurrences, in order.
The lemmas on `StateT.run` at the end read every basic step of the generation as demands and lines
that are added to the draft it starts from.
-/

namespace WordBlocks.Script

/-- A symbol that a script has to declare, with the lines for its declaration, the lines of the
function that it names, and its import. -/
structure Demand where
  symbol : Symbol
  declarations : List String
  functions : List String
  imports : String
deriving DecidableEq, Repr

namespace Demand

/-- An object with the lines that make it. -/
def object (name : String) (texts : List String) : Demand :=
  ⟨.object name, texts, [], ""⟩

def hub : Demand := object "hub" ["hub = MSHub()"]

def app : Demand := object "app" ["app = App()"]

def timer : Demand := object "timer" ["timer = Timer()"]

def motorPair : Demand :=
  object "motor_pair"
    ["motor_pair = MotorPair('A','B')",
      "motor_pair.set_default_speed(50)  # Note: word-block movement starts at 50% speed."]

/-- The object for the device on a port. -/
def device (d : Device) (port : Char) : Demand :=
  object (d.objectName port)
    [d.objectName port ++ " = " ++ d.className ++ "('" ++ String.singleton port ++ "')"]

/-- A list of the project, which starts empty. -/
def list (name : String) : Demand :=
  ⟨.list name, [name ++ " = []"], [], ""⟩

/-- The function that shows a pattern on the light matrix. -/
def pattern : Demand :=
  ⟨.patternFunction, [], Emit.patternFunctionLines, ""⟩

def brightness : Demand :=
  object brightnessVariable [brightnessVariable ++ " = 100"]

/-- The generator of random integers. -/
def random : Demand :=
  ⟨.randomImport, [], [], randomImportLine⟩

/-- What showing a pattern on the light matrix demands. -/
def patternDemands (usesBrightness : Bool) : List Demand :=
  [hub, pattern] ++ if usesBrightness then [brightness] else []

/-- The demands that are the first ones for their symbol. -/
def firstOccurrences : List Demand → List Demand
  | [] => []
  | q :: qs => q :: (firstOccurrences qs).filter (·.symbol ≠ q.symbol)

/-- The demands that are the first ones for their symbol and whose symbol is not known yet. -/
def fresh (known : List Symbol) (qs : List Demand) : List Demand :=
  (firstOccurrences qs).filter (·.symbol ∉ known)

@[simp] theorem fresh_nil (known : List Symbol) : fresh known [] = [] := rfl

@[simp] theorem fresh_empty (qs : List Demand) : fresh [] qs = firstOccurrences qs := by
  simp [fresh]

theorem fresh_cons_of_mem {known : List Symbol} {q : Demand} (qs : List Demand)
    (h : q.symbol ∈ known) : fresh known (q :: qs) = fresh known qs := by
  have hq : ∀ r : Demand, r.symbol ∉ known → r.symbol ≠ q.symbol := by
    intro r hr heq
    exact hr (heq ▸ h)
  simp only [fresh, firstOccurrences, List.filter_cons, h, not_true_eq_false, decide_false,
    Bool.false_eq_true, if_false, List.filter_filter]
  apply List.filter_congr
  intro r _
  by_cases hr : r.symbol ∈ known
  · simp [hr]
  · simp [hr, hq r hr]

theorem fresh_cons_of_notMem {known : List Symbol} {q : Demand} (qs : List Demand)
    (h : q.symbol ∉ known) :
    fresh known (q :: qs) = q :: fresh (known ++ [q.symbol]) qs := by
  simp only [fresh, firstOccurrences, List.filter_cons, h, not_false_eq_true, decide_true,
    if_true, List.filter_filter]
  congr 1
  apply List.filter_congr
  intro r _
  simp

end Demand

/-- A line of a script before it is indented. -/
structure Line where
  depth : Nat
  text : String
deriving DecidableEq, Repr

/-- A line with the tabs for its depth. -/
def Line.render (l : Line) : String :=
  tabs l.depth ++ l.text

/-- Lines at one depth. -/
def linesAt (depth : Nat) (texts : List String) : List Line :=
  texts.map (⟨depth, ·⟩)

@[simp] theorem linesAt_nil (depth : Nat) : linesAt depth [] = [] := rfl

@[simp] theorem linesAt_cons (depth : Nat) (t : String) (ts : List String) :
    linesAt depth (t :: ts) = ⟨depth, t⟩ :: linesAt depth ts := rfl

@[simp] theorem linesAt_append (depth : Nat) (ts us : List String) :
    linesAt depth (ts ++ us) = linesAt depth ts ++ linesAt depth us :=
  List.map_append

namespace Draft

/-- Meets a demand, unless its symbol has been met before. -/
def announce (d : Draft) (q : Demand) : Draft :=
  if d.declared.contains q.symbol then d
  else { d with
    preamble := d.preamble ++ q.imports
    declarations := d.declarations ++ q.declarations
    functions := d.functions ++ q.functions
    declared := d.declared ++ [q.symbol] }

/-- Adds lines to the body. -/
def write (d : Draft) (ls : List Line) : Draft :=
  { d with body := d.body ++ ls.map Line.render }

/-- Meets some demands and adds lines to the body. -/
def add (d : Draft) (qs : List Demand) (ls : List Line) : Draft :=
  (qs.foldl announce d).write ls

@[simp] theorem write_nil (d : Draft) : d.write [] = d := by
  simp [write]

theorem announce_write (d : Draft) (q : Demand) (ls : List Line) :
    (d.write ls).announce q = (d.announce q).write ls := by
  unfold announce write
  split <;> rfl

theorem foldl_announce_write (d : Draft) (qs : List Demand) (ls : List Line) :
    qs.foldl announce (d.write ls) = (qs.foldl announce d).write ls := by
  induction qs generalizing d with
  | nil => rfl
  | cons q qs ih =>
      simp only [List.foldl_cons]
      rw [announce_write, ih]

@[simp] theorem add_nil (d : Draft) : d.add [] [] = d := by
  simp [add, write]

@[simp] theorem add_add (d : Draft) (qs rs : List Demand) (ls ms : List Line) :
    (d.add qs ls).add rs ms = d.add (qs ++ rs) (ls ++ ms) := by
  unfold add
  rw [foldl_announce_write, List.foldl_append]
  simp [write]

/-- A draft after some demands and lines: every section grows by what the fresh demands bring. -/
theorem add_eq (d : Draft) (qs : List Demand) (ls : List Line) :
    d.add qs ls = { d with
      preamble := d.preamble ++ String.join ((Demand.fresh d.declared qs).map (·.imports))
      declarations := d.declarations ++ (Demand.fresh d.declared qs).flatMap (·.declarations)
      functions := d.functions ++ (Demand.fresh d.declared qs).flatMap (·.functions)
      body := d.body ++ ls.map Line.render
      declared := d.declared ++ (Demand.fresh d.declared qs).map (·.symbol) } := by
  induction qs generalizing d with
  | nil => simp [add, write]
  | cons q qs ih =>
      have hcons : d.add (q :: qs) ls = (d.announce q).add qs ls := rfl
      rw [hcons, ih]
      by_cases h : q.symbol ∈ d.declared
      · simp [announce, h, Demand.fresh_cons_of_mem]
      · simp [announce, h, Demand.fresh_cons_of_notMem, String.join_cons, String.append_assoc]

@[simp] theorem add_indent (d : Draft) (qs : List Demand) (ls : List Line) :
    (d.add qs ls).indent = d.indent := by
  rw [add_eq]

@[simp] theorem add_usesBrightness (d : Draft) (qs : List Demand) (ls : List Line) :
    (d.add qs ls).usesBrightness = d.usesBrightness := by
  rw [add_eq]

/-- The draft one tab further in. -/
def deeper (d : Draft) : Draft :=
  { d with indent := d.indent + 1 }

/-- The draft one tab further out. -/
def shallower (d : Draft) : Draft :=
  { d with indent := d.indent - 1 }

@[simp] theorem deeper_indent (d : Draft) : d.deeper.indent = d.indent + 1 := rfl

@[simp] theorem deeper_usesBrightness (d : Draft) :
    d.deeper.usesBrightness = d.usesBrightness := rfl

@[simp] theorem shallower_add_deeper (d : Draft) (qs : List Demand) (ls : List Line) :
    (d.deeper.add qs ls).shallower = d.add qs ls := by
  simp [add_eq, deeper, shallower]

theorem mem_declared_foldl {q : Demand} (d : Draft) (qs : List Demand)
    (h : q.symbol ∈ d.declared ∨ q ∈ qs) : q.symbol ∈ (qs.foldl announce d).declared := by
  induction qs generalizing d with
  | nil => simpa using h
  | cons r rs ih =>
      apply ih
      by_cases hr : r.symbol ∈ d.declared
      · simp only [announce, List.contains_iff_mem, hr, if_true]
        rcases h with h | h
        · exact .inl h
        · rcases List.mem_cons.mp h with rfl | h
          · exact .inl hr
          · exact .inr h
      · simp only [announce, List.contains_iff_mem, hr, if_false]
        rcases h with h | h
        · exact .inl (List.mem_append_left _ h)
        · rcases List.mem_cons.mp h with rfl | h
          · exact .inl (List.mem_append_right _ (List.mem_singleton_self _))
          · exact .inr h

theorem add_append_of_mem {d : Draft} {qs : List Demand} {q : Demand} (ls : List Line)
    (h : q ∈ qs) : d.add (qs ++ [q]) ls = d.add qs ls := by
  simp only [add, List.foldl_append, List.foldl_cons, List.foldl_nil]
  rw [announce, if_pos]
  rw [List.contains_iff_mem]
  exact mem_declared_foldl d qs (.inr h)

end Draft

/-- The comment in place of a block that a script cannot express. -/
def placeholderText (block : String) (feature : Option MissingFeature) : String :=
  "# Placeholder for the " ++ block ++ " block. Note: that " ++
    (feature.map MissingFeature.description).getD block ++
    " is not supported in Python at the moment."

@[simp] theorem error_bind {ε α β : Type} (e : ε) (f : α → Except ε β) :
    ((Except.error e : Except ε α) >>= f) = .error e := rfl

@[simp] theorem map_error {ε α β : Type} (f : α → β) (e : ε) :
    f <$> (Except.error e : Except ε α) = .error e := rfl

@[simp] theorem map_throw {ε α β : Type} (f : α → β) (e : ε) :
    f <$> (throw e : Except ε α) = .error e := rfl

theorem bind_eq_ok_iff {ε α β : Type} {x : Except ε α} {f : α → Except ε β} {b : β} :
    x >>= f = .ok b ↔ ∃ a, x = .ok a ∧ f a = .ok b := by
  cases x with
  | error e => simp
  | ok a => simp [bind, Except.bind]

theorem map_eq_ok_iff {ε α β : Type} {f : α → β} {x : Except ε α} {b : β} :
    f <$> x = .ok b ↔ ∃ a, x = .ok a ∧ f a = b := by
  cases x with
  | error e => simp
  | ok a => simp [Functor.map, Except.map]

@[simp] theorem pure_eq_ok_iff {ε α : Type} {a b : α} :
    (pure a : Except ε α) = .ok b ↔ a = b :=
  ⟨Except.ok.inj, congrArg _⟩

theorem ok_eq_pure {ε α : Type} (a : α) : (Except.ok a : Except ε α) = pure a := rfl

namespace Emit

@[simp] theorem throw_run {α : Type} (e : CompileError) (d : Draft) :
    (throw e : Emit α).run d = .error e := rfl

@[simp] theorem liftM_run {α : Type} (r : Except CompileError α) (d : Draft) :
    (liftM r : Emit α).run d = r >>= fun a => pure (a, d) := rfl

@[simp] theorem line_run (text : String) (d : Draft) :
    (line text).run d = pure ((), d.add [] [⟨d.indent, text⟩]) := rfl

@[simp] theorem lines_run (texts : List String) (d : Draft) :
    (lines texts).run d = pure ((), d.add [] (linesAt d.indent texts)) := by
  unfold lines
  induction texts generalizing d with
  | nil => simp
  | cons t ts ih =>
      have hcons : (t :: ts).forM line = (do line t; ts.forM line) := rfl
      rw [hcons, StateT.run_bind, line_run, pure_bind, ih]
      simp

@[simp] theorem placeholder_run (block : String) (feature : Option MissingFeature) (d : Draft) :
    (placeholder block feature).run d =
      pure ((), d.add [] [⟨d.indent, placeholderText block feature⟩]) := rfl

@[simp] theorem declare_run (symbol : Symbol) (texts : List String) (d : Draft) :
    (declare symbol texts).run d = pure ((), d.add [⟨symbol, texts, [], ""⟩] []) := by
  simp only [declare, Draft.add, List.foldl_cons, List.foldl_nil, Draft.announce, Draft.write_nil,
    String.append_empty, List.append_nil]
  rfl

@[simp] theorem hub_run (d : Draft) : hub.run d = pure ("hub", d.add [.hub] []) := by
  simp [hub, object, Demand.hub, Demand.object]

@[simp] theorem app_run (d : Draft) : app.run d = pure ("app", d.add [.app] []) := by
  simp [app, object, Demand.app, Demand.object]

@[simp] theorem timer_run (d : Draft) : timer.run d = pure ("timer", d.add [.timer] []) := by
  simp [timer, object, Demand.timer, Demand.object]

@[simp] theorem motorPair_run (d : Draft) :
    motorPair.run d = pure ("motor_pair", d.add [.motorPair] []) := by
  simp [motorPair, Demand.motorPair, Demand.object]

@[simp] theorem device_run (dev : Device) (port : Char) (d : Draft) :
    (device dev port).run d = pure (dev.objectName port, d.add [.device dev port] []) := by
  simp [device, Demand.device, Demand.object]

@[simp] theorem requireRandom_run (d : Draft) :
    requireRandom.run d = pure ((), d.add [.random] []) := by
  simp only [requireRandom, Draft.add, List.foldl_cons, List.foldl_nil, Draft.announce,
    Draft.write_nil, Demand.random, List.append_nil]
  rfl

@[simp] theorem requirePattern_run (d : Draft) :
    requirePattern.run d = pure ((), d.add (Demand.patternDemands d.usesBrightness) []) := by
  have hdefine : ∀ d : Draft, (if d.declared.contains .patternFunction then d
      else { d with
        declared := d.declared ++ [.patternFunction]
        functions := d.functions ++ patternFunctionLines }) = d.add [.pattern] [] := by
    intro d
    simp only [Draft.add, List.foldl_cons, List.foldl_nil, Draft.announce, Draft.write_nil,
      Demand.pattern, List.append_nil, String.append_empty]
  simp only [requirePattern, StateT.run_bind, hub_run, pure_bind, StateT.run_modify, hdefine,
    StateT.run_get, Draft.add_add, Draft.add_usesBrightness]
  cases h : d.usesBrightness <;>
    simp [Demand.patternDemands, Demand.brightness, Demand.object]

@[simp] theorem indented_run (step : Emit Unit) (d : Draft) :
    (indented step).run d = step.run d.deeper >>= fun r => pure ((), r.2.shallower) := by
  simp only [indented, StateT.run_bind, StateT.run_modify, pure_bind, Draft.deeper,
    Draft.shallower]

end Emit

end WordBlocks.Script
