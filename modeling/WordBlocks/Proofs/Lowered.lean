import WordBlocks.Compile
import WordBlocks.Proofs.BlockParts
import WordBlocks.Proofs.Visit

/-!
Programs that come from a project. Every expression and statement that the blocks of a project lower
to has the parts that its palette block allows: ports are letters of the hub or a variable,
functions have as many arguments as they take, and a placeholder is a block of the palette or stands
for an opcode of the project that is not known. `exprIn_induction` and `stackIn_induction` say what
has to be shown of one block for a property of all that is lowered.
-/

namespace WordBlocks

open Script (bind_eq_ok_iff map_eq_ok_iff pure_eq_ok_iff)

namespace Expr

/-- Ports of devices: a variable, or letters of the hub in alphabetical order. -/
def IsPortSet : Expr → Prop
  | ref _ => True
  | ports letters => letters ≠ [] ∧ letters.Pairwise (· < ·) ∧ ∀ c ∈ letters, c ∈ portLetters
  | _ => False

/-- Ports of the movement pair: a variable, or two different letters of the hub. -/
def IsPortPair : Expr → Prop
  | ref _ => True
  | ports [left, right] => left ∈ portLetters ∧ right ∈ portLetters ∧ left ≠ right
  | _ => False

/-- Expressions whose parts are those that reporters allow. Ports stand only where a device is
asked. -/
def WellFormed : Expr → Prop
  | number _ | text _ | ref _ | reading _ | listLength _ => True
  | ports _ => False
  | unary op e => (∀ f, op = .math f → f.arity = 1) ∧ e.WellFormed
  | binary op a b => (∀ f, op = .math f → f.arity = 2) ∧ a.WellFormed ∧ b.WellFormed
  | between v a b => v.WellFormed ∧ a.WellFormed ∧ b.WellFormed
  | device _ port => port.IsPortSet
  | deviceTest _ port value => port.IsPortSet ∧ value.WellFormed
  | keyPressed e => e.WellFormed
  | listQuery _ _ e => e.WellFormed

end Expr

/-- The operands of a motor order are ports and otherwise well-formed. -/
def MotorAction.WellFormed : MotorAction → Prop
  | run ports _ value _ => ports.IsPortSet ∧ value.WellFormed
  | goTo ports _ position => ports.IsPortSet ∧ position.WellFormed
  | start ports _ | stop ports => ports.IsPortSet
  | setSpeed ports speed => ports.IsPortSet ∧ speed.WellFormed

def MovementAction.WellFormed : MovementAction → Prop
  | setMotors ports => ports.IsPortPair
  | a => ∀ e ∈ a.operands, e.WellFormed

def LightAction.WellFormed : LightAction → Prop
  | lightSensor port pattern => port.IsPortSet ∧ pattern.WellFormed
  | a => ∀ e ∈ a.operands, e.WellFormed

section

variable (p : Project) (bestEffort : Bool)

/-- Statements without a body as the blocks of a project give them. -/
def Action.LoweredFrom : Action → Prop
  | data a => ∀ e ∈ a.operands, e.WellFormed
  | motor a => a.WellFormed
  | movement a => a.WellFormed
  | light a => a.WellFormed
  | sound a => ∀ e ∈ a.operands, e.WellFormed
  | wait e | waitUntil e => e.WellFormed
  | resetTimer | resetYaw => True
  | placeholder name (some feature) => ∃ opcode, (opcode, .missing name feature) ∈ statementForms
  | placeholder name none => bestEffort = true ∧ StatementForm.ofOpcode? name = none ∧
      ∃ id b, p.block id = .ok b ∧ b.opcode = name

mutual

/-- Statements as the blocks of a project give them. -/
def Stmt.LoweredFrom : Stmt → Prop
  | .hat _ _ => True
  | .action a => a.LoweredFrom p bestEffort
  | .repeatTimes e body => e.WellFormed ∧ Stack.LoweredFrom body
  | .forever body => Stack.LoweredFrom body
  | .repeatUntil e body => e.WellFormed ∧ Stack.LoweredFrom body
  | .ifThen e body => e.WellFormed ∧ Stack.LoweredFrom body
  | .ifElse e body orElse => e.WellFormed ∧ Stack.LoweredFrom body ∧ Stack.LoweredFrom orElse

/-- Stacks as the blocks of a project give them. -/
def Stack.LoweredFrom : List Stmt → Prop
  | [] => True
  | first :: rest => first.LoweredFrom ∧ Stack.LoweredFrom rest

end

end

theorem Slot.primitive_cases {code : Int} {rest : List Json} {e : Expr}
    (h : primitive code rest = .ok e) :
    (∃ x, e = .number x) ∨ (∃ s, e = .text s) ∨ ∃ r, e = .ref r := by
  unfold primitive at h
  split at h
  · obtain ⟨r, _, rfl⟩ := map_eq_ok_iff.mp h
    exact .inr (.inr ⟨r, rfl⟩)
  · dsimp only at h
    split at h
    · exact .inr (.inl ⟨_, (Except.ok.inj h).symm⟩)
    · obtain rfl := Except.ok.inj h
      split
      · exact .inl ⟨_, rfl⟩
      · unfold literal
        split
        · exact .inl ⟨_, rfl⟩
        · exact .inr (.inl ⟨_, rfl⟩)
      · exact .inr (.inl ⟨_, rfl⟩)
      · exact .inr (.inl ⟨_, rfl⟩)

theorem Slot.value_cases {binding : Json} {e : Expr} (h : Slot.ofJson binding = .ok (.value e)) :
    (∃ x, e = .number x) ∨ (∃ s, e = .text s) ∨ ∃ r, e = .ref r := by
  fun_induction Slot.ofJson binding with
  | case1 | case8 | case9 | case10 => cases h
  | case2 head rest code _ _ =>
      obtain ⟨e', he', heq⟩ := map_eq_ok_iff.mp h
      obtain rfl := Slot.value.inj heq
      exact primitive_cases he'
  | case3 | case5 | case6 => exact .inl ⟨_, (Slot.value.inj (Except.ok.inj h)).symm⟩
  | case4 _ _ _ _ _ _ _ ih => exact ih h
  | case7 _ _ _ _ _ _ _ _ _ ih => exact ih h

theorem Slot.wellFormed_of_value {binding : Json} {e : Expr}
    (h : Slot.ofJson binding = .ok (.value e)) : e.WellFormed := by
  rcases value_cases h with ⟨x, rfl⟩ | ⟨s, rfl⟩ | ⟨r, rfl⟩ <;> trivial

theorem portSet_isPortSet {raw : String} {e : Expr} (h : portSet raw = .ok e) :
    e.IsPortSet := by
  unfold portSet at h
  dsimp only at h
  split at h
  · cases h
  · rename_i hletters
    obtain rfl := Except.ok.inj h
    simp only [Bool.or_eq_true, not_or, List.isEmpty_iff, Bool.not_eq_true, Bool.not_eq_false',
      List.all_eq_true, List.contains_iff_mem] at hletters
    obtain ⟨hne, hall⟩ := hletters
    refine ⟨?_, ?_, fun c hc => (List.mem_filter.mp hc).1⟩
    · obtain ⟨c, cs, hcons⟩ := List.exists_cons_of_ne_nil hne
      have hmem : c ∈ Text.trimChars raw.toList := hcons ▸ List.mem_cons_self
      exact List.ne_nil_of_mem (List.mem_filter.mpr ⟨hall c hmem, by simpa using hmem⟩)
    · have hsorted : portLetters.Pairwise (· < ·) := by decide
      exact hsorted.filter _

theorem portPair_isPortPair {raw : String} {e : Expr} (h : portPair raw = .ok e) :
    e.IsPortPair := by
  unfold portPair at h
  dsimp only at h
  split at h
  · rename_i left right hletters
    split at h
    · rename_i hpair
      obtain rfl := Except.ok.inj h
      simpa [hletters, Expr.IsPortPair, and_assoc] using hpair
    · cases h
  · cases h

/-- A primitive that refers to a variable or list, written as `[code, name, id]`. -/
def Json.IsReference (primitive : List Json) (r : Reference) : Prop :=
  ∃ code, primitive.head?.bind Json.integer? = some code ∧ Slot.isReferenceCode code = true ∧
    Slot.primitiveReference primitive.tail = .ok r

/-- The primitive in a slot for ports, unless a block is there. -/
def Block.portPrimitive? (b : Block) (slot : String) : Option (List Json) :=
  match b.inputBlock? slot with
  | some _ => none
  | none => (b.input? slot).bind fun binding =>
    ((binding.item? 1).bind Json.array?).or binding.array?

namespace Project

variable {p : Project} {read : String → Except CompileError Expr} {b : Block} {slot : String}
  {e : Expr}

/-- A slot for ports gives what is read from letters, or a variable or list that is named in the
field of a block or written as a primitive. -/
theorem ports_induction {P : Expr → Prop} (letters : ∀ raw e, read raw = .ok e → P e)
    (named : ∀ source field r, p.reference source field = .ok r → P (.ref r))
    (written : ∀ primitive r, b.portPrimitive? slot = some primitive →
      Json.IsReference primitive r → P (.ref r))
    (h : p.ports read b slot = .ok e) : P e := by
  unfold ports at h
  split at h
  · cases h
  · rename_i binding hbinding
    split at h
    · obtain ⟨source, _, h⟩ := bind_eq_ok_iff.mp h
      split at h
      · exact letters _ _ h
      · split at h
        · simp only [bind_eq_ok_iff, pure_eq_ok_iff] at h
          obtain ⟨r, hr, rfl⟩ := h
          exact named _ _ r hr
        · split at h
          · simp only [bind_eq_ok_iff, pure_eq_ok_iff] at h
            obtain ⟨r, hr, rfl⟩ := h
            exact named _ _ r hr
          · cases h
    · rename_i hblock
      split at h
      · rename_i primitive hprimitive
        unfold primitivePorts at h
        split at h
        · rename_i code hcode
          split at h
          · rename_i hreference
            obtain ⟨r, hr, rfl⟩ := map_eq_ok_iff.mp h
            refine written primitive r ?_ ⟨code, hcode, hreference, hr⟩
            simp [Block.portPrimitive?, hblock, hbinding, hprimitive]
          · split at h
            · exact letters _ _ h
            · cases h
        · cases h
      · cases h

theorem isPortSet_ports (h : p.ports portSet b slot = .ok e) : e.IsPortSet :=
  ports_induction (fun _ _ => portSet_isPortSet) (fun _ _ _ _ => trivial)
    (fun _ _ _ _ => trivial) h

theorem isPortPair_ports (h : p.ports portPair b slot = .ok e) : e.IsPortPair :=
  ports_induction (fun _ _ => portPair_isPortPair) (fun _ _ _ _ => trivial)
    (fun _ _ _ _ => trivial) h

end Project

theorem mem_of_lookup_eq_some {β : Type} {key : String} {value : β} {entries : List (String × β)}
    (h : entries.lookup key = some value) : (key, value) ∈ entries := by
  obtain ⟨before, after, rfl, -⟩ := List.lookup_eq_some_iff.mp h
  simp

/-- Whether a form names a function itself. -/
def ReporterForm.namesFunction : ReporterForm → Bool
  | unary (.math _) _ | binary (.math _) _ _ => true
  | _ => false

theorem ReporterForm.namesFunction_of_ofOpcode? {opcode : String} {form : ReporterForm}
    (h : ReporterForm.ofOpcode? opcode = some form) : form.namesFunction = false := by
  have hall : ∀ entry ∈ reporterForms, entry.2.namesFunction = false := by decide
  exact hall _ (mem_of_lookup_eq_some h)

namespace Block

theorem arity_of_function {b : Block} {field : String} {arity : Nat} {f : MathFunction}
    (h : b.function field arity = .ok f) : f.arity = arity := by
  simp only [function, bind_eq_ok_iff] at h
  obtain ⟨g, _, h⟩ := h
  split at h
  · rename_i harity
    obtain rfl := Except.ok.inj h
    exact harity
  · cases h

theorem operand_induction {P : Expr → Prop} {slot : Json → Except CompileError Expr} {b : Block}
    {name : String} {e : Expr} (value : ∀ binding e, slot binding = .ok e → P e)
    (missing : P .zero) (h : b.operand slot name = .ok e) : P e := by
  unfold operand at h
  split at h
  · exact value _ _ h
  · obtain rfl := Except.ok.inj h
    exact missing

section

variable {p : Project} {slot : Json → Except CompileError Expr} {b : Block} {e : Expr}

theorem operand_wellFormed {name : String}
    (hslot : ∀ binding e, slot binding = .ok e → e.WellFormed)
    (h : b.operand slot name = .ok e) : e.WellFormed :=
  operand_induction hslot trivial h

/-- Reporters of the palette: a function is only named by a field, which is held against the number
of its arguments. -/
theorem reporter_wellFormed {form : ReporterForm} (hform : form.namesFunction = false)
    (hslot : ∀ binding e, slot binding = .ok e → e.WellFormed)
    (h : b.reporter p slot form = .ok e) : e.WellFormed := by
  cases form with
  | reference field | listLength | isGesture | isOrientation | angle =>
      simp only [reporter, bind_eq_ok_iff, pure_eq_ok_iff] at h
      obtain ⟨_, _, rfl⟩ := h
      trivial
  | reading r =>
      obtain rfl := Except.ok.inj h
      trivial
  | button =>
      simp only [reporter, bind_eq_ok_iff, pure_eq_ok_iff] at h
      obtain ⟨_, _, _, _, rfl⟩ := h
      trivial
  | listQuery q name =>
      simp only [reporter, bind_eq_ok_iff, pure_eq_ok_iff] at h
      obtain ⟨list, _, operand, hoperand, rfl⟩ := h
      have hwf : operand.WellFormed := operand_wellFormed hslot hoperand
      exact hwf
  | unary op name =>
      simp only [reporter, bind_eq_ok_iff, pure_eq_ok_iff] at h
      obtain ⟨operand, hoperand, rfl⟩ := h
      refine ⟨?_, operand_wellFormed hslot hoperand⟩
      rintro f rfl
      cases hform
  | binary op left right =>
      simp only [reporter, bind_eq_ok_iff, pure_eq_ok_iff] at h
      obtain ⟨l, hl, r, hr, rfl⟩ := h
      refine ⟨?_, operand_wellFormed hslot hl, operand_wellFormed hslot hr⟩
      rintro f rfl
      cases hform
  | between =>
      simp only [reporter, bind_eq_ok_iff, pure_eq_ok_iff] at h
      obtain ⟨value, hvalue, low, hlow, high, hhigh, rfl⟩ := h
      exact ⟨operand_wellFormed hslot hvalue, operand_wellFormed hslot hlow,
        operand_wellFormed hslot hhigh⟩
  | functionOfOne =>
      simp only [reporter, bind_eq_ok_iff, pure_eq_ok_iff] at h
      obtain ⟨f, hf, operand, hoperand, rfl⟩ := h
      refine ⟨?_, operand_wellFormed hslot hoperand⟩
      rintro g hg
      obtain rfl := UnaryOp.math.inj hg
      exact arity_of_function hf
  | functionOfTwo =>
      simp only [reporter, bind_eq_ok_iff, pure_eq_ok_iff] at h
      obtain ⟨f, hf, l, hl, r, hr, rfl⟩ := h
      refine ⟨?_, operand_wellFormed hslot hl, operand_wellFormed hslot hr⟩
      rintro g hg
      obtain rfl := BinaryOp.math.inj hg
      exact arity_of_function hf
  | device q =>
      simp only [reporter, bind_eq_ok_iff, pure_eq_ok_iff] at h
      obtain ⟨port, hport, rfl⟩ := h
      exact Project.isPortSet_ports hport
  | distance =>
      simp only [reporter, bind_eq_ok_iff, pure_eq_ok_iff] at h
      obtain ⟨port, hport, unit, _, rfl⟩ := h
      exact Project.isPortSet_ports hport
  | isColor =>
      simp only [reporter, bind_eq_ok_iff, pure_eq_ok_iff] at h
      obtain ⟨port, hport, color, hcolor, rfl⟩ := h
      exact ⟨Project.isPortSet_ports hport, operand_wellFormed hslot hcolor⟩
  | isReflectedLight =>
      simp only [reporter, bind_eq_ok_iff, pure_eq_ok_iff] at h
      obtain ⟨port, hport, _, _, value, hvalue, rfl⟩ := h
      exact ⟨Project.isPortSet_ports hport, operand_wellFormed hslot hvalue⟩
  | isDistance =>
      simp only [reporter, bind_eq_ok_iff, pure_eq_ok_iff] at h
      obtain ⟨port, hport, _, _, value, hvalue, _, _, rfl⟩ := h
      exact ⟨Project.isPortSet_ports hport, operand_wellFormed hslot hvalue⟩
  | keyPressed =>
      simp only [reporter, bind_eq_ok_iff, pure_eq_ok_iff] at h
      obtain ⟨key, hkey, rfl⟩ := h
      have hwf : key.WellFormed := operand_wellFormed hslot hkey
      exact hwf

theorem expression_cases {bestEffort : Bool} (h : b.expression p bestEffort slot = .ok e) :
    (∃ s, e = .text s) ∨
      (∃ form, b.menuValue? = none ∧ ReporterForm.ofOpcode? b.opcode = some form ∧
        b.reporter p slot form = .ok e) ∨
      e = .zero := by
  unfold expression at h
  split at h
  · exact .inl ⟨_, (Except.ok.inj h).symm⟩
  · split at h
    · exact .inr (.inl ⟨_, ‹_›, ‹_›, h⟩)
    · split at h
      · exact .inr (.inr (Except.ok.inj h).symm)
      · cases h

theorem expression_wellFormed {bestEffort : Bool}
    (hslot : ∀ binding e, slot binding = .ok e → e.WellFormed)
    (h : b.expression p bestEffort slot = .ok e) : e.WellFormed := by
  rcases expression_cases h with ⟨s, rfl⟩ | ⟨form, _, hform, h⟩ | rfl
  · trivial
  · exact reporter_wellFormed (ReporterForm.namesFunction_of_ofOpcode? hform) hslot h
  · trivial

end

end Block

namespace Project

variable {p : Project} {bestEffort : Bool}

theorem exprIn_eq (path : List String) (binding : Json) :
    p.exprIn bestEffort path binding = (Slot.ofJson binding >>= fun slot =>
      match slot with
      | .value e => .ok e
      | .block id =>
        if id ∈ path then .error (.malformed (.cyclicNesting id))
        else p.block id >>= fun b =>
          b.expression p bestEffort (p.exprIn bestEffort (id :: path))) := by
  rw [exprIn]
  rcases Slot.ofJson binding with e | id | e
  · rfl
  · change _ = if id ∈ path then _ else _
    by_cases hmem : id ∈ path
    · simp only [hmem, dite_true, if_true]
    · simp only [hmem, dite_false, if_false]
      split
      · rename_i hb
        rw [hb]
        rfl
      · rename_i hb
        rw [hb]
        rfl
  · rfl

theorem exprIn_cases {path : List String} {binding : Json} {e : Expr}
    (h : p.exprIn bestEffort path binding = .ok e) :
    Slot.ofJson binding = .ok (.value e) ∨
      ∃ id b, Slot.ofJson binding = .ok (.block id) ∧ id ∉ path ∧ p.block id = .ok b ∧
        b.expression p bestEffort (p.exprIn bestEffort (id :: path)) = .ok e := by
  rw [exprIn_eq, bind_eq_ok_iff] at h
  obtain ⟨slot, hslot, h⟩ := h
  cases slot with
  | value e' =>
      obtain rfl := Except.ok.inj h
      exact .inl hslot
  | block id =>
      dsimp only at h
      split at h
      · cases h
      · obtain ⟨b, hb, h⟩ := bind_eq_ok_iff.mp h
        exact .inr ⟨id, b, hslot, ‹_›, hb, h⟩

theorem stackIn_some (path visited : List String) (id : String) :
    p.stackIn bestEffort path visited (some id) =
      if id ∈ visited then .error (.malformed (.cyclicChain id))
      else if id ∈ path then .error (.malformed (.cyclicNesting id))
      else p.block id >>= fun b =>
        b.statement p (p.expr bestEffort) bestEffort (p.stackIn bestEffort (id :: path) []) >>=
          fun first => p.stackIn bestEffort path (id :: visited) b.next >>=
            fun rest => .ok (first :: rest) := by
  rw [stackIn]
  by_cases hvisited : id ∈ visited
  · simp only [hvisited, dite_true, if_true]
  · by_cases hpath : id ∈ path
    · simp only [hvisited, hpath, dite_true, dite_false, if_true, if_false]
    · simp only [hvisited, hpath, dite_false, if_false]
      split
      · rename_i hb
        rw [hb]
        rfl
      · rename_i hb
        rw [hb]
        rfl

theorem stackIn_cases {path visited : List String} {id : String} {s : Stack}
    (h : p.stackIn bestEffort path visited (some id) = .ok s) :
    ∃ b first rest, id ∉ visited ∧ id ∉ path ∧ p.block id = .ok b ∧
      b.statement p (p.expr bestEffort) bestEffort (p.stackIn bestEffort (id :: path) []) =
        .ok first ∧
      p.stackIn bestEffort path (id :: visited) b.next = .ok rest ∧ first :: rest = s := by
  rw [stackIn_some] at h
  split at h
  · cases h
  · split at h
    · cases h
    · simp only [bind_eq_ok_iff, Except.ok.injEq] at h
      obtain ⟨b, hb, first, hfirst, rest, hrest, hs⟩ := h
      exact ⟨b, first, rest, ‹_›, ‹_›, hb, hfirst, hrest, hs⟩

/-- What is bound to slots and what it becomes are related, if values are and if the relation
passes from the operands of a block to the block. -/
theorem exprIn_induction {P : Json → Expr → Prop}
    (value : ∀ binding e, Slot.ofJson binding = .ok (.value e) → P binding e)
    (block : ∀ binding id b slot e, Slot.ofJson binding = .ok (.block id) → p.block id = .ok b →
      (∀ inner e, slot inner = .ok e → P inner e) → b.expression p bestEffort slot = .ok e →
      P binding e)
    {path : List String} {binding : Json} {e : Expr}
    (h : p.exprIn bestEffort path binding = .ok e) : P binding e := by
  -- On the number of blocks that are not yet on the path, which every step into a block lowers.
  induction hn : p.remaining path using Nat.strongRecOn generalizing path binding e with
  | ind n ih =>
      rcases exprIn_cases h with hvalue | ⟨id, b, hslot, hpath, hb, h⟩
      · exact value _ _ hvalue
      · have hlt := hn ▸ remaining_cons_lt hb hpath
        exact block _ id b _ e hslot hb (fun _ _ hinner => ih _ hlt hinner rfl) h

/-- Where stacks start and what they become are related, if the relation passes from the bodies of
a block and from the next block to the stack that starts with it. -/
theorem stackIn_induction {P : Option String → Stack → Prop} (nil : P none [])
    (cons : ∀ id b stack first rest, p.block id = .ok b →
      (∀ start body, stack start = .ok body → P start body) →
      b.statement p (p.expr bestEffort) bestEffort stack = .ok first → P b.next rest →
      P (some id) (first :: rest))
    {path visited : List String} {start : Option String} {s : Stack}
    (h : p.stackIn bestEffort path visited start = .ok s) : P start s := by
  -- A body starts with an empty list of visited blocks and a longer path, the next statement keeps
  -- the path: neither list alone carries the induction, so it follows the recursion itself.
  induction path, visited, start using stackIn.induct p generalizing s with
  | case1 path visited =>
      rw [stackIn] at h
      obtain rfl := Except.ok.inj h
      exact nil
  | case2 path visited id hmem =>
      obtain ⟨_, _, _, hvisited, _⟩ := stackIn_cases h
      exact absurd hmem hvisited
  | case3 path visited id _ hmem =>
      obtain ⟨_, _, _, _, hpath, _⟩ := stackIn_cases h
      exact absurd hmem hpath
  | case4 path visited id _ _ _ herror =>
      obtain ⟨_, _, _, _, _, hb, _⟩ := stackIn_cases h
      rw [herror] at hb
      cases hb
  | case5 path visited id _ _ b hb ihbody ihrest =>
      obtain ⟨b', first, rest, _, _, hb', hfirst, hrest, rfl⟩ := stackIn_cases h
      obtain rfl := Except.ok.inj (hb.symm.trans hb')
      exact cons id b _ first rest hb (fun start _ => ihbody start) hfirst (ihrest hrest)

theorem expr_wellFormed {binding : Json} {e : Expr} (h : p.expr bestEffort binding = .ok e) :
    e.WellFormed :=
  exprIn_induction (P := fun _ e => e.WellFormed) (fun _ _ => Slot.wellFormed_of_value)
    (fun _ _ _ _ _ _ _ hslot => Block.expression_wellFormed hslot) h

end Project

namespace Block

section

variable {p : Project} {slot : Json → Except CompileError Expr} {b : Block}
  (hslot : ∀ binding e, slot binding = .ok e → e.WellFormed)

include hslot

theorem Reads.wellFormed {layout : BlockLayout} {references : List Reference}
    {operands : List Expr} (h : b.Reads p slot layout references operands)
    (hlayout : ∀ s ∈ layout.operands, ∃ name, s = .value name) :
    ∀ e ∈ operands, e.WellFormed := by
  intro e he
  obtain ⟨s, hs, hread⟩ := exists_of_mem_right h.operands he
  obtain ⟨name, rfl⟩ := hlayout s hs
  exact operand_wellFormed hslot hread

theorem dataAction_wellFormed {form : DataForm} {a : DataAction}
    (h : b.dataAction p slot form = .ok a) : ∀ e ∈ a.operands, e.WellFormed := by
  refine (dataAction_reads h).wellFormed hslot ?_
  cases form <;> simp [DataForm.layout]

theorem motorAction_wellFormed {form : MotorForm} {a : MotorAction}
    (h : b.motorAction p slot form = .ok a) : a.WellFormed := by
  cases form with
  | run =>
      simp only [motorAction, bind_eq_ok_iff, pure_eq_ok_iff] at h
      obtain ⟨ports, hports, _, _, value, hvalue, _, _, rfl⟩ := h
      exact ⟨Project.isPortSet_ports hports, operand_wellFormed hslot hvalue⟩
  | goTo =>
      simp only [motorAction, bind_eq_ok_iff, pure_eq_ok_iff] at h
      obtain ⟨ports, hports, _, _, position, hposition, rfl⟩ := h
      exact ⟨Project.isPortSet_ports hports, operand_wellFormed hslot hposition⟩
  | start =>
      simp only [motorAction, bind_eq_ok_iff, pure_eq_ok_iff] at h
      obtain ⟨ports, hports, _, _, rfl⟩ := h
      exact Project.isPortSet_ports hports
  | stop =>
      simp only [motorAction, bind_eq_ok_iff, pure_eq_ok_iff] at h
      obtain ⟨ports, hports, rfl⟩ := h
      exact Project.isPortSet_ports hports
  | setSpeed =>
      simp only [motorAction, bind_eq_ok_iff, pure_eq_ok_iff] at h
      obtain ⟨ports, hports, speed, hspeed, rfl⟩ := h
      exact ⟨Project.isPortSet_ports hports, operand_wellFormed hslot hspeed⟩

theorem movementAction_wellFormed {form : MovementForm} {a : MovementAction}
    (h : b.movementAction p slot form = .ok a) : a.WellFormed := by
  cases form with
  | move =>
      simp only [movementAction, bind_eq_ok_iff, pure_eq_ok_iff] at h
      obtain ⟨_, _, value, hvalue, _, _, rfl⟩ := h
      simpa [MovementAction.WellFormed, MovementAction.operands] using
        operand_wellFormed hslot hvalue
  | steer =>
      simp only [movementAction, bind_eq_ok_iff, pure_eq_ok_iff] at h
      obtain ⟨steering, hsteering, value, hvalue, _, _, rfl⟩ := h
      simpa [MovementAction.WellFormed, MovementAction.operands] using
        ⟨operand_wellFormed hslot hsteering, operand_wellFormed hslot hvalue⟩
  | start =>
      simp only [movementAction, bind_eq_ok_iff, pure_eq_ok_iff] at h
      obtain ⟨_, _, rfl⟩ := h
      simp [MovementAction.WellFormed, MovementAction.operands]
  | stop =>
      obtain rfl := Except.ok.inj h
      simp [MovementAction.WellFormed, MovementAction.operands]
  | startSteering | setSpeed =>
      simp only [movementAction, bind_eq_ok_iff, pure_eq_ok_iff] at h
      obtain ⟨value, hvalue, rfl⟩ := h
      simpa [MovementAction.WellFormed, MovementAction.operands] using
        operand_wellFormed hslot hvalue
  | setMotors =>
      simp only [movementAction, bind_eq_ok_iff, pure_eq_ok_iff] at h
      obtain ⟨ports, hports, rfl⟩ := h
      exact Project.isPortPair_ports hports
  | setRotation =>
      simp only [movementAction, bind_eq_ok_iff, pure_eq_ok_iff] at h
      obtain ⟨distance, hdistance, _, _, rfl⟩ := h
      simpa [MovementAction.WellFormed, MovementAction.operands] using
        operand_wellFormed hslot hdistance

theorem lightAction_wellFormed {form : LightForm} {a : LightAction}
    (h : b.lightAction p slot form = .ok a) : a.WellFormed := by
  cases form with
  | displayFor =>
      simp only [lightAction, bind_eq_ok_iff, pure_eq_ok_iff] at h
      obtain ⟨pattern, hpattern, duration, hduration, rfl⟩ := h
      simpa [LightAction.WellFormed, LightAction.operands] using
        ⟨operand_wellFormed hslot hpattern, operand_wellFormed hslot hduration⟩
  | display | write | setBrightness | setButton =>
      simp only [lightAction, bind_eq_ok_iff, pure_eq_ok_iff] at h
      obtain ⟨value, hvalue, rfl⟩ := h
      simpa [LightAction.WellFormed, LightAction.operands] using operand_wellFormed hslot hvalue
  | off =>
      obtain rfl := Except.ok.inj h
      simp [LightAction.WellFormed, LightAction.operands]
  | setPixel =>
      simp only [lightAction, bind_eq_ok_iff, pure_eq_ok_iff] at h
      obtain ⟨x, hx, y, hy, brightness, hbrightness, rfl⟩ := h
      simpa [LightAction.WellFormed, LightAction.operands] using
        ⟨operand_wellFormed hslot hx, operand_wellFormed hslot hy,
          operand_wellFormed hslot hbrightness⟩
  | lightSensor =>
      simp only [lightAction, bind_eq_ok_iff, pure_eq_ok_iff] at h
      obtain ⟨port, hport, pattern, hpattern, rfl⟩ := h
      exact ⟨Project.isPortSet_ports hport, operand_wellFormed hslot hpattern⟩

theorem soundAction_wellFormed {form : SoundForm} {a : SoundAction}
    (h : b.soundAction p slot form = .ok a) : ∀ e ∈ a.operands, e.WellFormed := by
  refine (soundAction_reads h).wellFormed hslot ?_
  cases form <;> simp [SoundForm.layout]

theorem statementOf_loweredFrom {bestEffort : Bool} {opcode : String} {form : StatementForm}
    {stack : Option String → Except CompileError Stack} {s : Stmt}
    (hform : (opcode, form) ∈ statementForms)
    (hstack : ∀ start body, stack start = .ok body → Stack.LoweredFrom p bestEffort body)
    (h : b.statementOf p slot stack form = .ok s) : s.LoweredFrom p bestEffort := by
  cases form with
  | hat | resetTimer | resetYaw =>
      obtain rfl := Except.ok.inj h
      trivial
  | missing name feature =>
      obtain rfl := Except.ok.inj h
      exact ⟨opcode, hform⟩
  | data form =>
      simp only [statementOf, bind_eq_ok_iff, pure_eq_ok_iff] at h
      obtain ⟨a, ha, rfl⟩ := h
      exact dataAction_wellFormed hslot ha
  | motor form =>
      simp only [statementOf, bind_eq_ok_iff, pure_eq_ok_iff] at h
      obtain ⟨a, ha, rfl⟩ := h
      exact motorAction_wellFormed hslot ha
  | movement form =>
      simp only [statementOf, bind_eq_ok_iff, pure_eq_ok_iff] at h
      obtain ⟨a, ha, rfl⟩ := h
      exact movementAction_wellFormed hslot ha
  | light form =>
      simp only [statementOf, bind_eq_ok_iff, pure_eq_ok_iff] at h
      obtain ⟨a, ha, rfl⟩ := h
      exact lightAction_wellFormed hslot ha
  | sound form =>
      simp only [statementOf, bind_eq_ok_iff, pure_eq_ok_iff] at h
      obtain ⟨a, ha, rfl⟩ := h
      exact soundAction_wellFormed hslot ha
  | wait | waitUntil =>
      simp only [statementOf, bind_eq_ok_iff, pure_eq_ok_iff] at h
      obtain ⟨e, he, rfl⟩ := h
      simpa [Stmt.LoweredFrom, Action.LoweredFrom] using operand_wellFormed hslot he
  | forever =>
      simp only [statementOf, bind_eq_ok_iff, pure_eq_ok_iff] at h
      obtain ⟨body, hbody, rfl⟩ := h
      simpa [Stmt.LoweredFrom] using hstack _ _ hbody
  | repeatTimes | repeatUntil | ifThen =>
      simp only [statementOf, bind_eq_ok_iff, pure_eq_ok_iff] at h
      obtain ⟨e, he, body, hbody, rfl⟩ := h
      simpa [Stmt.LoweredFrom] using ⟨operand_wellFormed hslot he, hstack _ _ hbody⟩
  | ifElse =>
      simp only [statementOf, bind_eq_ok_iff, pure_eq_ok_iff] at h
      obtain ⟨e, he, body, hbody, orElse, horElse, rfl⟩ := h
      simpa [Stmt.LoweredFrom] using
        ⟨operand_wellFormed hslot he, hstack _ _ hbody, hstack _ _ horElse⟩

omit hslot in
theorem statement_cases {bestEffort : Bool} {stack : Option String → Except CompileError Stack}
    {s : Stmt} (h : b.statement p slot bestEffort stack = .ok s) :
    (∃ form, StatementForm.ofOpcode? b.opcode = some form ∧
        b.statementOf p slot stack form = .ok s) ∨
      bestEffort = true ∧ StatementForm.ofOpcode? b.opcode = none ∧
        s = .action (.placeholder b.opcode none) := by
  unfold statement at h
  split at h
  · exact .inl ⟨_, ‹_›, h⟩
  · split at h
    · exact .inr ⟨‹_›, ‹_›, (Except.ok.inj h).symm⟩
    · cases h

theorem statement_loweredFrom {bestEffort : Bool} {id : String}
    {stack : Option String → Except CompileError Stack} {s : Stmt} (hb : p.block id = .ok b)
    (hstack : ∀ start body, stack start = .ok body → Stack.LoweredFrom p bestEffort body)
    (h : b.statement p slot bestEffort stack = .ok s) : s.LoweredFrom p bestEffort := by
  rcases statement_cases h with ⟨form, hform, h⟩ | ⟨heffort, hunknown, rfl⟩
  · exact statementOf_loweredFrom hslot (mem_of_lookup_eq_some hform) hstack h
  · exact ⟨heffort, hunknown, id, b, hb, rfl⟩

end

end Block

namespace Project

variable {p : Project} {bestEffort : Bool}

theorem stack_loweredFrom {start : Option String} {s : Stack}
    (h : p.stack bestEffort start = .ok s) : Stack.LoweredFrom p bestEffort s := by
  refine stackIn_induction (P := fun _ s => Stack.LoweredFrom p bestEffort s) trivial ?_ h
  intro id b stack first rest hb hbodies hfirst hrest
  exact ⟨Block.statement_loweredFrom (fun _ _ => expr_wellFormed) hb hbodies hfirst, hrest⟩

theorem forest_eq_ok_iff {forest : Forest} : p.forest bestEffort = .ok forest ↔
    List.Forall₂ (fun id s => p.stack bestEffort (some id) = .ok s) p.roots forest := by
  unfold Project.forest
  generalize p.roots = roots
  induction roots generalizing forest with
  | nil =>
      rw [List.mapM_nil, pure_eq_ok_iff, List.forall₂_nil_left_iff]
      exact eq_comm
  | cons id roots ih =>
      simp only [List.mapM_cons, bind_eq_ok_iff, pure_eq_ok_iff, ih, List.forall₂_cons_left_iff]
      constructor
      · rintro ⟨first, hfirst, rest, hrest, rfl⟩
        exact ⟨first, rest, hfirst, hrest, rfl⟩
      · rintro ⟨first, rest, hfirst, hrest, rfl⟩
        exact ⟨first, hfirst, rest, hrest, rfl⟩

end Project

/-- A program that is lowered from a project has only stacks that the blocks of the project give. -/
theorem loweredFrom_of_lower {project : Json} {bestEffort : Bool} {forest : Forest}
    (h : lower project bestEffort = .ok forest) :
    ∃ p, Project.ofJson project = .ok p ∧ ∀ s ∈ forest, Stack.LoweredFrom p bestEffort s := by
  simp only [lower, bind_eq_ok_iff] at h
  obtain ⟨p, hp, hforest⟩ := h
  refine ⟨p, hp, fun s hs => ?_⟩
  obtain ⟨id, _, hstack⟩ := exists_of_mem_right (Project.forest_eq_ok_iff.mp hforest) hs
  exact Project.stack_loweredFrom hstack

section

variable {p : Project} {bestEffort : Bool}

theorem Action.operands_cases {a : Action} (ha : a.LoweredFrom p bestEffort) :
    ∀ e ∈ a.operands, e.WellFormed ∨ e.IsPortSet ∨ e.IsPortPair := by
  cases a with
  | data a | sound a => exact fun e he => .inl (ha e he)
  | motor a =>
      cases a with
      | run | goTo | setSpeed =>
          simpa [operands, MotorAction.operands] using ⟨.inr (.inl ha.1), .inl ha.2⟩
      | start | stop => simpa [operands, MotorAction.operands] using .inr (.inl ha)
  | movement a =>
      cases a with
      | setMotors ports => simpa [operands, MovementAction.operands] using .inr (.inr ha)
      | _ => exact fun e he => .inl (ha e he)
  | light a =>
      cases a with
      | lightSensor port pattern =>
          simpa [operands, LightAction.operands] using ⟨.inr (.inl ha.1), .inl ha.2⟩
      | _ => exact fun e he => .inl (ha e he)
  | wait e | waitUntil e => simpa [operands] using .inl ha
  | resetTimer | resetYaw | placeholder _ _ => simp [operands]

theorem Stmt.operands_cases {s : Stmt} (hs : s.LoweredFrom p bestEffort) :
    ∀ e ∈ s.operands, e.WellFormed ∨ e.IsPortSet ∨ e.IsPortPair := by
  cases s with
  | hat x y | forever body => simp [operands]
  | action a => exact Action.operands_cases hs
  | repeatTimes e body | repeatUntil e body | ifThen e body | ifElse e body orElse =>
      exact List.forall_mem_singleton.mpr (.inl hs.1)

theorem Expr.children_cases {e : Expr} (he : e.WellFormed ∨ e.IsPortSet ∨ e.IsPortPair) :
    ∀ d ∈ e.children, d.WellFormed ∨ d.IsPortSet ∨ d.IsPortPair := by
  have hports : e.IsPortSet ∨ e.IsPortPair → e.children = [] := by
    cases e with
    | ref r | ports letters => exact fun _ => rfl
    | _ => exact fun h => (h.elim id id).elim
  rcases he with he | he
  · cases e with
    | number _ | text _ | ref _ | ports _ | reading _ | listLength _ => simp [children]
    | unary op a => simpa [children] using .inl he.2
    | keyPressed a | listQuery _ _ a => simpa [children] using .inl he
    | binary op a b => simpa [children] using ⟨.inl he.2.1, .inl he.2.2⟩
    | between v a b => simpa [children] using ⟨.inl he.1, .inl he.2.1, .inl he.2.2⟩
    | device query port => simpa [children] using .inr (.inl he)
    | deviceTest test port value => simpa [children] using ⟨.inr (.inl he.1), .inl he.2⟩
  · simp [hports he]

theorem Expr.letters_subset {e : Expr} (he : e.WellFormed ∨ e.IsPortSet ∨ e.IsPortPair) :
    ∀ c ∈ e.letters, c ∈ portLetters := by
  cases e with
  | ports letters =>
      rcases he with he | he | he
      · exact he.elim
      · exact he.2.2
      · unfold IsPortPair at he
        split at he
        · rename_i heq
          cases heq
        · rename_i left right heq
          obtain rfl := Expr.ports.inj heq
          simpa [Expr.letters] using ⟨he.1, he.2.1⟩
        · exact he.elim
  | _ => exact List.forall_mem_nil _

theorem Expr.portsIn_portLetters {e : Expr} (he : e.WellFormed ∨ e.IsPortSet ∨ e.IsPortPair) :
    e.PortsIn (· ∈ portLetters) := by
  refine .of_visible (letters_subset he) fun o ho => ?_
  have hvisible : .expr o ∈ (Node.expr e).visible := List.mem_map_of_mem ho
  have hlt := Node.size_lt_of_mem_visible hvisible
  have hchild : o ∈ e.children := by
    simpa [Node.children] using Node.visible_subset _ _ hvisible
  exact portsIn_portLetters (children_cases he o hchild)
termination_by (Node.expr e).size

/-- Statements among the nodes of a program are as the blocks of a project give them. -/
def Node.LoweredFrom (p : Project) (bestEffort : Bool) : Node → Prop
  | expr _ => True
  | stack first _ => first.LoweredFrom p bestEffort

mutual

theorem Stmt.loweredFrom_bodies {s : Stmt} (hs : s.LoweredFrom p bestEffort) :
    ∀ body ∈ s.bodies, ∀ n ∈ Stack.visited body, n.LoweredFrom p bestEffort := by
  cases s with
  | hat x y | action a => simp [Stmt.bodies]
  | forever body => simpa [Stmt.bodies] using Stack.loweredFrom_visited hs
  | repeatTimes e body | repeatUntil e body | ifThen e body =>
      simpa [Stmt.bodies] using Stack.loweredFrom_visited hs.2
  | ifElse e body orElse =>
      simpa [Stmt.bodies] using
        ⟨Stack.loweredFrom_visited hs.2.1, Stack.loweredFrom_visited hs.2.2⟩

theorem Stack.loweredFrom_visited {s : List Stmt} (hs : Stack.LoweredFrom p bestEffort s) :
    ∀ n ∈ Stack.visited s, n.LoweredFrom p bestEffort := by
  cases s with
  | nil => simp
  | cons first rest =>
      rw [Stack.forall_mem_visited_cons fun _ => trivial]
      exact ⟨hs.1, Stmt.loweredFrom_bodies hs.1, Stack.loweredFrom_visited hs.2⟩

end

theorem Forest.loweredFrom_visited {forest : Forest}
    (hforest : ∀ s ∈ forest, Stack.LoweredFrom p bestEffort s) :
    ∀ n ∈ Forest.visited forest, n.LoweredFrom p bestEffort := by
  intro n hn
  obtain ⟨root, hroot, hn⟩ := List.mem_flatMap.mp hn
  split at hn
  · exact Stack.loweredFrom_visited (hforest _ hroot).2 n hn
  · cases hn

theorem Forest.portsIn_portLetters {forest : Forest}
    (hforest : ∀ s ∈ forest, Stack.LoweredFrom p bestEffort s) :
    Forest.PortsIn (· ∈ portLetters) forest := by
  intro e he
  obtain ⟨first, rest, hfirst, o, ho, he⟩ := Forest.exists_operand_of_mem_visited he
  exact Expr.portsIn_portLetters
    (Stmt.operands_cases (loweredFrom_visited hforest _ hfirst) o ho) e he

end

/-- A project file with some declarations, whose program is a hat above the block `below`. -/
def Json.program (vars lists blocks : List (String × Json)) : Json :=
  .object [("targets", .array [.null, .object
      [("variables", .object vars), ("lists", .object lists), ("broadcasts", .object []),
        ("blocks", .object
          (("hat", .object [("opcode", .string "flipperevents_whenProgramStarts"),
            ("next", .string "below"), ("topLevel", .bool true)]) :: blocks))]]),
    ("extensions", .array [])]

end WordBlocks
