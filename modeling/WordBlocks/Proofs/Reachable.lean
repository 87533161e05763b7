import WordBlocks.Proofs.Lowered

/-!
The blocks that a program is made of. Lowering starts at the roots and only ever follows the link of
a block to the next one and the texts in its slots, so projects that agree on the blocks found in
this way, and on the names they declare, lower to the same program (`lower_eq_of_agree`). The rest
of a project file has no part in it.
-/

namespace WordBlocks

/-- The texts that occur in a value at any depth. -/
inductive Json.HasText : Json → String → Prop where
  | here (s : String) : HasText (.string s) s
  | item {items : List Json} {v : Json} {s : String} (hv : v ∈ items) (hs : HasText v s) :
      HasText (.array items) s
  | field {fields : List (String × Json)} {key : String} {v : Json} {s : String}
      (hv : (key, v) ∈ fields) (hs : HasText v s) : HasText (.object fields) s

@[simp] theorem Json.hasText_string {s t : String} : (Json.string t).HasText s ↔ s = t := by
  constructor
  · rintro ⟨⟩
    rfl
  · rintro rfl
    exact .here s

@[simp] theorem Json.not_hasText_number {n : JsonNumber} {s : String} :
    ¬(Json.number n).HasText s := by
  rintro ⟨⟩

@[simp] theorem Json.hasText_array {items : List Json} {s : String} :
    (Json.array items).HasText s ↔ ∃ v ∈ items, v.HasText s := by
  constructor
  · rintro ⟨⟩
    exact ⟨_, ‹_›, ‹_›⟩
  · rintro ⟨v, hv, hs⟩
    exact .item hv hs

namespace Project

/-- The identifiers that are found from the roots by following the links and the slots of blocks.
They need not all be identifiers of blocks. -/
inductive Reachable (p : Project) : String → Prop where
  | root {id : String} (hid : id ∈ p.roots) : p.Reachable id
  | next {id next : String} {b : Block} (hid : p.Reachable id) (hb : p.block id = .ok b)
      (hnext : b.next = some next) : p.Reachable next
  | input {id slot s : String} {b : Block} {binding : Json} (hid : p.Reachable id)
      (hb : p.block id = .ok b) (hslot : (slot, binding) ∈ b.inputs) (hs : binding.HasText s) :
      p.Reachable s

/-- Projects that declare the same names for the same identifiers and have the same reachable
blocks. -/
structure Agree (p q : Project) : Prop where
  variableNames : ∀ id, (p.variableDecl? id).map (·.name) = (q.variableDecl? id).map (·.name)
  listNames : ∀ id, (p.listDecl? id).map (·.name) = (q.listDecl? id).map (·.name)
  roots : p.roots = q.roots
  blocks : ∀ id, p.Reachable id → p.blocks.lookup id = q.blocks.lookup id

end Project

theorem Slot.hasText_of_ofJson {binding : Json} {id : String}
    (h : Slot.ofJson binding = .ok (.block id)) : binding.HasText id := by
  fun_induction Slot.ofJson binding with
  | case1 s =>
      obtain rfl := Slot.block.inj (Except.ok.inj h)
      exact .here _
  | case2 head rest code _ _ =>
      cases hprimitive : primitive code rest <;> rw [hprimitive] at h <;> cases h
  | case4 _ _ _ _ shadow _ _ ih => exact .item (by simp) (ih h)
  | case7 _ _ _ _ payload _ _ _ _ ih => exact .item (by simp) (ih h)
  | _ => cases h

namespace Block

theorem mem_inputs_of_input? {b : Block} {slot : String} {binding : Json}
    (h : b.input? slot = some binding) : (slot, binding) ∈ b.inputs := by
  obtain ⟨l₁, l₂, hl, -⟩ := List.lookup_eq_some_iff.mp h
  simp [hl]

theorem hasText_of_inputBlock? {b : Block} {slot id : String} (h : b.inputBlock? slot = some id) :
    ∃ binding, (slot, binding) ∈ b.inputs ∧ binding.HasText id := by
  unfold inputBlock? at h
  split at h
  case h_1 s hinput =>
    obtain rfl := Option.some.inj h
    exact ⟨_, mem_inputs_of_input? hinput, .here s⟩
  case h_2 items hinput =>
    obtain ⟨v, hv, htext⟩ := Option.bind_eq_some_iff.mp h
    refine ⟨_, mem_inputs_of_input? hinput, .item (List.mem_of_getElem? hv) ?_⟩
    cases v with
    | string s =>
        obtain rfl := Option.some.inj htext
        exact .here s
    | _ => cases htext
  case h_3 => cases h

end Block

theorem bind_congr_ok {α β : Type} {x y : Except CompileError α}
    {f g : α → Except CompileError β} (hxy : x = y) (hfg : ∀ a, y = .ok a → f a = g a) :
    (x >>= f) = (y >>= g) := by
  subst hxy
  cases x with
  | error e => rfl
  | ok a => exact hfg a rfl

theorem mapM_congr_mem {α β : Type} {f g : α → Except CompileError β} {l : List α}
    (h : ∀ a ∈ l, f a = g a) : l.mapM f = l.mapM g := by
  induction l with
  | nil => rfl
  | cons a l ih =>
      rw [List.forall_mem_cons] at h
      rw [List.mapM_cons, List.mapM_cons, h.1, ih h.2]

namespace Project.Agree

variable {p q : Project} (h : Agree p q)

include h

theorem block_eq {id : String} (hid : p.Reachable id) : p.block id = q.block id := by
  rw [Project.block, Project.block, h.blocks id hid]

theorem reference_eq (b : Block) : p.reference b = q.reference b := by
  funext field
  simp only [Project.reference, Project.declaredName?, h.variableNames, h.listNames]

section Step

variable {id : String} {b : Block} (hid : p.Reachable id) (hb : p.block id = .ok b)

include hid hb

theorem inputBlock?_eq {slot source : String} (hsource : b.inputBlock? slot = some source) :
    p.block source = q.block source := by
  obtain ⟨binding, hslot, htext⟩ := Block.hasText_of_inputBlock? hsource
  exact h.block_eq (.input hid hb hslot htext)

theorem ports_eq (read : String → Except CompileError Expr) : p.ports read b = q.ports read b := by
  funext slot
  unfold Project.ports
  split
  · rfl
  split
  case h_1 source hsource =>
    rw [h.inputBlock?_eq hid hb hsource]
    refine bind_congr_ok rfl fun menu _ => ?_
    rw [h.reference_eq menu]
  case h_2 => rfl

theorem sound_eq : p.sound b = q.sound b := by
  unfold Project.sound
  split
  case h_1 source hsource => rw [h.inputBlock?_eq hid hb hsource]
  case h_2 => rfl

variable {slot slot' : Json → Except CompileError Expr}
  (hslot : ∀ binding, (∀ s, binding.HasText s → p.Reachable s) → slot binding = slot' binding)

include hslot

omit h in
theorem operand_eq : b.operand slot = b.operand slot' := by
  funext name
  unfold Block.operand
  split
  case h_1 binding hinput =>
    refine hslot binding fun s hs => ?_
    exact .input hid hb (Block.mem_inputs_of_input? hinput) hs
  case h_2 => rfl

theorem expression_eq (bestEffort : Bool) :
    b.expression p bestEffort slot = b.expression q bestEffort slot' := by
  have operand := operand_eq hid hb hslot
  have ports := h.ports_eq hid hb portSet
  have reporter : ∀ form, b.reporter p slot form = b.reporter q slot' form := by
    intro form
    cases form <;> simp only [Block.reporter, operand, ports, h.reference_eq b]
  simp only [Block.expression, reporter]

theorem statement_eq (bestEffort : Bool) {stack stack' : Option String → Except CompileError Stack}
    (hstack : ∀ start, (∀ s, start = some s → p.Reachable s) → stack start = stack' start) :
    b.statement p slot bestEffort stack = b.statement q slot' bestEffort stack' := by
  have operand := operand_eq hid hb hslot
  have reference := h.reference_eq b
  have ports := h.ports_eq hid hb
  have body : ∀ name, stack (b.inputBlock? name) = stack' (b.inputBlock? name) := by
    intro name
    refine hstack _ fun s hs => ?_
    obtain ⟨binding, hbinding, htext⟩ := Block.hasText_of_inputBlock? hs
    exact .input hid hb hbinding htext
  have statementOf :
      ∀ form, b.statementOf p slot stack form = b.statementOf q slot' stack' form := by
    intro form
    cases form with
    | data form =>
        have data : b.dataAction p slot form = b.dataAction q slot' form := by
          cases form <;> simp only [Block.dataAction, operand, reference]
        simp only [Block.statementOf, data]
    | motor form =>
        have motor : b.motorAction p slot form = b.motorAction q slot' form := by
          cases form <;> simp only [Block.motorAction, operand, ports]
        simp only [Block.statementOf, motor]
    | movement form =>
        have movement : b.movementAction p slot form = b.movementAction q slot' form := by
          cases form <;> simp only [Block.movementAction, operand, ports]
        simp only [Block.statementOf, movement]
    | light form =>
        have light : b.lightAction p slot form = b.lightAction q slot' form := by
          cases form <;> simp only [Block.lightAction, operand, ports]
        simp only [Block.statementOf, light]
    | sound form =>
        have sound : b.soundAction p slot form = b.soundAction q slot' form := by
          cases form <;> simp only [Block.soundAction, operand, h.sound_eq hid hb]
        simp only [Block.statementOf, sound]
    | _ => simp only [Block.statementOf, operand, body]
  simp only [Block.statement, statementOf]

end Step

theorem exprIn_eq (bestEffort : Bool) (path : List String) (binding : Json)
    (hbinding : ∀ s, binding.HasText s → p.Reachable s) :
    p.exprIn bestEffort path binding = q.exprIn bestEffort path binding := by
  -- On the number of blocks that are not yet on the path.
  induction hn : p.remaining path using Nat.strongRecOn generalizing path binding with
  | ind n ih =>
      rw [Project.exprIn_eq, Project.exprIn_eq]
      refine bind_congr_ok rfl fun slot hslot => ?_
      cases slot with
      | value e => rfl
      | block id =>
          by_cases hmem : id ∈ path
          · simp only [hmem, if_true]
          · simp only [hmem, if_false]
            have hid : p.Reachable id := hbinding id (Slot.hasText_of_ofJson hslot)
            rw [← h.block_eq hid]
            refine bind_congr_ok rfl fun b hb => ?_
            have hlt := hn ▸ remaining_cons_lt hb hmem
            exact h.expression_eq hid hb (fun inner hinner => ih _ hlt _ inner hinner rfl)
              bestEffort

theorem stackIn_eq (bestEffort : Bool) (path visited : List String) (start : Option String)
    (hstart : ∀ s, start = some s → p.Reachable s) :
    p.stackIn bestEffort path visited start = q.stackIn bestEffort path visited start := by
  -- The recursion of the first run carries both, since they read the same blocks.
  induction path, visited, start using Project.stackIn.induct p with
  | case1 path visited => rw [stackIn, stackIn]
  | case2 path visited id hmem =>
      rw [stackIn_some, stackIn_some, if_pos hmem, if_pos hmem]
  | case3 path visited id hvisited hmem =>
      rw [stackIn_some, stackIn_some, if_neg hvisited, if_neg hvisited, if_pos hmem, if_pos hmem]
  | case4 path visited id hvisited hpath e herror =>
      rw [stackIn_some, stackIn_some, ← h.block_eq (hstart id rfl), herror]
      rfl
  | case5 path visited id hvisited hpath b hb ihbody ihrest =>
      have hid := hstart id rfl
      have hfirst := h.statement_eq hid hb
        (fun binding hbinding => h.exprIn_eq bestEffort [] binding hbinding) bestEffort ihbody
      have hrest := ihrest fun next hnext => .next hid hb hnext
      rw [stackIn_some, stackIn_some, ← h.block_eq hid, hb]
      refine if_congr .rfl rfl (if_congr .rfl rfl ?_)
      refine bind_congr_ok rfl fun b' hb' => ?_
      obtain rfl := Except.ok.inj hb'
      refine bind_congr_ok hfirst fun first _ => ?_
      rw [hrest]

theorem forest_eq (bestEffort : Bool) : p.forest bestEffort = q.forest bestEffort := by
  unfold forest
  rw [← h.roots]
  refine mapM_congr_mem fun id hid => ?_
  refine h.stackIn_eq bestEffort [] [] (some id) fun s hs => ?_
  obtain rfl := Option.some.inj hs
  exact .root hid

end Project.Agree

/-- Two project files give the same program, or the same error, if their reachable blocks and the
names they declare are the same. -/
theorem lower_eq_of_agree {file file' : Json} {p q : Project} (hp : Project.ofJson file = .ok p)
    (hq : Project.ofJson file' = .ok q) (h : p.Agree q) (bestEffort : Bool) :
    lower file bestEffort = lower file' bestEffort := by
  change (Project.ofJson file >>= _) = (Project.ofJson file' >>= _)
  rw [hp, hq]
  exact h.forest_eq bestEffort

/-- The blocks of a program that sets a variable to the sum of one and an empty slot. -/
def Json.sumBlocks : List (String × Json) :=
  [("hat", .object [("opcode", .string "flipperevents_whenProgramStarts"),
      ("next", .string "below"), ("topLevel", .bool true)]),
    ("below", .object [("opcode", .string "data_setvariableto"),
      ("fields", .object [("VARIABLE", .array [.string "x", .string "v"])]),
      ("inputs", .object [("VALUE", .array [.number (.integer 3), .string "sum"])])]),
    ("sum", .object [("opcode", .string "operator_add"),
      ("inputs", .object [("NUM1", .array [.number (.integer 1),
        .array [.number (.integer 4), .string "1"]])])])]

/-- The same blocks in another order, and one that no other leads to. -/
def Json.shuffledBlocks : List (String × Json) :=
  ("alone", .object [("opcode", .string "unknown"), ("next", .string "hat")]) ::
    Json.sumBlocks.reverse

/-- A project file with one variable. -/
def Json.oneVariable (stage initial : Json) (blocks : List (String × Json))
    (extensions : List Json) : Json :=
  .object [("targets", .array [stage, .object
      [("variables", .object [("v", .array [.string "x", initial])]), ("lists", .object []),
        ("broadcasts", .object []), ("blocks", .object blocks)]]),
    ("extensions", .array extensions)]

/-- What `Json.oneVariable` describes. -/
def Project.oneVariable (initial : Json) (blocks : List (String × Json))
    (extensions : List String) : Project :=
  ⟨[⟨"v", "x", initial⟩], [], [], blocks, extensions⟩

theorem Project.roots_sumBlocks (initial : Json) (extensions : List String) :
    (oneVariable initial Json.sumBlocks extensions).roots = ["hat"] := by
  with_unfolding_all rfl

theorem Project.reachable_sumBlocks {initial : Json} {extensions : List String} {id : String}
    (h : (oneVariable initial Json.sumBlocks extensions).Reachable id) :
    id = "hat" ∨ id = "below" ∨ id = "sum" ∨ id = "1" := by
  induction h with
  | root hid =>
      rw [roots_sumBlocks] at hid
      exact .inl (List.mem_singleton.mp hid)
  | next _ hb hnext ih =>
      rcases ih with rfl | rfl | rfl | rfl
      · cases hb
        cases hnext
        simp
      · cases hb
        cases hnext
      · cases hb
        cases hnext
      · cases hb
  | input _ hb hslot hs ih =>
      rcases ih with rfl | rfl | rfl | rfl
      · cases hb
        cases hslot
      · cases hb
        cases List.mem_singleton.mp hslot
        exact .inr (.inr (.inl (by simpa using hs)))
      · cases hb
        cases List.mem_singleton.mp hslot
        exact .inr (.inr (.inr (by simpa using hs)))
      · cases hb

theorem lower_eq_of_agree_shuffled :
    ∃ p q,
      Project.ofJson (.oneVariable .null (.string "0") Json.sumBlocks []) = .ok p ∧
      Project.ofJson (.oneVariable (.string "stage") (.string "7") Json.shuffledBlocks
        [.string "music"]) = .ok q ∧
      p.Agree q ∧
      ∀ bestEffort,
        lower (.oneVariable .null (.string "0") Json.sumBlocks []) bestEffort =
          lower (.oneVariable (.string "stage") (.string "7") Json.shuffledBlocks
            [.string "music"]) bestEffort := by
  have h : (Project.oneVariable (.string "0") Json.sumBlocks []).Agree
      (.oneVariable (.string "7") Json.shuffledBlocks ["music"]) := by
    refine ⟨fun id => ?_, fun id => rfl, ?_, fun id hid => ?_⟩
    · simp only [Project.variableDecl?, Project.oneVariable, List.find?]
      split <;> rfl
    · rw [Project.roots_sumBlocks]
      with_unfolding_all rfl
    · rcases Project.reachable_sumBlocks hid with rfl | rfl | rfl | rfl <;> rfl
  exact ⟨_, _, rfl, rfl, h, lower_eq_of_agree rfl rfl h⟩

end WordBlocks
