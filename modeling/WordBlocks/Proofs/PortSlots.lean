import WordBlocks.Proofs.Lowered

/-!
The two ways of reading a slot. As an operand a slot is read through any number of wrappers, and an
empty one gives way to its shadow. As a slot for ports it is read by its shape alone: a string in
the second place is the identifier of a block, and an array there is a primitive. The two agree on
bindings with at most one wrapper and its payload in it, and on no others that may name ports
(`portReaders_agree_iff`).
-/

namespace WordBlocks

open Script (bind_eq_ok_iff map_eq_ok_iff pure_eq_ok_iff)

namespace Json

/-- Whether a binding is the identifier of a block, or a wrapper right around an identifier or a
primitive. -/
def isDirect : Json → Bool
  | string _ => true
  | array (kind :: string _ :: _) => kind.integer?.any (· < 4)
  | array (kind :: array (code :: _) :: _) => kind.integer?.any (· < 4) && code.integer?.any (4 ≤ ·)
  | _ => false

/-- The block that a slot for ports takes a binding for. -/
def portBlock? : Json → Option String
  | string id => some id
  | array items => items[1]?.bind string?
  | _ => none

/-- The primitive that a slot for ports finds in a binding. -/
def portItems? (binding : Json) : Option (List Json) :=
  ((binding.item? 1).bind array?).or binding.array?

end Json

namespace Expr

/-- An expression that may stand for ports: a reference, or a text of port letters. -/
def namesPorts : Expr → Bool
  | ref _ => true
  | text t =>
    let letters := Text.trimChars t.toList
    !letters.isEmpty && letters.all portLetters.contains
  | _ => false

/-- The reading of a slot for ports is the one that belongs to its expression: the same reference,
or the letters of its text in alphabetical order and each once. -/
def MatchesPorts (result : Except CompileError Expr) : Expr → Prop
  | ref r => result = .ok (.ref r)
  | text t => (text t).namesPorts = true → ∃ letters, result = .ok (.ports letters) ∧
      letters.Pairwise (· < ·) ∧ ∀ c, c ∈ letters ↔ c ∈ Text.trimChars t.toList
  | _ => True

theorem matchesPorts_of_namesPorts_eq_false {e : Expr} (h : e.namesPorts = false)
    (result : Except CompileError Expr) : e.MatchesPorts result := by
  cases e with
  | ref r => cases h
  | text t => exact fun ht => absurd ht (by simp [h])
  | _ => trivial

theorem matchesPorts_portSet (t : String) : (text t).MatchesPorts (portSet t) := by
  intro ht
  simp only [namesPorts, Bool.and_eq_true, Bool.not_eq_true'] at ht
  refine ⟨portLetters.filter (Text.trimChars t.toList).contains, ?_, ?_, fun c => ?_⟩
  · simp [portSet, ht.1, ht.2]
  · exact List.Pairwise.sublist List.filter_sublist (by decide)
  · simp only [List.mem_filter, List.contains_iff_mem, and_iff_right_iff_imp]
    intro hc
    exact List.contains_iff_mem.mp (List.all_eq_true.mp ht.2 c hc)

theorem not_matchesPorts {e : Expr} {result : Except CompileError Expr} (he : e.namesPorts = true)
    (href : ∀ r, result ≠ .ok (.ref r))
    (hports : ∀ t, e = .text t → ∀ letters, result ≠ .ok (.ports letters)) :
    ¬ e.MatchesPorts result := by
  intro h
  cases e with
  | ref r => exact href r h
  | text t =>
      obtain ⟨letters, hletters, -⟩ := h he
      exact hports t rfl letters hletters
  | _ => cases he

end Expr

theorem portSet_ne_ref (raw : String) (r : Reference) : portSet raw ≠ .ok (.ref r) := by
  unfold portSet
  dsimp only
  split <;> simp

namespace Project

variable {p : Project} {read : String → Except CompileError Expr} {b : Block} {slot : String}
  {binding : Json}

/-- The ports that a block in a slot stands for. -/
def blockPorts (p : Project) (read : String → Except CompileError Expr) (source : Block) :
    Except CompileError Expr :=
  match source.menuValue? with
  | some letters => read letters
  | none =>
    if source.opcode = "data_variable" then
      return .ref (← p.reference source "VARIABLE")
    else if source.opcode = "data_listcontents" then
      return .ref (← p.reference source "LIST")
    else throw (.unsupportedPort (.reporter source.opcode))

theorem ports_of_portBlock {id : String} (hb : b.input? slot = some binding)
    (hid : binding.portBlock? = some id) :
    p.ports read b slot = p.block id >>= p.blockPorts read := by
  have hinput : b.inputBlock? slot = some id := by
    rw [← hid, Block.inputBlock?, hb]
    cases binding <;> rfl
  simp only [ports, hb, hinput]
  rfl

theorem ports_of_portItems {items : List Json} (hb : b.input? slot = some binding)
    (hid : binding.portBlock? = none) (hitems : binding.portItems? = some items) :
    p.ports read b slot = primitivePorts read binding items := by
  have hinput : b.inputBlock? slot = none := by
    rw [← hid, Block.inputBlock?, hb]
    cases binding <;> rfl
  rw [Json.portItems?] at hitems
  simp only [ports, hb, hinput, hitems]

end Project

theorem ReporterForm.ofOpcode?_eq_reference {opcode field : String}
    (h : ofOpcode? opcode = some (.reference field)) :
    opcode = "data_variable" ∧ field = "VARIABLE" ∨
      opcode = "data_listcontents" ∧ field = "LIST" := by
  have hmem : (opcode, ReporterForm.reference field) ∈ reporterForms := mem_of_lookup_eq_some h
  simpa [reporterForms] using hmem

namespace Block

variable {p : Project} {bestEffort : Bool} {slot : Json → Except CompileError Expr} {b : Block}
  {e : Expr}

theorem reporter_namesPorts {form : ReporterForm} (h : b.reporter p slot form = .ok e)
    (he : e.namesPorts = true) :
    ∃ field r, form = .reference field ∧ p.reference b field = .ok r ∧ e = .ref r := by
  cases form with
  | reference field =>
      simp only [reporter, bind_eq_ok_iff, pure_eq_ok_iff] at h
      obtain ⟨r, hr, rfl⟩ := h
      exact ⟨field, r, rfl, hr, rfl⟩
  | _ =>
      simp only [reporter, bind_eq_ok_iff, pure_eq_ok_iff] at h
      grind [Expr.namesPorts]

theorem matchesPorts_blockPorts (h : b.expression p bestEffort slot = .ok e) :
    e.MatchesPorts (p.blockPorts portSet b) := by
  by_cases he : e.namesPorts = true
  · unfold expression at h
    split at h
    · rename_i s hs
      obtain rfl := Except.ok.inj h
      simpa only [Project.blockPorts, hs] using Expr.matchesPorts_portSet s
    · rename_i hmenu
      split at h
      · rename_i form hform
        obtain ⟨field, r, rfl, hr, rfl⟩ := reporter_namesPorts h he
        change p.blockPorts portSet b = .ok (.ref r)
        rcases ReporterForm.ofOpcode?_eq_reference hform with ⟨hopcode, rfl⟩ | ⟨hopcode, rfl⟩
        · simp only [Project.blockPorts, hmenu, hopcode, hr]
          rfl
        · simp only [Project.blockPorts, hmenu, hopcode, hr]
          rfl
      · split at h
        · obtain rfl := Except.ok.inj h
          cases he
        · cases h
  · exact Expr.matchesPorts_of_namesPorts_eq_false (by simpa using he) _

end Block

namespace Slot

theorem exists_string_of_primitiveReference {rest : List Json} {r : Reference}
    (h : primitiveReference rest = .ok r) : ∃ name more, rest = .string name :: more := by
  unfold primitiveReference at h
  split at h
  · rename_i name hname
    obtain ⟨v, hv, hname⟩ := Option.bind_eq_some_iff.mp hname
    obtain ⟨more, rfl⟩ := List.head?_eq_some_iff.mp hv
    cases v <;> cases hname
    exact ⟨name, more, rfl⟩
  · cases h

theorem literal_of_namesPorts {raw : String} (h : (literal raw).namesPorts = true) :
    literal raw = .text raw := by
  unfold literal at h ⊢
  split
  · rename_i hx
    simp [hx, Expr.namesPorts] at h
  · rfl

/-- A primitive that may stand for ports is a reference or a text, and either way a string follows
its code. -/
theorem primitive_namesPorts {code : Int} {rest : List Json} {e : Expr}
    (h : primitive code rest = .ok e) (he : e.namesPorts = true) :
    ∃ t more, rest = .string t :: more ∧
      (isReferenceCode code = true ∧ (∃ r, primitiveReference rest = .ok r ∧ e = .ref r) ∨
        isReferenceCode code = false ∧ e = .text t) := by
  unfold primitive at h
  split at h
  · rename_i hcode
    obtain ⟨r, hr, rfl⟩ := map_eq_ok_iff.mp h
    obtain ⟨name, more, rfl⟩ := exists_string_of_primitiveReference hr
    exact ⟨name, more, rfl, .inl ⟨hcode, r, hr, rfl⟩⟩
  · rename_i hcode
    have hcode : isReferenceCode code = false := by simpa using hcode
    dsimp only at h
    have hempty : (Expr.text "").namesPorts = false := by decide
    have hbool (v : Bool) : (Expr.text (if v then "true" else "false")).namesPorts = false := by
      cases v <;> decide
    rcases rest with - | ⟨v, more⟩
    · have : e = .text "" := by split at h <;> exact (Except.ok.inj h).symm
      simp [this, hempty] at he
    · cases v with
      | string t =>
          refine ⟨t, more, rfl, .inr ⟨hcode, ?_⟩⟩
          split at h
          · exact (Except.ok.inj h).symm
          · obtain rfl := Except.ok.inj h
            exact literal_of_namesPorts he
      | number n =>
          split at h
          · obtain rfl := Except.ok.inj h
            cases he.symm.trans hempty
          · obtain rfl := Except.ok.inj h
            cases he
      | bool v =>
          split at h
          · obtain rfl := Except.ok.inj h
            cases he.symm.trans hempty
          · obtain rfl := Except.ok.inj h
            cases he.symm.trans (hbool v)
      | _ =>
          have : e = .text "" := by split at h <;> exact (Except.ok.inj h).symm
          simp [this, hempty] at he

theorem matchesPorts_primitive {head binding : Json} {code : Int} {rest : List Json} {e : Expr}
    (hcode : head.integer? = some code) (h : primitive code rest = .ok e) :
    e.MatchesPorts (primitivePorts portSet binding (head :: rest)) := by
  by_cases he : e.namesPorts = true
  · obtain ⟨t, more, rfl, ⟨href, r, hr, rfl⟩ | ⟨href, rfl⟩⟩ := primitive_namesPorts h he
    · change primitivePorts portSet binding _ = .ok (.ref r)
      simp [primitivePorts, hcode, href, hr, Except.map]
    · simpa [primitivePorts, hcode, href, Json.string?] using Expr.matchesPorts_portSet t
  · exact Expr.matchesPorts_of_namesPorts_eq_false (by simpa using he) _

theorem primitivePorts_of_lt {head binding : Json} {code : Int} {rest : List Json}
    (hcode : head.integer? = some code) (hlt : code < 4) :
    primitivePorts portSet binding (head :: rest) =
      match rest.head?.bind Json.string? with
      | some letters => portSet letters
      | none => .error (.unsupportedPort .numericLiteral) := by
  have href : isReferenceCode code = false := by
    simp [isReferenceCode]
    omega
  rw [List.head?_eq_getElem?]
  simp only [primitivePorts, List.head?_cons, Option.bind_some, hcode, href]
  rfl

theorem ofJson_primitive {head : Json} {code : Int} {rest : List Json}
    (hcode : head.integer? = some code) (hle : 4 ≤ code) :
    ofJson (.array (head :: rest)) = (primitive code rest).map .value := by
  rw [ofJson.eq_def]
  simp only [hcode, if_pos hle]

theorem ofJson_wrapper {kind payload : Json} {k : Int} {shadow : List Json}
    (hk : kind.integer? = some k) (hlt : k < 4) (hpayload : payload ≠ .null) :
    ofJson (.array (kind :: payload :: shadow)) = ofJson payload := by
  rw [ofJson.eq_def]
  simp only [hk, if_neg (Int.not_le.mpr hlt)]
  cases payload with
  | null => exact absurd rfl hpayload
  | _ => rfl

theorem ofJson_of_isDirect {binding : Json} (h : binding.isDirect = true) :
    (∃ id, ofJson binding = .ok (.block id) ∧ binding.portBlock? = some id) ∨
      ∃ head rest code, head.integer? = some code ∧
        ofJson binding = (primitive code rest).map .value ∧ binding.portBlock? = none ∧
        binding.portItems? = some (head :: rest) := by
  unfold Json.isDirect at h
  split at h
  · exact .inl ⟨_, rfl, rfl⟩
  · rename_i kind id rest
    obtain ⟨k, hk, hlt⟩ := (Option.any_eq_true _ _).mp h
    have hlt : k < 4 := by simpa using hlt
    exact .inl ⟨id, ofJson_wrapper hk hlt (by simp), rfl⟩
  · rename_i kind head rest shadow
    simp only [Bool.and_eq_true] at h
    obtain ⟨k, hk, hlt⟩ := (Option.any_eq_true _ _).mp h.1
    obtain ⟨code, hcode, hle⟩ := (Option.any_eq_true _ _).mp h.2
    have hlt : k < 4 := by simpa using hlt
    have hle : 4 ≤ code := by simpa using hle
    refine .inr ⟨head, rest, code, hcode, ?_, rfl, rfl⟩
    rw [ofJson_wrapper hk hlt (by simp), ofJson_primitive hcode hle]
  · cases h

theorem integer_of_ofJson {head : Json} {rest : List Json} {s : Slot}
    (h : ofJson (.array (head :: rest)) = .ok s) : ∃ code, head.integer? = some code := by
  rw [ofJson.eq_def] at h
  cases hcode : head.integer? with
  | some code => exact ⟨code, rfl⟩
  | none => simp [hcode] at h

/-- The other bindings that can be read are bare primitives, those that stand for zero, and those
that a slot for ports takes for a primitive with too small a code. -/
theorem ofJson_of_not_isDirect {binding : Json} {s : Slot} (hdirect : binding.isDirect = false)
    (h : ofJson binding = .ok s) :
    (∃ head rest code, binding = .array (head :: rest) ∧
        (primitive code rest).map .value = .ok s) ∨
      s = .value .zero ∨
      binding.portBlock? = none ∧ ∃ head rest code, head.integer? = some code ∧ code < 4 ∧
        binding.portItems? = some (head :: rest) ∧
        ∀ id, rest.head?.bind Json.string? = some id → s = .block id := by
  unfold ofJson at h
  split at h
  · cases hdirect
  · rename_i head rest
    split at h
    · rename_i code hcode
      split at h
      · exact .inl ⟨head, rest, code, rfl, h⟩
      · rename_i hlt
        split at h
        · exact .inr (.inl (Except.ok.inj h).symm)
        · refine .inr (.inr ⟨rfl, head, _, code, hcode, by omega, rfl, ?_⟩)
          simp [Json.string?]
        · exact .inr (.inl (Except.ok.inj h).symm)
        · exact .inr (.inl (Except.ok.inj h).symm)
        · rename_i payload shadow _ hnull hnone
          cases payload with
          | string id => simp [Json.isDirect, hcode, Int.not_le.mp hlt] at hdirect
          | array inner =>
              rcases inner with - | ⟨head', rest'⟩
              · cases h
              · obtain ⟨code', hcode'⟩ := integer_of_ofJson h
                have hlt' : code' < 4 := by
                  simpa [Json.isDirect, hcode, Int.not_le.mp hlt, hcode'] using hdirect
                refine .inr (.inr ⟨rfl, head', rest', code', hcode', hlt', rfl, ?_⟩)
                intro id hid
                obtain ⟨v, hv, hid⟩ := Option.bind_eq_some_iff.mp hid
                obtain ⟨more, rfl⟩ := List.head?_eq_some_iff.mp hv
                cases v <;> cases hid
                rw [ofJson_wrapper hcode' hlt' (by simp)] at h
                exact (Except.ok.inj h).symm
          | null =>
              cases shadow with
              | nil => exact absurd rfl (hnone rfl)
              | cons v more => exact absurd rfl (hnull v more rfl)
          | _ => cases h
    · cases h
  · cases h
  · cases h

end Slot

namespace Project

/-- A project whose only block reports a variable. -/
def ofVariableBlock (id : String) : Project where
  variableDecls := []
  listDecls := []
  broadcastDecls := []
  blocks := [(id, .object [("opcode", .string "data_variable"),
    ("fields", .object [("VARIABLE", .array [.string "x", .string "x"])])])]
  extensions := []

theorem expr_of_value {p : Project} {bestEffort : Bool} {binding : Json} {e : Expr}
    (h : Slot.ofJson binding = .ok (.value e)) : p.expr bestEffort binding = .ok e := by
  rw [expr, exprIn_eq, h]
  rfl

theorem expr_ofVariableBlock {binding : Json} {id : String}
    (h : Slot.ofJson binding = .ok (.block id)) :
    (ofVariableBlock id).expr false binding = .ok (.ref ⟨"x", "x"⟩) := by
  have hb : (ofVariableBlock id).block id = .ok
      ⟨"data_variable", none, false, false, none, none, [],
        [("VARIABLE", ⟨some "x", some "x"⟩)]⟩ := by
    simp only [block, ofVariableBlock, List.lookup_cons_self]
    rfl
  rw [expr, exprIn_eq, h]
  simp only [Script.ok_eq_pure, pure_bind, List.not_mem_nil, if_false, hb]
  rfl

end Project

/-- A block with one slot. -/
def Block.ofSlot (binding : Json) : Block :=
  ⟨"flippermotor_motorStop", none, false, false, none, none, [("PORT", binding)], []⟩

theorem Block.input?_ofSlot (binding : Json) : (ofSlot binding).input? "PORT" = some binding :=
  rfl

/-- A binding that is not direct and names ports in some project is misread in one. -/
theorem exists_not_matchesPorts {binding : Json} {s : Slot} (hdirect : binding.isDirect = false)
    (hs : Slot.ofJson binding = .ok s) (hvalue : ∀ e, s = .value e → e.namesPorts = true) :
    ∃ p e, Project.expr p false binding = .ok e ∧
      ¬ e.MatchesPorts (p.ports portSet (.ofSlot binding) "PORT") := by
  cases s with
  | value e =>
      have he := hvalue e rfl
      refine ⟨⟨[], [], [], [], []⟩, e, Project.expr_of_value hs, ?_⟩
      rcases Slot.ofJson_of_not_isDirect hdirect hs with
        ⟨head, rest, code, rfl, h⟩ | h | ⟨hblock, head, rest, code, hcode, hlt, hitems, hid⟩
      · obtain ⟨e', he', heq⟩ := map_eq_ok_iff.mp h
        obtain rfl := Slot.value.inj heq
        obtain ⟨t, more, rfl, -⟩ := Slot.primitive_namesPorts he' he
        rw [Project.ports_of_portBlock (Block.input?_ofSlot _) rfl]
        exact Expr.not_matchesPorts he (by simp [Project.block]) (by simp [Project.block])
      · obtain rfl := Slot.value.inj h
        cases he
      · have hnone : rest.head?.bind Json.string? = none := by
          by_contra hsome
          obtain ⟨id, hid'⟩ := Option.ne_none_iff_exists'.mp hsome
          cases hid id hid'
        rw [Project.ports_of_portItems (Block.input?_ofSlot _) hblock hitems,
          Slot.primitivePorts_of_lt hcode hlt, hnone]
        exact Expr.not_matchesPorts he (by simp) (by simp)
  | block id =>
      refine ⟨.ofVariableBlock id, .ref ⟨"x", "x"⟩, Project.expr_ofVariableBlock hs, ?_⟩
      rcases Slot.ofJson_of_not_isDirect hdirect hs with
        ⟨head, rest, code, rfl, h⟩ | h | ⟨hblock, head, rest, code, hcode, hlt, hitems, -⟩
      · obtain ⟨e', -, heq⟩ := map_eq_ok_iff.mp h
        cases heq
      · cases h
      · rw [Project.ports_of_portItems (Block.input?_ofSlot _) hblock hitems,
          Slot.primitivePorts_of_lt hcode hlt]
        refine Expr.not_matchesPorts rfl (fun r => ?_) (by simp)
        split
        · exact portSet_ne_ref _ r
        · simp

theorem matchesPorts_of_isDirect {p : Project} {bestEffort : Bool} {b : Block} {slot : String}
    {binding : Json} {e : Expr} (hdirect : binding.isDirect = true)
    (hb : b.input? slot = some binding) (he : p.expr bestEffort binding = .ok e) :
    e.MatchesPorts (p.ports portSet b slot) := by
  rcases Slot.ofJson_of_isDirect hdirect with
    ⟨id, hslot, hid⟩ | ⟨head, rest, code, hcode, hslot, hblock, hitems⟩
  · rw [Project.ports_of_portBlock hb hid]
    rcases Project.exprIn_cases he with h | ⟨id', source, h, -, hsource, hexpr⟩
    · cases hslot.symm.trans h
    · cases hslot.symm.trans h
      rw [hsource]
      exact Block.matchesPorts_blockPorts hexpr
  · rw [Project.ports_of_portItems hb hblock hitems]
    rcases Project.exprIn_cases he with h | ⟨id', source, h, -⟩
    · obtain ⟨e', he', heq⟩ := map_eq_ok_iff.mp (hslot.symm.trans h)
      obtain rfl := Slot.value.inj heq
      exact Slot.matchesPorts_primitive hcode he'
    · obtain ⟨e', -, heq⟩ := map_eq_ok_iff.mp (hslot.symm.trans h)
      cases heq

/-- The bindings on which the two readers of a slot agree, in every project: the direct ones, and
those that never name ports. -/
theorem portReaders_agree_iff (binding : Json) :
    (∀ (p : Project) (bestEffort : Bool) (b : Block) (slot : String) (e : Expr),
        b.input? slot = some binding → p.expr bestEffort binding = .ok e →
          e.MatchesPorts (p.ports portSet b slot)) ↔
      binding.isDirect = true ∨
        ∀ (p : Project) (bestEffort : Bool) (e : Expr),
          p.expr bestEffort binding = .ok e → e.namesPorts = false := by
  constructor
  · intro h
    by_contra hnot
    simp only [not_or, Bool.not_eq_true, not_forall, Bool.not_eq_false] at hnot
    obtain ⟨hdirect, p, bestEffort, e, hexpr, he⟩ := hnot
    obtain ⟨s, hs, hvalue⟩ : ∃ s, Slot.ofJson binding = .ok s ∧
        ∀ e, s = .value e → e.namesPorts = true := by
      rcases Project.exprIn_cases hexpr with hs | ⟨id, -, hs, -⟩
      · refine ⟨_, hs, ?_⟩
        rintro e' heq
        exact Slot.value.inj heq ▸ he
      · exact ⟨_, hs, by simp⟩
    obtain ⟨p', e', he', hmatch⟩ := exists_not_matchesPorts hdirect hs hvalue
    exact hmatch (h p' false _ "PORT" e' (Block.input?_ofSlot binding) he')
  · rintro (hdirect | hnever) p bestEffort b slot e hb he
    · exact matchesPorts_of_isDirect hdirect hb he
    · exact Expr.matchesPorts_of_namesPorts_eq_false (hnever p bestEffort e he) _

/-- A motor is stopped whose port is the shadow of an empty slot. -/
def Json.shadowPort : Json :=
  .array [.number (.integer 3), .null, .array [.number (.integer 10), .string "A"]]

/-- The port letters in a shadow are the operand, but they are not read as ports. -/
theorem ports_of_shadow_letters :
    ∃ p b, Project.ofJson (.program [] [] [("below", .object
          [("opcode", .string "flippermotor_motorStop"),
            ("inputs", .object [("PORT", .shadowPort)])])]) = .ok p ∧
      p.block "below" = .ok b ∧ b.input? "PORT" = some .shadowPort ∧
      p.expr false .shadowPort = .ok (.text "A") ∧ (Expr.text "A").namesPorts = true ∧
      p.ports portSet b "PORT" = .error (.unsupportedPort .numericLiteral) ∧
      p.forest false = .error (.unsupportedPort .numericLiteral) := by
  refine ⟨_, _, rfl, rfl, rfl, ?_, by decide, rfl, ?_⟩
  · exact Project.expr_of_value (by decide +kernel)
  · with_unfolding_all rfl

end WordBlocks
