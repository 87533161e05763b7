import WordBlocks.Proofs.Indentation
import WordBlocks.Proofs.Lowered
import WordBlocks.Proofs.WholeNumbers

/-!
The lights of a distance sensor. A pattern of digits should give one percentage for each digit. It
does so if the pattern comes from a menu, which keeps it as text. Text that is written in the slot
is read as a number first, and then the digits come back only if they survive that reading: leading
zeros are lost, and so are the last digits of long patterns.
-/

namespace WordBlocks

open Script

namespace Script

/-- The percentage of full brightness for each digit of a pattern. -/
def percentages (s : String) : List Nat :=
  s.toList.map fun c => 100 * (c.toNat - '0'.toNat) / 9

/-- The call that lights up a distance sensor. -/
def lightUpCall (percentages : List Nat) (sensor : String) : String :=
  sensor ++ ".light_up(" ++ ", ".intercalate (percentages.map toString) ++ ")"

end Script

/-- A statement lights up the distance sensors on some ports with some percentages, at every
depth. -/
def Stmt.LightsUp (s : Stmt) (port : Expr) (percentages : List Nat) : Prop :=
  ∃ t, port.targets .distanceSensor = .ok t ∧ ∀ usesBrightness depth,
    Writes usesBrightness depth s
      ((t.calls depth (lightUpCall percentages)).map Line.render)

namespace Script

theorem Writes.unique {b : Bool} {n : Nat} {s : Stmt} {ls ms : List String} (hls : Writes b n s ls)
    (hms : Writes b n s ms) : ls = ms := by
  obtain ⟨d, hd, hbody⟩ := hls { Draft.empty b with indent := n } rfl rfl
  obtain ⟨d', hd', hbody'⟩ := hms { Draft.empty b with indent := n } rfl rfl
  obtain rfl : d = d' := by simpa using Except.ok.inj (hd.symm.trans hd')
  exact List.append_cancel_left (hbody.symm.trans hbody')

theorem Targets.exists_call_eq {t : Targets} (ht : t.Callable) {n : Nat} {f g : String → String}
    (h : (t.calls n f).map Line.render = (t.calls n g).map Line.render) : ∃ m, f m = g m := by
  cases t with
  | objects names =>
      obtain ⟨m, names, rfl⟩ := List.exists_cons_of_ne_nil ht.1
      refine ⟨m, ?_⟩
      have hrender : Line.render ⟨n, f m⟩ = Line.render ⟨n, g m⟩ := (List.cons.inj h).1
      exact (String.append_right_inj _).mp hrender
  | loop iterable object =>
      refine ⟨object, ?_⟩
      have hrender : Line.render ⟨n + 1, f object⟩ = Line.render ⟨n + 1, g object⟩ :=
        (List.cons.inj (List.cons.inj h).2).1
      exact (String.append_right_inj _).mp hrender

/-- What comes after the first number of a list: nothing, or a comma and the other numbers. -/
def afterFirst (ns : List Nat) : List Char :=
  if ns = [] then [] else ',' :: ' ' :: (", ".intercalate (ns.map toString)).toList

theorem endsRun_afterFirst (ns : List Nat) : EndsRun Char.isDigit (afterFirst ns) := by
  unfold afterFirst
  split
  · exact endsRun_nil _
  · exact endsRun_cons rfl

theorem intercalate_toString_cons (n : Nat) (ns : List Nat) :
    (", ".intercalate ((n :: ns).map toString)).toList =
      (toString n).toList ++ afterFirst ns := by
  cases ns with
  | nil => simp [afterFirst]
  | cons m ns =>
      rw [List.map_cons, List.map_cons, String.intercalate_cons_cons, String.toList_append,
        String.toList_append, List.append_assoc]
      rfl

theorem takeWhile_intercalate (n : Nat) (ns : List Nat) :
    (", ".intercalate ((n :: ns).map toString)).toList.takeWhile Char.isDigit =
      (toString n).toList := by
  rw [intercalate_toString_cons]
  exact takeWhile_run (fun _ => isDigit_of_mem_toString) (endsRun_afterFirst ns)

theorem dropWhile_intercalate (n : Nat) (ns : List Nat) :
    (", ".intercalate ((n :: ns).map toString)).toList.dropWhile Char.isDigit = afterFirst ns := by
  rw [intercalate_toString_cons]
  exact dropWhile_run (fun _ => isDigit_of_mem_toString) (endsRun_afterFirst ns)

/-- Numbers in a list can be told apart, since there is no comma in a number. -/
theorem intercalate_toString_inj {ps qs : List Nat} (hps : ps ≠ []) (hqs : qs ≠ [])
    (h : ", ".intercalate (ps.map toString) = ", ".intercalate (qs.map toString)) : ps = qs := by
  induction ps generalizing qs with
  | nil => exact absurd rfl hps
  | cons p ps ih =>
      obtain ⟨q, qs, rfl⟩ := List.exists_cons_of_ne_nil hqs
      have hfirst := takeWhile_intercalate p ps
      have hrest := dropWhile_intercalate p ps
      rw [h, takeWhile_intercalate] at hfirst
      rw [h, dropWhile_intercalate] at hrest
      obtain rfl : q = p := by
        rw [toList_toString, toList_toString] at hfirst
        rw [← digitsValue_decimalDigits q, hfirst, digitsValue_decimalDigits]
      unfold afterFirst at hrest
      by_cases hp : ps = []
      · by_cases hq : qs = []
        · rw [hp, hq]
        · rw [if_pos hp, if_neg hq] at hrest
          cases hrest
      · by_cases hq : qs = []
        · rw [if_neg hp, if_pos hq] at hrest
          cases hrest
        · rw [if_neg hp, if_neg hq] at hrest
          have htexts := String.toList_inj.mp (List.cons.inj (List.cons.inj hrest).2).2
          rw [ih hp hq htexts.symm]

theorem digitPercent_inj {c d : Char} (hc : c.isDigit = true) (hd : d.isDigit = true)
    (h : digitPercent c = digitPercent d) : c = d := by
  obtain ⟨hc, hc'⟩ : 48 ≤ c.toNat ∧ c.toNat ≤ 57 := Char.isDigit_iff_toNat.mp hc
  obtain ⟨hd, hd'⟩ : 48 ≤ d.toNat ∧ d.toNat ≤ 57 := Char.isDigit_iff_toNat.mp hd
  change (c.toNat - 48) * 100 / 9 = (d.toNat - 48) * 100 / 9 at h
  exact Char.toNat_inj.mp (by omega)

theorem map_digitPercent_inj {cs ds : List Char} (hcs : ∀ c ∈ cs, c.isDigit = true)
    (hds : ∀ c ∈ ds, c.isDigit = true) (h : cs.map digitPercent = ds.map digitPercent) :
    cs = ds := by
  induction cs generalizing ds with
  | nil => simpa [eq_comm] using h
  | cons c cs ih =>
      cases ds with
      | nil => simp at h
      | cons d ds =>
          obtain ⟨hc, hcs⟩ := List.forall_mem_cons.mp hcs
          obtain ⟨hd, hds⟩ := List.forall_mem_cons.mp hds
          obtain ⟨hfirst, hrest⟩ := List.cons.inj h
          rw [digitPercent_inj hc hd hfirst, ih hcs hds hrest]

theorem percentages_eq (s : String) : percentages s = s.toList.map digitPercent :=
  List.map_congr_left fun c _ => by rw [digitPercent, Nat.mul_comm]

end Script

theorem Expr.sensorLights_of_digitPattern {pattern : Expr} {ds : List Char}
    (h : digitPattern? pattern = some ds) :
    pattern.sensorLights = .ok (", ".intercalate ((ds.map digitPercent).map toString)) := by
  rw [sensorLights, h, List.map_map]
  rfl

theorem Expr.exists_sensorLights_number (x : Binary64) :
    ∃ args, (number x).sensorLights = .ok args := by
  unfold sensorLights
  split
  · exact ⟨_, rfl⟩
  · exact ⟨_, rfl⟩

theorem Expr.sensorLights_eq_iff {pattern : Expr} {ds : List Char} (hne : ds ≠ [])
    (hdigits : ∀ c ∈ ds, c.isDigit = true) :
    pattern.sensorLights = .ok (", ".intercalate ((ds.map digitPercent).map toString)) ↔
      digitPattern? pattern = some ds := by
  refine ⟨fun h => ?_, sensorLights_of_digitPattern⟩
  cases hpattern : digitPattern? pattern with
  | some es =>
      obtain ⟨-, hes⟩ := Option.filter_eq_some_iff.mp hpattern
      simp only [Bool.and_eq_true, Bool.not_eq_true', List.isEmpty_eq_false_iff,
        List.all_eq_true] at hes
      rw [sensorLights_of_digitPattern hpattern] at h
      have hmap := intercalate_toString_inj (by simpa using hes.1) (by simpa using hne)
        (Except.ok.inj h)
      rw [map_digitPercent_inj hes.2 hdigits hmap]
  | none =>
      -- Other patterns are spread out at run time, and the arguments start with a star.
      simp only [sensorLights, hpattern, bind_eq_ok_iff, pure_eq_ok_iff] at h
      obtain ⟨t, -, h⟩ := h
      obtain ⟨c, cs, rfl⟩ := List.exists_cons_of_ne_nil hne
      have hfirst := takeWhile_intercalate (digitPercent c) (cs.map digitPercent)
      rw [← List.map_cons, ← h, String.toList_append, String.toList_append,
        List.append_assoc] at hfirst
      exact absurd ((toList_toString _).symm.trans hfirst.symm) (decimalDigits_ne_nil _)

theorem Stmt.lightsUp_iff {port pattern : Expr} {t : Targets} {args : String} {ps : List Nat}
    (ht : port.targets .distanceSensor = .ok t) (hargs : pattern.sensorLights = .ok args)
    (hnotes : pattern.notes = []) :
    (action (.light (.lightSensor port pattern))).LightsUp port ps ↔
      args = ", ".intercalate (ps.map toString) := by
  have hwrites : ∀ b n, Writes b n (action (.light (.lightSensor port pattern)))
      ((t.calls n fun m => m ++ ".light_up(" ++ args ++ ")").map Line.render) := by
    intro b n
    apply writes_of_lines
    simp [lines, Action.lines, LightAction.lines, Action.operands, LightAction.operands, ht, hargs,
      hnotes, (Expr.quiet_of_targets ht).2, linesAt, ok_eq_pure]
  constructor
  · rintro ⟨t', ht', hlights⟩
    obtain rfl := Except.ok.inj (ht.symm.trans ht')
    obtain ⟨m, hm⟩ := Targets.exists_call_eq (Expr.targets_callable ht)
      ((hwrites false 0).unique (hlights false 0))
    exact (String.append_right_inj _).mp ((String.append_left_inj _).mp hm)
  · rintro rfl
    exact ⟨t, ht, hwrites⟩

/-- A binding with text that is written in a slot. -/
def Json.writtenText (text : String) : Json :=
  .array [.number (.integer 1), .array [.number (.integer 10), .string text]]

/-- A slot of a block holds a menu where a text is picked. -/
def Project.HoldsMenu (p : Project) (b : Block) (slot text : String) : Prop :=
  ∃ binding id menu, b.input? slot = some binding ∧ Slot.ofJson binding = .ok (.block id) ∧
    p.block id = .ok menu ∧ menu.menuValue? = some text

/-- A slot of a block holds a text that is written there. -/
def Block.HoldsText (b : Block) (slot text : String) : Prop :=
  b.input? slot = some (.writtenText text)

section

variable {p : Project} {bestEffort : Bool} {b : Block}

theorem Project.HoldsMenu.operand_eq {slot text : String} (h : p.HoldsMenu b slot text) :
    b.operand (p.expr bestEffort) slot = .ok (.text text) := by
  obtain ⟨binding, id, menu, hinput, hslot, hmenu, htext⟩ := h
  rw [Block.operand, hinput]
  change p.exprIn bestEffort [] binding = _
  rw [exprIn_eq, hslot, ok_eq_pure, pure_bind]
  dsimp only
  rw [if_neg List.not_mem_nil, hmenu, ok_eq_pure, pure_bind, Block.expression, htext]

theorem Block.HoldsText.operand_eq {slot text : String} (h : b.HoldsText slot text) :
    b.operand (p.expr bestEffort) slot = .ok (Slot.literal text) := by
  rw [Block.operand, h]
  change p.exprIn bestEffort [] _ = _
  rw [Project.exprIn_eq]
  rfl

theorem Block.statement_lightSensor {stack : Option String → Except CompileError Stack}
    {port pattern : Expr} (hopcode : b.opcode = "flipperlight_ultrasonicLightUp")
    (hport : p.ports portSet b "PORT" = .ok port)
    (hpattern : b.operand (p.expr bestEffort) "VALUE" = .ok pattern) :
    b.statement p (p.expr bestEffort) bestEffort stack =
      .ok (.action (.light (.lightSensor port pattern))) := by
  have hform : StatementForm.ofOpcode? b.opcode = some (.light .lightSensor) := by
    rw [hopcode]
    rfl
  rw [statement, hform]
  simp only [statementOf, lightAction, hport, hpattern]
  rfl

end

theorem exists_targets_of_isPortSet {port : Expr} (h : port.IsPortSet) (dev : Device) :
    ∃ t, port.targets dev = .ok t := by
  cases port with
  | ref r => exact ⟨_, rfl⟩
  | ports letters =>
      cases letters with
      | nil => exact absurd rfl h.1
      | cons first rest => exact ⟨_, rfl⟩
  | _ => exact h.elim

/-- A distance sensor shows every digit of a pattern that is picked from a menu. It shows every
digit of a pattern that is written in the slot just if the digits survive reading. -/
theorem lightsUp_digits_iff {p : Project} {bestEffort : Bool} {b : Block}
    {stack : Option String → Except CompileError Stack} {port : Expr} {s : String}
    (hopcode : b.opcode = "flipperlight_ultrasonicLightUp")
    (hport : p.ports portSet b "PORT" = .ok port) (hne : s.toList ≠ [])
    (hdigits : ∀ c ∈ s.toList, c.isDigit = true) :
    (p.HoldsMenu b "VALUE" s →
      ∃ stmt, b.statement p (p.expr bestEffort) bestEffort stack = .ok stmt ∧
        stmt.LightsUp port (percentages s)) ∧
    (b.HoldsText "VALUE" s →
      ∃ stmt, b.statement p (p.expr bestEffort) bestEffort stack = .ok stmt ∧
        (stmt.LightsUp port (percentages s) ↔ SurvivesReading s.toList)) := by
  obtain ⟨t, ht⟩ := exists_targets_of_isPortSet (Project.isPortSet_ports hport) .distanceSensor
  rw [percentages_eq]
  constructor
  · intro hmenu
    refine ⟨_, Block.statement_lightSensor hopcode hport hmenu.operand_eq, ?_⟩
    have hargs := Expr.sensorLights_of_digitPattern (digitPattern?_text hne hdigits)
    exact (Stmt.lightsUp_iff ht hargs rfl).mpr rfl
  · intro htext
    refine ⟨_, Block.statement_lightSensor hopcode hport htext.operand_eq, ?_⟩
    rw [← digitPattern?_literal_iff hne hdigits, ← Expr.sensorLights_eq_iff hne hdigits,
      Slot.literal_digits hne hdigits]
    obtain ⟨args, hargs⟩ :=
      Expr.exists_sensorLights_number (.ofDecimal false (digitsValue s.toList) 0)
    rw [Stmt.lightsUp_iff ht hargs rfl, hargs, Except.ok.injEq]

/-- A block that lights up the distance sensor on port A, with what is bound to the slot of its
pattern. -/
def Json.lightUpBlock (pattern : Json) : Json :=
  .object [("opcode", .string "flipperlight_ultrasonicLightUp"),
    ("inputs", .object [
      ("PORT", .array [.number (.integer 1), .array [.number (.integer 10), .string "A"]]),
      ("VALUE", pattern)])]

/-- A project with a pattern that is written in a slot and one that is picked from a menu. -/
def Project.lightPatterns : Project :=
  ⟨[], [], [],
    [("written", .lightUpBlock (.writtenText "9007199254740994")),
      ("picked", .lightUpBlock (.array [.number (.integer 1), .string "menu"])),
      ("menu", .object [("opcode", .string "flipperlight_menu_ultrasonic"), ("shadow", .bool true),
        ("fields", .object [("pattern", .array [.string "0099", .null])])])], []⟩

theorem lightsUp_lightPatterns :
    (∃ b stmt, Project.lightPatterns.block "written" = .ok b ∧
      b.statement Project.lightPatterns (Project.lightPatterns.expr false) false
        (Project.lightPatterns.stack false) = .ok stmt ∧
      stmt.LightsUp (.ports ['A'])
        [100, 0, 0, 77, 11, 100, 100, 22, 55, 44, 77, 44, 0, 100, 100, 44]) ∧
    ∃ b stmt, Project.lightPatterns.block "picked" = .ok b ∧
      b.statement Project.lightPatterns (Project.lightPatterns.expr false) false
        (Project.lightPatterns.stack false) = .ok stmt ∧
      stmt.LightsUp (.ports ['A']) [0, 0, 100, 100] := by
  have hsurvives : SurvivesReading "9007199254740994".toList :=
    ⟨by decide, .inr ⟨by decide, 4503599627370497, 1, by decide, by decide⟩⟩
  obtain ⟨b, hb, hopcode, hport, htext⟩ : ∃ b, Project.lightPatterns.block "written" = .ok b ∧
      b.opcode = "flipperlight_ultrasonicLightUp" ∧
      Project.lightPatterns.ports portSet b "PORT" = .ok (.ports ['A']) ∧
      b.HoldsText "VALUE" "9007199254740994" := ⟨_, rfl, rfl, rfl, rfl⟩
  obtain ⟨c, hc, hopcode', hport', hmenu⟩ : ∃ c, Project.lightPatterns.block "picked" = .ok c ∧
      c.opcode = "flipperlight_ultrasonicLightUp" ∧
      Project.lightPatterns.ports portSet c "PORT" = .ok (.ports ['A']) ∧
      Project.lightPatterns.HoldsMenu c "VALUE" "0099" :=
    ⟨_, rfl, rfl, rfl, _, "menu", _, rfl, rfl, rfl, rfl⟩
  obtain ⟨stmt, hstmt, hlights⟩ :=
    (lightsUp_digits_iff hopcode hport (by decide) (List.all_eq_true.mp rfl)).2 htext
  obtain ⟨stmt', hstmt', hlights'⟩ :=
    (lightsUp_digits_iff hopcode' hport' (by decide) (List.all_eq_true.mp rfl)).1 hmenu
  exact ⟨⟨b, stmt, hb, hstmt, hlights.mpr hsurvives⟩, c, stmt', hc, hstmt', hlights'⟩

/-- A project whose program is one such block with a pattern that is written in the slot. -/
def Json.lightUp (pattern : String) : Json :=
  .program [] [] [("below", .lightUpBlock (.writtenText pattern))]

theorem lower_lightUp (pattern : String) :
    lower (.lightUp pattern) false = .ok [[.hat none none,
      .action (.light (.lightSensor (.ports ['A']) (Slot.literal pattern)))]] := by
  obtain ⟨p, hp, hroots, hat, hhat, hhatStatement, hnext, b, hb, hopcode, hport, htext, hend⟩ :
      ∃ p, Project.ofJson (.lightUp pattern) = .ok p ∧ p.roots = ["hat"] ∧
        ∃ hat, p.block "hat" = .ok hat ∧
          (∀ stack, hat.statement p (p.expr false) false stack = .ok (.hat none none)) ∧
          hat.next = some "below" ∧
        ∃ b, p.block "below" = .ok b ∧ b.opcode = "flipperlight_ultrasonicLightUp" ∧
          p.ports portSet b "PORT" = .ok (.ports ['A']) ∧ b.HoldsText "VALUE" pattern ∧
          b.next = none :=
    ⟨_, rfl, rfl, _, rfl, fun _ => rfl, rfl, _, rfl, rfl, rfl, rfl, rfl⟩
  have hbelow : ∀ stack, b.statement p (p.expr false) false stack =
      .ok (.action (.light (.lightSensor (.ports ['A']) (Slot.literal pattern)))) := fun stack =>
    Block.statement_lightSensor hopcode hport htext.operand_eq
  have hnone : p.stackIn false [] ["below", "hat"] none = .ok [] := by rw [Project.stackIn]
  have hstack : p.stack false (some "hat") = .ok [.hat none none,
      .action (.light (.lightSensor (.ports ['A']) (Slot.literal pattern)))] := by
    rw [Project.stack, Project.stackIn_some, if_neg List.not_mem_nil, if_neg List.not_mem_nil, hhat,
      ok_eq_pure, pure_bind, hhatStatement, ok_eq_pure, pure_bind, hnext, Project.stackIn_some,
      if_neg (by decide), if_neg List.not_mem_nil, hb, ok_eq_pure, pure_bind, hbelow, ok_eq_pure,
      pure_bind, hend, hnone]
    rfl
  have hforest : p.forest false = .ok [[.hat none none,
      .action (.light (.lightSensor (.ports ['A']) (Slot.literal pattern)))]] := by
    rw [Project.forest_eq_ok_iff, hroots]
    exact .cons hstack .nil
  rw [lower, hp]
  exact hforest

/-- Leading zeros of a pattern are lost. -/
theorem lightUp_leading_zeros :
    ∃ forest, lower (.lightUp "0099") false = .ok forest ∧
      (generate forest).map Program.body = .ok ["distance_sensor_a.light_up(100, 100)"] ∧
      lightUpCall (percentages "0099") "distance_sensor_a" =
        "distance_sensor_a.light_up(0, 0, 100, 100)" := by
  refine ⟨_, lower_lightUp "0099", ?_, by decide⟩
  rw [Slot.literal_digits (by decide) (List.all_eq_true.mp rfl)]
  decide +kernel

end WordBlocks
