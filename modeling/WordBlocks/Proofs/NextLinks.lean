import Mathlib.Data.List.Nodup
import Mathlib.Logic.Relation
import WordBlocks.Proofs.Lowered

/-!
How a stack is followed along the links of its blocks. `Project.walk` follows a stack and writes
down the identifiers that it looks at, and `Project.walk_snd` says that it gives the stack itself.
The identifiers are then those of the `next` sequence from the start, up to the end of the sequence
or up to the first obstacle: an identifier without a block, a block without a statement, or an
identifier that was there before. Blocks inside bodies are followed in the same way, because no
block lies in a body of its own.
-/

namespace WordBlocks

theorem Block.statement_congr {p : Project} {slot : Json → Except CompileError Expr} {b : Block}
    {bestEffort : Bool} {stack stack' : Option String → Except CompileError Stack}
    (h : ∀ form, StatementForm.ofOpcode? b.opcode = some form → ∀ name ∈ form.layout.bodies,
      stack (b.inputBlock? name) = stack' (b.inputBlock? name)) :
    b.statement p slot bestEffort stack = b.statement p slot bestEffort stack' := by
  unfold statement
  cases hform : StatementForm.ofOpcode? b.opcode with
  | none => rfl
  | some form =>
      have hbodies := h form hform
      cases form with
      | repeatTimes | forever | repeatUntil | ifThen =>
          simp only [statementOf, hbodies "SUBSTACK" List.mem_cons_self]
      | ifElse =>
          simp only [statementOf, hbodies "SUBSTACK" List.mem_cons_self,
            hbodies "SUBSTACK2" (List.mem_cons_of_mem _ List.mem_cons_self)]
      | _ => rfl

namespace Project

section

variable (p : Project)

/-- A block and the next one. -/
def NextLink (id next : String) : Prop :=
  ∃ b, p.block id = .ok b ∧ b.next = some next

/-- A statement and the first block of one of its bodies. -/
def BodyLink (id first : String) : Prop :=
  ∃ b form name, p.block id = .ok b ∧ StatementForm.ofOpcode? b.opcode = some form ∧
    name ∈ form.layout.bodies ∧ b.inputBlock? name = some first

def Link (id id' : String) : Prop :=
  p.NextLink id id' ∨ p.BodyLink id id'

/-- A block lies somewhere inside a body of another one. -/
def Encloses (outer id : String) : Prop :=
  ∃ first, p.BodyLink outer first ∧ Relation.ReflTransGen p.Link first id

/-- Cycles of links consist of links to the next block only: no link to a body is part of one. -/
def CyclesAlongNext : Prop :=
  ∀ id, ¬p.Encloses id id

/-- The links to the next block lead from a start through the blocks of a list to a stop. -/
inductive Follows : Option String → List String → Option String → Prop where
  | refl (start : Option String) : Follows start [] start
  | next {id : String} {b : Block} {ids : List String} {stop : Option String}
      (hb : p.block id = .ok b) (h : Follows b.next ids stop) : Follows (some id) (id :: ids) stop

/-- A stack starts at an identifier inside the bodies of some statements, the innermost first. The
lowering of a stack comes to the bodies of the blocks on its links to the next block. -/
inductive StackAt : List String → Option String → Prop where
  | outermost (start : Option String) : StackAt [] start
  | body {path ids : List String} {start : Option String} {id : String} {b : Block}
      {form : StatementForm} {name : String} (h : StackAt path start)
      (hfollows : p.Follows start ids (some id)) (hb : p.block id = .ok b)
      (hform : StatementForm.ofOpcode? b.opcode = some form) (hname : name ∈ form.layout.bodies) :
      StackAt (id :: path) (b.inputBlock? name)

variable (bestEffort : Bool)

/-- The statement of the block with an identifier. Each body is a stack of its own. -/
def statementAt (id : String) : Except CompileError Stmt := do
  let b ← p.block id
  b.statement p (p.expr bestEffort) bestEffort (p.stack bestEffort)

/-- The links to the next block lead from a start to a stop through different blocks, which all have
statements. -/
structure Passes (start : Option String) (ids : List String) (s : Stack) (stop : Option String) :
    Prop where
  follows : p.Follows start ids stop
  nodup : ids.Nodup
  statements : List.Forall₂ (fun id first => p.statementAt bestEffort id = .ok first) ids s

/-- Why a stack cannot go on with an identifier after it has passed some others. -/
inductive Obstacle (passed : List String) (id : String) : CompileError → Prop where
  | repeated (h : id ∈ passed) : Obstacle passed id (.malformed (.cyclicChain id))
  | missing (h : id ∉ passed) (hb : (p.blocks.lookup id).bind Block.ofJson? = none) :
      Obstacle passed id (.malformed (.missingBlock id))
  | statement {b : Block} {e : CompileError} (h : id ∉ passed) (hb : p.block id = .ok b)
      (he : b.statement p (p.expr bestEffort) bestEffort (p.stack bestEffort) = .error e) :
      Obstacle passed id e

/-- Follows a stack after some visited blocks. Beside the stack it gives the identifiers that it has
looked at, in order. -/
def walk (visited : List String) (start : Option String) :
    List String × Except CompileError Stack :=
  match start with
  | none => ([], .ok [])
  | some id =>
    if _ : id ∈ visited then ([id], .error (.malformed (.cyclicChain id)))
    else
      match _ : p.block id with
      | .error e => ([id], .error e)
      | .ok b =>
        match b.statement p (p.expr bestEffort) bestEffort (p.stack bestEffort) with
        | .error e => ([id], .error e)
        | .ok first =>
          let later := walk (id :: visited) b.next
          (id :: later.1, later.2.map (first :: ·))
termination_by p.remaining visited
decreasing_by exact remaining_cons_lt ‹_› ‹_›

end

variable {p : Project} {bestEffort : Bool}

theorem Encloses.link {outer id id' : String} (h : p.Encloses outer id) (hlink : p.Link id id') :
    p.Encloses outer id' := by
  obtain ⟨first, hbody, hlinks⟩ := h
  exact ⟨first, hbody, hlinks.tail hlink⟩

theorem BodyLink.encloses {path : List String} {id first : String} (h : p.BodyLink id first)
    (hpath : ∀ outer ∈ path, p.Encloses outer id) : ∀ outer ∈ id :: path, p.Encloses outer first :=
  List.forall_mem_cons.mpr
    ⟨⟨first, h, .refl⟩, fun outer houter => (hpath outer houter).link (.inr h)⟩

theorem statementAt_eq {id : String} {b : Block} (hb : p.block id = .ok b) :
    p.statementAt bestEffort id =
      b.statement p (p.expr bestEffort) bestEffort (p.stack bestEffort) := by
  rw [statementAt, hb]
  rfl

theorem stackIn_of_block {path visited : List String} {id : String} {b : Block}
    (hvisited : id ∉ visited) (hpath : id ∉ path) (hb : p.block id = .ok b) :
    p.stackIn bestEffort path visited (some id) =
      b.statement p (p.expr bestEffort) bestEffort (p.stackIn bestEffort (id :: path) []) >>=
        fun first => p.stackIn bestEffort path (id :: visited) b.next >>=
          fun rest => .ok (first :: rest) := by
  rw [stackIn_some, if_neg hvisited, if_neg hpath, hb]
  rfl

theorem Encloses.follows {outer : String} {start stop : Option String} {ids : List String}
    (h : ∀ id ∈ start, p.Encloses outer id) (hfollows : p.Follows start ids stop) :
    ∀ id ∈ stop, p.Encloses outer id := by
  induction hfollows with
  | refl start => exact h
  | next hb _ ih => exact ih fun next hnext => (h _ rfl).link (.inl ⟨_, hb, hnext⟩)

theorem StackAt.encloses {path : List String} {start : Option String} (h : p.StackAt path start) :
    ∀ outer ∈ path, ∀ id ∈ start, p.Encloses outer id := by
  induction h with
  | outermost start => simp
  | @body path ids start id b form name _ hfollows hb hform hname ih =>
      intro outer houter first hfirst
      have hlink : p.BodyLink id first := ⟨b, form, name, hb, hform, hname, hfirst⟩
      have hpath : ∀ outer ∈ path, p.Encloses outer id :=
        fun outer houter => Encloses.follows (ih outer houter) hfollows id rfl
      exact hlink.encloses hpath outer houter

/-- The statements around a stack make no difference to it. -/
theorem stackIn_path_eq (hp : p.CyclesAlongNext) {path path' visited : List String}
    {start : Option String} (hpath : ∀ outer ∈ path, ∀ id ∈ start, p.Encloses outer id)
    (hpath' : ∀ outer ∈ path', ∀ id ∈ start, p.Encloses outer id) :
    p.stackIn bestEffort path visited start = p.stackIn bestEffort path' visited start := by
  induction path, visited, start using stackIn.induct p generalizing path' with
  | case1 path visited => rw [stackIn, stackIn]
  | case2 path visited id hmem => rw [stackIn_some, stackIn_some, if_pos hmem, if_pos hmem]
  | case3 path visited id _ hmem => exact absurd (hpath id hmem id rfl) (hp id)
  | case4 path visited id _ hmem e herror =>
      have hmem' : id ∉ path' := fun h => hp id (hpath' id h id rfl)
      rw [stackIn_some, stackIn_some, if_neg hmem, if_neg hmem', herror]
      rfl
  | case5 path visited id hvisited hmem b hb ihbody ihrest =>
      have hmem' : id ∉ path' := fun h => hp id (hpath' id h id rfl)
      have hbody : b.statement p (p.expr bestEffort) bestEffort
            (p.stackIn bestEffort (id :: path) []) =
          b.statement p (p.expr bestEffort) bestEffort (p.stackIn bestEffort (id :: path') []) := by
        refine Block.statement_congr fun form hform name hname => ?_
        have hlink : ∀ first ∈ b.inputBlock? name, p.BodyLink id first :=
          fun first hfirst => ⟨b, form, name, hb, hform, hname, hfirst⟩
        apply ihbody
        · exact fun outer houter first hfirst => (hlink first hfirst).encloses
            (fun outer houter => hpath outer houter id rfl) outer houter
        · exact fun outer houter first hfirst => (hlink first hfirst).encloses
            (fun outer houter => hpath' outer houter id rfl) outer houter
      have hrest : p.stackIn bestEffort path (id :: visited) b.next =
          p.stackIn bestEffort path' (id :: visited) b.next := by
        have hlink : ∀ next ∈ b.next, p.Link id next := fun next hnext => .inl ⟨b, hb, hnext⟩
        apply ihrest
        · exact fun outer houter next hnext => (hpath outer houter id rfl).link (hlink next hnext)
        · exact fun outer houter next hnext => (hpath' outer houter id rfl).link (hlink next hnext)
      rw [stackIn_of_block hvisited hmem hb, stackIn_of_block hvisited hmem' hb, hbody, hrest]

/-- After the blocks of `visited` a stack either meets an obstacle or has a further statement. -/
theorem obstacle_or_statement (p : Project) (bestEffort : Bool) (visited : List String)
    (id : String) :
    (∃ e, p.Obstacle bestEffort visited id e) ∨
      id ∉ visited ∧ ∃ b first, p.block id = .ok b ∧ p.statementAt bestEffort id = .ok first := by
  by_cases hmem : id ∈ visited
  · exact .inl ⟨_, .repeated hmem⟩
  cases hblock : (p.blocks.lookup id).bind Block.ofJson? with
  | none => exact .inl ⟨_, .missing hmem hblock⟩
  | some b =>
      have hb : p.block id = .ok b := by rw [block, hblock]
      cases hfirst : b.statement p (p.expr bestEffort) bestEffort (p.stack bestEffort) with
      | error e => exact .inl ⟨e, .statement hmem hb hfirst⟩
      | ok first => exact .inr ⟨hmem, b, first, hb, by rw [statementAt_eq hb, hfirst]⟩

theorem walk_none (visited : List String) : p.walk bestEffort visited none = ([], .ok []) := by
  rw [walk]

theorem walk_obstacle {visited : List String} {id : String} {e : CompileError}
    (h : p.Obstacle bestEffort visited id e) :
    p.walk bestEffort visited (some id) = ([id], .error e) := by
  rw [walk]
  cases h with
  | repeated hmem => rw [dif_pos hmem]
  | missing hmem hblock =>
      have hb : p.block id = .error (.malformed (.missingBlock id)) := by rw [block, hblock]
      rw [dif_neg hmem]
      split <;> simp_all
  | statement hmem hb he =>
      rw [dif_neg hmem]
      split <;> simp_all

theorem walk_statement {visited : List String} {id : String} {b : Block} {first : Stmt}
    (hmem : id ∉ visited) (hb : p.block id = .ok b)
    (hfirst : p.statementAt bestEffort id = .ok first) :
    p.walk bestEffort visited (some id) =
      (id :: (p.walk bestEffort (id :: visited) b.next).1,
        (p.walk bestEffort (id :: visited) b.next).2.map (first :: ·)) := by
  rw [statementAt_eq hb] at hfirst
  rw [walk, dif_neg hmem]
  split <;> simp_all

/-- What holds at the end of a stack and at an obstacle, and passes from the next block to a block,
holds of every stack. -/
theorem walk_induction (p : Project) (bestEffort : Bool)
    {P : List String → Option String → Prop} (finish : ∀ visited, P visited none)
    (obstacle : ∀ visited id e, p.Obstacle bestEffort visited id e → P visited (some id))
    (statement : ∀ visited id b first, id ∉ visited → p.block id = .ok b →
      p.statementAt bestEffort id = .ok first → P (id :: visited) b.next → P visited (some id))
    (visited : List String) (start : Option String) : P visited start := by
  -- On the number of blocks that are not yet visited.
  induction hn : p.remaining visited using Nat.strongRecOn generalizing visited start with
  | ind n ih =>
      cases start with
      | none => exact finish visited
      | some id =>
          rcases obstacle_or_statement p bestEffort visited id with
            ⟨e, he⟩ | ⟨hmem, b, first, hb, hfirst⟩
          · exact obstacle visited id e he
          · refine statement visited id b first hmem hb hfirst (ih _ ?_ _ _ rfl)
            rw [← hn]
            exact remaining_cons_lt hb hmem

theorem statement_stackIn_eq (hp : p.CyclesAlongNext) {path : List String} {id : String} {b : Block}
    (hpath : ∀ outer ∈ path, p.Encloses outer id) (hb : p.block id = .ok b) :
    b.statement p (p.expr bestEffort) bestEffort (p.stackIn bestEffort (id :: path) []) =
      p.statementAt bestEffort id := by
  rw [statementAt_eq hb]
  refine Block.statement_congr fun form hform name hname => ?_
  refine stackIn_path_eq hp (fun outer houter first hfirst => ?_) (by simp)
  have hlink : p.BodyLink id first := ⟨b, form, name, hb, hform, hname, hfirst⟩
  exact hlink.encloses hpath outer houter

theorem stackIn_obstacle (hp : p.CyclesAlongNext) {path visited : List String} {id : String}
    {e : CompileError} (hpath : ∀ outer ∈ path, p.Encloses outer id)
    (h : p.Obstacle bestEffort visited id e) :
    p.stackIn bestEffort path visited (some id) = .error e := by
  have hmem : id ∉ path := fun h => hp id (hpath id h)
  cases h with
  | repeated hvisited => rw [stackIn_some, if_pos hvisited]
  | missing hvisited hblock =>
      have hb : p.block id = .error (.malformed (.missingBlock id)) := by rw [block, hblock]
      rw [stackIn_some, if_neg hvisited, if_neg hmem, hb]
      rfl
  | statement hvisited hb he =>
      rw [stackIn_of_block hvisited hmem hb, statement_stackIn_eq hp hpath hb, statementAt_eq hb,
        he]
      rfl

theorem stackIn_statement (hp : p.CyclesAlongNext) {path visited : List String} {id : String}
    {b : Block} {first : Stmt} (hpath : ∀ outer ∈ path, p.Encloses outer id)
    (hvisited : id ∉ visited) (hb : p.block id = .ok b)
    (hfirst : p.statementAt bestEffort id = .ok first) :
    p.stackIn bestEffort path visited (some id) =
      (p.stackIn bestEffort path (id :: visited) b.next).map (first :: ·) := by
  have hmem : id ∉ path := fun h => hp id (hpath id h)
  rw [stackIn_of_block hvisited hmem hb, statement_stackIn_eq hp hpath hb, hfirst]
  cases p.stackIn bestEffort path (id :: visited) b.next <;> rfl

theorem walk_snd (hp : p.CyclesAlongNext) {path : List String} (visited : List String)
    (start : Option String) (hpath : ∀ outer ∈ path, ∀ id ∈ start, p.Encloses outer id) :
    (p.walk bestEffort visited start).2 = p.stackIn bestEffort path visited start := by
  induction visited, start using walk_induction p bestEffort with
  | finish visited => rw [walk_none, stackIn]
  | obstacle visited id e he =>
      rw [walk_obstacle he, stackIn_obstacle hp (fun outer houter => hpath outer houter id rfl) he]
  | statement visited id b first hmem hb hfirst ih =>
      have hnext : ∀ outer ∈ path, ∀ next ∈ b.next, p.Encloses outer next :=
        fun outer houter next hnext => (hpath outer houter id rfl).link (.inl ⟨b, hb, hnext⟩)
      rw [walk_statement hmem hb hfirst, ih hnext,
        stackIn_statement hp (fun outer houter => hpath outer houter id rfl) hmem hb hfirst]

/-- A walk looks at each block that is not yet visited at most once, and at one identifier more
where it is stopped. -/
theorem length_walk_le (visited : List String) (start : Option String) :
    (p.walk bestEffort visited start).1.length ≤ p.remaining visited + 1 := by
  induction visited, start using walk_induction p bestEffort with
  | finish visited => simp [walk_none]
  | obstacle visited id e he => simp [walk_obstacle he]
  | statement visited id b first hmem hb hfirst ih =>
      have hlt := remaining_cons_lt hb hmem
      rw [walk_statement hmem hb hfirst, List.length_cons]
      omega

theorem Passes.refl (start : Option String) : p.Passes bestEffort start [] [] start :=
  ⟨.refl start, .nil, .nil⟩

theorem Passes.next {id : String} {b : Block} {first : Stmt} {ids : List String} {s : Stack}
    {stop : Option String} (hb : p.block id = .ok b)
    (hfirst : p.statementAt bestEffort id = .ok first) (hid : id ∉ ids)
    (h : p.Passes bestEffort b.next ids s stop) :
    p.Passes bestEffort (some id) (id :: ids) (first :: s) stop :=
  ⟨.next hb h.follows, List.nodup_cons.mpr ⟨hid, h.nodup⟩, .cons hfirst h.statements⟩

theorem Passes.walk_eq {visited ids : List String} {start stop : Option String} {s : Stack}
    (h : p.Passes bestEffort start ids s stop) (hdisjoint : ids.Disjoint visited) :
    p.walk bestEffort visited start =
      (ids ++ (p.walk bestEffort (ids.reverse ++ visited) stop).1,
        (p.walk bestEffort (ids.reverse ++ visited) stop).2.map (s ++ ·)) := by
  obtain ⟨hfollows, hnodup, hs⟩ := h
  induction hfollows generalizing visited s with
  | refl start =>
      cases hs
      ext1
      · rfl
      · exact (congrFun Except.map_id _).symm
  | @next id b ids stop hb _ ih =>
      cases hs with
      | cons hfirst hs =>
          obtain ⟨hid, hnodup⟩ := List.nodup_cons.mp hnodup
          obtain ⟨hmem, hdisjoint⟩ := List.disjoint_cons_left.mp hdisjoint
          rw [walk_statement hmem hb hfirst,
            ih (List.disjoint_cons_right.mpr ⟨hid, hdisjoint⟩) hnodup hs]
          simp only [List.reverse_cons, List.append_assoc, List.cons_append, List.nil_append]
          cases (p.walk bestEffort (ids.reverse ++ id :: visited) stop).2 <;> rfl

theorem exists_passes (p : Project) (bestEffort : Bool) (visited : List String)
    (start : Option String) :
    ∃ ids s stop, p.Passes bestEffort start ids s stop ∧ ids.Disjoint visited ∧
      ∀ id ∈ stop, ∃ e, p.Obstacle bestEffort (ids.reverse ++ visited) id e := by
  induction visited, start using walk_induction p bestEffort with
  | finish visited => exact ⟨[], [], none, .refl none, List.disjoint_nil_left _, by simp⟩
  | obstacle visited id e he =>
      refine ⟨[], [], some id, .refl (some id), List.disjoint_nil_left _, fun stop hstop => ?_⟩
      cases hstop
      exact ⟨e, he⟩
  | statement visited id b first hmem hb hfirst ih =>
      obtain ⟨ids, s, stop, h, hdisjoint, hstop⟩ := ih
      obtain ⟨hid, hdisjoint⟩ := List.disjoint_cons_right.mp hdisjoint
      refine ⟨id :: ids, first :: s, stop, .next hb hfirst hid h,
        List.disjoint_cons_left.mpr ⟨hmem, hdisjoint⟩, ?_⟩
      simpa using hstop

theorem Obstacle.congr {passed passed' : List String} {id : String} {e : CompileError}
    (h : p.Obstacle bestEffort passed id e) (hmem : id ∈ passed ↔ id ∈ passed') :
    p.Obstacle bestEffort passed' id e := by
  cases h with
  | repeated hpassed => exact .repeated (hmem.mp hpassed)
  | missing hpassed hb => exact .missing (mt hmem.mpr hpassed) hb
  | statement hpassed hb he => exact .statement (mt hmem.mpr hpassed) hb he

theorem Passes.walk_finish {start : Option String} {ids : List String} {s : Stack}
    (h : p.Passes bestEffort start ids s none) : p.walk bestEffort [] start = (ids, .ok s) := by
  rw [h.walk_eq (List.disjoint_nil_right ids), walk_none, List.append_nil]
  exact congrArg (fun s => (ids, Except.ok s)) (List.append_nil s)

theorem Passes.walk_stop {start : Option String} {ids : List String} {id : String} {s : Stack}
    {e : CompileError} (h : p.Passes bestEffort start ids s (some id))
    (he : p.Obstacle bestEffort ids id e) :
    p.walk bestEffort [] start = (ids ++ [id], .error e) := by
  have he : p.Obstacle bestEffort (ids.reverse ++ []) id e := he.congr (by simp)
  rw [h.walk_eq (List.disjoint_nil_right ids), walk_obstacle he]
  rfl

theorem walk_cases (p : Project) (bestEffort : Bool) (start : Option String) :
    (∃ ids s, p.Passes bestEffort start ids s none ∧
      p.walk bestEffort [] start = (ids, .ok s)) ∨
    ∃ ids id s e, p.Passes bestEffort start ids s (some id) ∧ p.Obstacle bestEffort ids id e ∧
      p.walk bestEffort [] start = (ids ++ [id], .error e) := by
  obtain ⟨ids, s, stop, h, -, hstop⟩ := p.exists_passes bestEffort [] start
  cases stop with
  | none => exact .inl ⟨ids, s, h, h.walk_finish⟩
  | some id =>
      obtain ⟨e, he⟩ := hstop id rfl
      have he : p.Obstacle bestEffort ids id e := he.congr (by simp)
      exact .inr ⟨ids, id, s, e, h, he, h.walk_stop he⟩

theorem walk_eq_ok_iff {start : Option String} {s : Stack} :
    (p.walk bestEffort [] start).2 = .ok s ↔ ∃ ids, p.Passes bestEffort start ids s none := by
  constructor
  · intro hs
    rcases p.walk_cases bestEffort start with ⟨ids, t, h, hwalk⟩ | ⟨ids, id, t, e, -, -, hwalk⟩
    · obtain rfl : t = s := by simpa [hwalk] using hs
      exact ⟨ids, h⟩
    · simp [hwalk] at hs
  · rintro ⟨ids, h⟩
    rw [h.walk_finish]

theorem walk_eq_error_iff {start : Option String} {e : CompileError} :
    (p.walk bestEffort [] start).2 = .error e ↔
      ∃ ids id passed, p.Passes bestEffort start ids passed (some id) ∧
        p.Obstacle bestEffort ids id e := by
  constructor
  · intro he
    rcases p.walk_cases bestEffort start with ⟨ids, t, -, hwalk⟩ | ⟨ids, id, t, e', h, h', hwalk⟩
    · simp [hwalk] at he
    · obtain rfl : e' = e := by simpa [hwalk] using he
      exact ⟨ids, id, t, h, h'⟩
  · rintro ⟨ids, id, passed, h, he⟩
    rw [h.walk_stop he]

/-- A stack at any depth is followed along its links to the next block, at most one identifier
further than there are blocks, and no identifier is looked at beside those of the links. The stack
is there if these links end without coming back to a block and if each of the blocks has a
statement, and it consists of these statements in order. Otherwise the first obstacle on the links
is the error. -/
theorem stackIn_follows_next (hp : p.CyclesAlongNext) {path : List String} {start : Option String}
    (h : p.StackAt path start) :
    ((p.walk bestEffort [] start).2 = p.stackIn bestEffort path [] start ∧
      (p.walk bestEffort [] start).1.length ≤ p.blocks.length + 1 ∧
      (∀ ids s, p.Passes bestEffort start ids s none → (p.walk bestEffort [] start).1 = ids) ∧
      ∀ ids id passed e, p.Passes bestEffort start ids passed (some id) →
        p.Obstacle bestEffort ids id e → (p.walk bestEffort [] start).1 = ids ++ [id]) ∧
    (∀ s, p.stackIn bestEffort path [] start = .ok s ↔
      ∃ ids, p.Passes bestEffort start ids s none) ∧
    ∀ e, p.stackIn bestEffort path [] start = .error e ↔
      ∃ ids id passed, p.Passes bestEffort start ids passed (some id) ∧
        p.Obstacle bestEffort ids id e := by
  have hwalk : (p.walk bestEffort [] start).2 = p.stackIn bestEffort path [] start :=
    walk_snd hp [] start h.encloses
  have hlength : (p.walk bestEffort [] start).1.length ≤ p.remaining [] + 1 :=
    length_walk_le [] start
  have hbound : p.remaining [] + 1 ≤ p.blocks.length + 1 := Nat.succ_le_succ (p.remaining_le [])
  refine ⟨⟨hwalk, Nat.le_trans hlength hbound, fun ids s hpasses => ?_,
    fun ids id passed e hpasses he => ?_⟩, fun s => ?_, fun e => ?_⟩
  · rw [hpasses.walk_finish]
  · rw [hpasses.walk_stop he]
  · rw [← hwalk, walk_eq_ok_iff]
  · rw [← hwalk, walk_eq_error_iff]

/-- A loop over two blocks that follow each other. -/
def loopOverCycle : Project :=
  ⟨[], [], [],
    [("loop", .object [("opcode", .string "control_forever"),
        ("inputs", .object [("SUBSTACK", .array [.number (.integer 2), .string "stop"])])]),
      ("stop", .object [("opcode", .string "flippermove_stopMove"), ("next", .string "quiet")]),
      ("quiet", .object [("opcode", .string "flippersound_stopSound"),
        ("next", .string "stop")])], []⟩

theorem block_loopOverCycle {id : String} {b : Block} (h : loopOverCycle.block id = .ok b) :
    id = "loop" ∨ id = "stop" ∨ id = "quiet" := by
  obtain ⟨v, hv⟩ := exists_mem_blocks h
  have hid := List.mem_map_of_mem (f := Prod.fst) hv
  simpa [loopOverCycle] using hid

theorem bodyLink_loopOverCycle {id first : String} (h : loopOverCycle.BodyLink id first) :
    id = "loop" ∧ first = "stop" := by
  obtain ⟨b, form, name, hb, hform, hname, hfirst⟩ := h
  rcases block_loopOverCycle hb with rfl | rfl | rfl
  · cases hb
    cases hform
    cases List.mem_singleton.mp hname
    cases hfirst
    exact ⟨rfl, rfl⟩
  · cases hb
    cases hform
    cases hname
  · cases hb
    cases hform
    cases hname

theorem nextLink_loopOverCycle {id next : String} (h : loopOverCycle.NextLink id next) :
    next = "stop" ∨ next = "quiet" := by
  obtain ⟨b, hb, hnext⟩ := h
  rcases block_loopOverCycle hb with rfl | rfl | rfl
  · cases hb
    cases hnext
  · cases hb
    cases hnext
    exact .inr rfl
  · cases hb
    cases hnext
    exact .inl rfl

theorem cyclesAlongNext_loopOverCycle : loopOverCycle.CyclesAlongNext := by
  -- Every link leads to one of the two blocks, so none leads back to the loop.
  have hlinked : ∀ id, Relation.ReflTransGen loopOverCycle.Link "stop" id → id ≠ "loop" := by
    intro id h
    induction h with
    | refl => decide
    | tail _ hlink _ =>
        rcases hlink with hnext | hbody
        · rcases nextLink_loopOverCycle hnext with rfl | rfl <;> decide
        · rw [(bodyLink_loopOverCycle hbody).2]
          decide
  rintro id ⟨first, hbody, hlinks⟩
  obtain ⟨rfl, rfl⟩ := bodyLink_loopOverCycle hbody
  exact hlinked "loop" hlinks rfl

theorem stackIn_follows_next_loopOverCycle :
    loopOverCycle.CyclesAlongNext ∧ loopOverCycle.StackAt ["loop"] (some "stop") ∧
      loopOverCycle.stackIn false ["loop"] [] (some "stop") =
        .error (.malformed (.cyclicChain "stop")) := by
  have hat : loopOverCycle.StackAt ["loop"] (some "stop") := by
    obtain ⟨b, hb, hform, hbody⟩ : ∃ b, loopOverCycle.block "loop" = .ok b ∧
        StatementForm.ofOpcode? b.opcode = some .forever ∧
          b.inputBlock? "SUBSTACK" = some "stop" := ⟨_, rfl, rfl, rfl⟩
    rw [← hbody]
    exact .body (.outermost (some "loop")) (.refl (some "loop")) hb hform List.mem_cons_self
  refine ⟨cyclesAlongNext_loopOverCycle, hat,
    ((stackIn_follows_next cyclesAlongNext_loopOverCycle hat).2.2 _).mpr
      ⟨["stop", "quiet"], "stop", _, ⟨.next rfl (.next rfl (.refl _)), by decide,
        .cons rfl (.cons rfl .nil)⟩, .repeated (by decide)⟩⟩

end Project

end WordBlocks
