import Mathlib.Data.List.Nodup
import Mathlib.Data.Option.Basic
import WordBlocks.Proofs.StoredArchive

/-!
Stray locators. The end record of an archive whose directory happens to end like a locator leads
nowhere (`entriesFrom?_of_strayLocator`). Without one, a project is read back, packed alone or in an
inner archive (`read_packaged`).
-/

namespace WordBlocks

namespace Zip

open Bytes

theorem littleEndian_pos (bs : Bytes) {b : UInt8} (hb : b ≠ 0) : 0 < littleEndian (bs ++ [b]) := by
  induction bs with
  | nil =>
      have hne : b.toNat ≠ 0 := fun h => hb (UInt8.toNat_inj.mp h)
      change 0 < b.toNat + 256 * 0
      omega
  | cons c bs ih =>
      rw [List.cons_append, littleEndian]
      omega

theorem reads_locator {a b c : Bytes} (ha : a.length = 4) (hb : b.length = 8) (hc : c.length = 4) :
    Reads locator (ofWord 4 0x07064B50 ++ (a ++ (b ++ c)))
      ⟨littleEndian a, littleEndian b, littleEndian c⟩ := by
  refine (reads_signature (by decide)).bind ?_
  refine (reads_littleEndian a ha).bind ?_
  refine (reads_littleEndian b hb).bind ?_
  exact (reads_littleEndian c hc).map (Locator.mk (littleEndian a) (littleEndian b))

theorem directoryRecords_append (start : Nat) (before after : List Member) :
    directoryRecords start (before ++ after) =
      directoryRecords start before ++
        directoryRecords (start + (records before).length) after := by
  induction before generalizing start with
  | nil => rfl
  | cons m before ih =>
      rw [List.cons_append, directoryRecords, directoryRecords, ih, length_records_cons,
        List.append_assoc, Nat.add_assoc]

theorem Member.directoryRecord_eq (m : Member) (start : Nat) :
    ∃ front middle, middle.length = 8 ∧ m.directoryRecord start =
      front ++ (ofWord 2 m.nameBytes.length ++ (middle ++ (ofWord 4 m.attributes ++
        (ofWord 4 start ++ m.nameBytes)))) := by
  refine ⟨ofWord 4 0x02014B50 ++ (ofWord 2 m.madeBy ++ ofWord 2 m.needed) ++ ofWord 2 0 ++
    ofWord 2 0 ++ ofWord 4 m.modified ++ ofWord 4 (Bytes.crc32 m.content) ++
    ofWord 4 m.content.length ++ ofWord 4 m.content.length,
    ofWord 2 0 ++ ofWord 2 0 ++ (ofWord 2 0 ++ ofWord 2 0), rfl, ?_⟩
  simp [Member.directoryRecord]

theorem directoryRecords_concat (before : List Member) (m : Member) :
    directoryRecords 0 (before ++ [m]) =
      directoryRecords 0 before ++ m.directoryRecord (records before).length := by
  rw [directoryRecords_append, directoryRecords, directoryRecords.eq_1, List.append_nil,
    Nat.zero_add]

theorem strayLocator_of_attributes {before : List Member} {m : Member}
    (hcount : before.length = 0xFFFE) (hattributes : m.attributes = 0x07064B50)
    (hname : m.nameBytes.length = 12) : StrayLocator (before ++ [m]) := by
  obtain ⟨front, middle, -, hrecord⟩ := m.directoryRecord_eq (records before).length
  refine ⟨.inl (by rw [List.length_append, hcount]; rfl), ?_⟩
  refine ⟨directoryRecords 0 before ++ (front ++ (ofWord 2 m.nameBytes.length ++ middle)),
    ofWord 4 (records before).length ++ m.nameBytes, ?_, ?_⟩
  · rw [directoryRecords_concat, hrecord, hattributes]
    simp only [List.append_assoc]
  · rw [List.length_append, length_ofWord, hname]

/-- The last byte of a stray locator is that of a name, since without a name the signature would
stand in the length of the name. -/
theorem StrayLocator.exists_last {ms : List Member} (h : StrayLocator ms)
    (hnames : ∀ m ∈ ms, 0 ∉ m.nameBytes) :
    ∃ front back z, directoryRecords 0 ms = front ++ (ofWord 4 0x07064B50 ++ (back ++ [z])) ∧
      back.length = 15 ∧ z ≠ 0 := by
  obtain ⟨front, back, hdirectory, hback⟩ := h.signed
  rcases List.eq_nil_or_concat' ms with rfl | ⟨before, m, rfl⟩
  · have hlength := congrArg List.length hdirectory
    simp only [directoryRecords, List.length_nil, List.length_append, length_ofWord] at hlength
    omega
  obtain ⟨body, middle, hmiddle, hrecord⟩ := m.directoryRecord_eq (records before).length
  have hlast := hdirectory
  rw [directoryRecords_concat, hrecord] at hlast
  rcases List.eq_nil_or_concat' m.nameBytes with hname | ⟨name, z, hname⟩
  · rw [hname, List.append_nil, List.length_nil, ← List.append_assoc] at hlast
    have hsplit : front ++ (ofWord 4 0x07064B50 ++ back) =
        (front ++ ofWord 2 0x4B50) ++ (ofWord 2 0x0706 ++ back) := by
      rw [List.append_assoc]
      rfl
    rw [hsplit] at hlast
    have hlength := List.append_inj_right' hlast (by simp [hmiddle, hback])
    cases hlength
  · rcases List.eq_nil_or_concat' back with rfl | ⟨front', y, rfl⟩
    · cases hback
    rw [hname] at hlast
    simp only [← List.append_assoc] at hlast
    obtain rfl : z = y := by simpa using List.append_inj_right' hlast rfl
    refine ⟨front, front', z, hdirectory, by simpa using hback, ?_⟩
    rintro rfl
    refine hnames m (by simp) ?_
    rw [hname]
    simp

theorem EndRecord.locator?_of_strayLocator {ms : List Member} (h : StrayLocator ms)
    (hnames : ∀ m ∈ ms, 0 ∉ m.nameBytes) :
    ∃ l, EndRecord.locator? (archive ms) (endPosition ms)
      ⟨0, 0, ms.length, ms.length, (records ms).length⟩ = some l ∧ 1 < l.disks := by
  obtain ⟨front, back, z, hdirectory, hback, hz⟩ := h.exists_last hnames
  obtain ⟨a, b, c, rfl, ha, hb, hc⟩ : ∃ a b c, back = a ++ (b ++ c) ∧ a.length = 4 ∧
      b.length = 8 ∧ c.length = 3 := by
    refine ⟨back.take 4, (back.drop 4).take 8, (back.drop 4).drop 8, ?_, ?_, ?_, ?_⟩
    · rw [List.take_append_drop, List.take_append_drop]
    all_goals simp [hback]
  rw [List.append_assoc, List.append_assoc] at hdirectory
  have hlength : (ofWord 4 0x07064B50 ++ (a ++ (b ++ (c ++ [z])))).length = 20 := by
    simp only [List.length_append, length_ofWord, ha, hb, hc, List.length_singleton]
  have hdrop : (directoryRecords 0 ms).drop ((directoryRecords 0 ms).length - 20) =
      ofWord 4 0x07064B50 ++ (a ++ (b ++ (c ++ [z]))) := by
    rw [hdirectory, List.length_append, hlength, Nat.add_sub_cancel]
    exact List.drop_left
  have hposition : 20 ≤ endPosition ms := by
    rw [endPosition, hdirectory, List.length_append, hlength]
    omega
  have hread := reads_locator ha hb (c := c ++ [z]) (by simp [hc]) (endBytes ms)
  rw [← hdrop, ← drop_locator (by omega)] at hread
  refine ⟨⟨littleEndian a, littleEndian b, littleEndian (c ++ [z])⟩, ?_, ?_⟩
  · rw [EndRecord.locator?, if_pos ⟨h.wide, hposition⟩, hread, Option.map_some]
  · obtain ⟨x, xs, rfl⟩ := List.exists_cons_of_length_pos (by omega : 0 < c.length)
    have hpos := littleEndian_pos xs hz
    change 1 < x.toNat + 256 * littleEndian (xs ++ [z])
    omega

/-- The end record of an archive with a stray locator leads nowhere: the locator speaks of more than
one disk. -/
theorem entriesFrom?_of_strayLocator {ms : List Member} (h : Fits ms) (hstray : StrayLocator ms)
    (hnames : ∀ m ∈ ms, 0 ∉ m.nameBytes) :
    entriesFrom? (archive ms) (endPosition ms) (endBytes ms) = none := by
  have hend := reads_endRecord h []
  rw [List.append_nil] at hend
  obtain ⟨l, hlocator, hdisks⟩ := EndRecord.locator?_of_strayLocator hstray hnames
  simp only [entriesFrom?, hend, hlocator, Option.bind_eq_bind, Option.bind_some]
  simp [Locator.directory?, hdisks]

theorem signed_eq_nil {n position count : Nat} {bs : Bytes}
    (h : ∀ i < count, ¬ ofWord 4 n <+: bs.drop i) : signed n [] position count bs = [] := by
  induction count generalizing position bs with
  | zero => rfl
  | succ count ih =>
      have hhere : ¬ (signature n bs).isSome := by
        intro hsome
        obtain ⟨⟨⟨⟩, rest⟩, hread⟩ := Option.isSome_iff_exists.mp hsome
        exact h 0 (Nat.succ_pos count) ⟨rest, (eq_of_signature hread).symm⟩
      rw [signed, if_neg hhere]
      refine ih fun i hi => ?_
      rw [List.drop_tail]
      exact h (i + 1) (Nat.succ_lt_succ hi)

/-- No end record seems to start before that of the archive. -/
def EndsOnce (ms : List Member) : Prop :=
  ∀ i < endPosition ms, ¬ ofWord 4 0x06054B50 <+: (archive ms).drop i

theorem entries?_of_strayLocator {ms : List Member} (h : Fits ms) (hstray : StrayLocator ms)
    (hnames : ∀ m ∈ ms, 0 ∉ m.nameBytes) (hends : EndsOnce ms) : entries? (archive ms) = none := by
  rw [entries?_archive_eq, entriesFrom?_of_strayLocator h hstray hnames, signed_eq_nil hends]
  rfl

/-- No end record seems to start in some bytes, whatever comes after them. -/
def Endless (bs : Bytes) : Prop :=
  ∀ rest i, i < bs.length → ¬ ofWord 4 0x06054B50 <+: (bs ++ rest).drop i

theorem Endless.append {bs cs : Bytes} (hbs : Endless bs) (hcs : Endless cs) :
    Endless (bs ++ cs) := by
  intro rest i hi
  rw [List.append_assoc]
  rcases Nat.lt_or_ge i bs.length with hlt | hge
  · exact hbs (cs ++ rest) i hlt
  · rw [List.drop_append, List.drop_of_length_le hge, List.nil_append]
    refine hcs rest (i - bs.length) ?_
    rw [List.length_append] at hi
    omega

theorem endless_of_notMem {bs : Bytes} (h : 0x50 ∉ bs) : Endless bs := by
  rintro rest i hi ⟨after, hdrop⟩
  rw [List.drop_append_of_le_length (by omega), List.drop_eq_getElem_cons hi] at hdrop
  have hfirst : 0x50 = bs[i] := (List.cons.inj hdrop).1
  exact h (hfirst ▸ List.getElem_mem hi)

theorem endless_four (a b c : UInt8) {d : UInt8} (h : d ∉ ofWord 4 0x06054B50) :
    Endless [a, b, c, d] := by
  rintro rest i hi ⟨after, hdrop⟩
  refine h (List.mem_of_getElem? (i := 3 - i) ?_)
  have hi' : 3 - i < (ofWord 4 0x06054B50).length := by
    rw [length_ofWord]
    omega
  have hget := congrArg (·[3 - i]?) hdrop
  rw [List.getElem?_append_left hi', List.getElem?_drop] at hget
  have hthree : i + (3 - i) = 3 := by
    change i < 4 at hi
    omega
  rw [hget, hthree]
  rfl

theorem endless_word {n : Nat} (h : n < 0x1000000) : Endless (ofWord 4 n) := by
  have hlast : UInt8.ofNat (n / 256 / 256 / 256) = 0 := by
    rw [Nat.div_div_eq_div_mul, Nat.div_div_eq_div_mul, Nat.div_eq_of_lt h]
    rfl
  refine endless_four _ _ _ ?_
  rw [hlast]
  decide

/-- The bytes in the records of a member that depend on it, its attributes apart. -/
def Member.bytes (m : Member) : Bytes :=
  ofWord 2 m.madeBy ++ ofWord 2 m.needed ++ ofWord 4 m.modified ++
    ofWord 4 (Bytes.crc32 m.content) ++ ofWord 4 m.content.length ++
    ofWord 2 m.nameBytes.length ++ m.nameBytes ++ m.content

theorem Member.endless_record {m : Member} (h : 0x50 ∉ m.bytes) : Endless m.record := by
  simp only [Member.bytes, List.mem_append, not_or] at h
  obtain ⟨⟨⟨⟨⟨⟨⟨-, hneeded⟩, hmodified⟩, hcrc⟩, hsize⟩, hlength⟩, hname⟩, hcontent⟩ := h
  have hsigned : Endless (ofWord 4 0x04034B50) := endless_four _ _ _ (by decide)
  have hfields : 0x50 ∉ ofWord 2 m.needed ++ ofWord 2 0 ++ ofWord 2 0 ++ ofWord 4 m.modified ++
      ofWord 4 (Bytes.crc32 m.content) ++ ofWord 4 m.content.length ++
      ofWord 4 m.content.length := by
    have hzero : (0x50 : UInt8) ∉ ofWord 2 0 := by decide
    simp only [List.mem_append, not_or]
    exact ⟨⟨⟨⟨⟨⟨hneeded, hzero⟩, hzero⟩, hmodified⟩, hcrc⟩, hsize⟩, hsize⟩
  have hheader : Endless m.header :=
    hsigned.append ((endless_of_notMem hfields).append
      ((endless_of_notMem hlength).append (endless_of_notMem (by decide))))
  exact (hheader.append (endless_of_notMem hname)).append (endless_of_notMem hcontent)

theorem Member.endless_directoryRecord {m : Member} {start : Nat} (h : 0x50 ∉ m.bytes)
    (hattributes : Endless (ofWord 4 m.attributes)) (hstart : start < 0x1000000) :
    Endless (m.directoryRecord start) := by
  simp only [Member.bytes, List.mem_append, not_or] at h
  obtain ⟨⟨⟨⟨⟨⟨⟨hmade, hneeded⟩, hmodified⟩, hcrc⟩, hsize⟩, hlength⟩, hname⟩, -⟩ := h
  have hzero : Endless (ofWord 2 0) := endless_of_notMem (by decide)
  have hnil : Endless [] := endless_of_notMem List.not_mem_nil
  have hsize' := endless_of_notMem hsize
  unfold Member.directoryRecord
  simp only [List.flatten_cons]
  refine (endless_four _ _ _ (by decide)).append ?_
  refine ((endless_of_notMem hmade).append (endless_of_notMem hneeded)).append ?_
  refine hzero.append (hzero.append ((endless_of_notMem hmodified).append ?_))
  refine (endless_of_notMem hcrc).append (hsize'.append (hsize'.append ?_))
  refine (endless_of_notMem hlength).append (hzero.append (hzero.append ?_))
  refine ((hzero.append hzero).append hattributes).append ((endless_word hstart).append ?_)
  exact (endless_of_notMem hname).append (hnil.append (hnil.append hnil))

theorem endless_records {ms : List Member} (h : ∀ m ∈ ms, 0x50 ∉ m.bytes) :
    Endless (records ms) := by
  induction ms with
  | nil => exact endless_of_notMem List.not_mem_nil
  | cons m ms ih =>
      rw [records, List.flatMap_cons]
      exact (Member.endless_record (h m List.mem_cons_self)).append
        (ih fun k hk => h k (List.mem_cons_of_mem m hk))

theorem endless_directoryRecords {ms : List Member} {start : Nat}
    (h : ∀ m ∈ ms, 0x50 ∉ m.bytes ∧ Endless (ofWord 4 m.attributes))
    (hend : start + (records ms).length < 0x1000000) : Endless (directoryRecords start ms) := by
  induction ms generalizing start with
  | nil => exact endless_of_notMem List.not_mem_nil
  | cons m ms ih =>
      rw [length_records_cons] at hend
      obtain ⟨hbytes, hattributes⟩ := h m List.mem_cons_self
      exact (Member.endless_directoryRecord hbytes hattributes (by omega)).append
        (ih (fun k hk => h k (List.mem_cons_of_mem m hk)) (by omega))

theorem endsOnce {ms : List Member}
    (h : ∀ m ∈ ms, 0x50 ∉ m.bytes ∧ Endless (ofWord 4 m.attributes))
    (hsize : (records ms).length < 0x1000000) : EndsOnce ms := by
  intro i hi
  rw [archive, ← List.append_assoc]
  refine (endless_records fun m hm => (h m hm).1).append
    (endless_directoryRecords h (by omega)) _ i ?_
  rw [List.length_append]
  exact hi

end Zip

namespace ProjectFile

open Bytes Zip

theorem read_of_strayLocator {ms : List Member} (h : Fits ms) (hstray : StrayLocator ms)
    (hnames : ∀ m ∈ ms, 0 ∉ m.nameBytes) (hends : EndsOnce ms) :
    read (archive ms) = .error .notZip := by
  rw [read, entries?_of_strayLocator h hstray hnames hends]
  rfl

/-- A project that is packed alone and one in an inner archive are read alike, and a project at the
top of an archive goes before one inside. An archive with a stray locator is refused. -/
theorem read_packaged {bare nested both : List Member} {t u : String} (hbare : Fits bare)
    (hnested : Fits nested) (hboth : Fits both) (hbare_stray : ¬ StrayLocator bare)
    (hnested_stray : ¬ StrayLocator nested) (hboth_stray : ¬ StrayLocator both)
    (hproject : Holds bare "project.json" t.toUTF8.toList)
    (hinner : Holds nested "scratch.sb3" (archive bare))
    (hno : ∀ m ∈ nested, m.name ≠ "project.json")
    (hown : Holds both "project.json" u.toUTF8.toList) :
    read (archive bare) = orElse .notJson (Json.parse? t) ∧
      read (archive nested) = orElse .notJson (Json.parse? t) ∧
      read (archive both) = orElse .notJson (Json.parse? u) ∧
      ArchiveError.notJson.message? = some "Invalid project.json." ∧
      (∀ ms, Fits ms → StrayLocator ms → (∀ m ∈ ms, 0 ∉ m.nameBytes) → EndsOnce ms →
        read (archive ms) = .error .notZip) ∧
      ArchiveError.notZip.message? = some "Outer archive is not a valid zip file." := by
  refine ⟨read_of_holds hbare hbare_stray hproject, ?_, read_of_holds hboth hboth_stray hown, rfl,
    fun ms => read_of_strayLocator, rfl⟩
  exact read_of_holds_inner hnested hbare hnested_stray hbare_stray hinner hproject hno

/-- A file that was changed last on the first day of 1980. -/
def plain (name : String) (content : Bytes) : Member :=
  ⟨name, content, 20, 20, 0x00210000, 0⟩

/-- A file whose content looks like the end of an archive. -/
def lure : Member :=
  plain "icon" (ofWord 4 0x06054B50 ++ ofWord 4 0x02014B50 ++ List.replicate 18 0)

def bareProject (text : String) : List Member :=
  [plain "project.json" text.toUTF8.toList, lure]

def nestedProject (text : String) : List Member :=
  [plain "scratch.sb3" (archive (bareProject text)), lure]

theorem read_nestedProject :
    read (archive (bareProject "[true]")) = .ok (.array [.bool true]) ∧
      read (archive (nestedProject "[true]")) = .ok (.array [.bool true]) ∧
      read (archive (nestedProject "[true]" ++ bareProject "[true")) = .error .notJson := by
  have hbare : Fits (bareProject "[true]") := ⟨by decide +kernel, by decide, by decide +kernel⟩
  have hnested : Fits (nestedProject "[true]") := ⟨by decide +kernel, by decide, by decide +kernel⟩
  have hboth : Fits (nestedProject "[true]" ++ bareProject "[true") :=
    ⟨by decide +kernel, by decide, by decide +kernel⟩
  have hread := read_packaged hbare hnested hboth (t := "[true]") (u := "[true")
    (not_strayLocator (by decide) (by decide +kernel))
    (not_strayLocator (by decide) (by decide +kernel))
    (not_strayLocator (by decide) (by decide +kernel))
    (by simp [Holds, bareProject, lure, plain]) (by simp [Holds, nestedProject, lure, plain])
    (by simp [nestedProject, lure, plain])
    (by simp [Holds, nestedProject, bareProject, lure, plain])
  have hvalid : Json.parse? "[true]" = some (.array [.bool true]) := by rfl
  have hinvalid : Json.parse? "[true" = none := by rfl
  rw [hvalid, hinvalid] at hread
  exact ⟨hread.1, hread.2.1, hread.2.2.1⟩

def letter (n : Nat) : Char :=
  Char.ofNat (97 + n % 26)

/-- The last digits of a number to base 26, as letters and the last one first. -/
def letters : (length : Nat) → Nat → List Char
  | 0, _ => []
  | length + 1, n => letter n :: letters length (n / 26)

theorem letter_isLower (n : Nat) : (letter n).isLower = true := by
  have hall : ∀ k < 26, (Char.ofNat (97 + k)).isLower = true := by decide
  exact hall (n % 26) (Nat.mod_lt n (by decide))

theorem letter_inj {m n : Nat} (h : letter m = letter n) : m % 26 = n % 26 := by
  have hall : ∀ j < 26, ∀ k < 26, Char.ofNat (97 + j) = Char.ofNat (97 + k) → j = k := by decide
  exact hall _ (Nat.mod_lt m (by decide)) _ (Nat.mod_lt n (by decide)) h

theorem utf8EncodeChar_letter (n : Nat) :
    String.utf8EncodeChar (letter n) = [UInt8.ofNat (97 + n % 26)] := by
  have hall : ∀ k < 26, String.utf8EncodeChar (Char.ofNat (97 + k)) = [UInt8.ofNat (97 + k)] := by
    decide
  exact hall (n % 26) (Nat.mod_lt n (by decide))

theorem isLower_of_mem_letters {length n : Nat} {c : Char} (h : c ∈ letters length n) :
    c.isLower = true := by
  induction length generalizing n with
  | zero => cases h
  | succ length ih =>
      rcases List.mem_cons.mp h with rfl | hrest
      · exact letter_isLower n
      · exact ih hrest

theorem letters_inj {length m n : Nat} (hm : m < 26 ^ length) (hn : n < 26 ^ length)
    (h : letters length m = letters length n) : m = n := by
  induction length generalizing m n with
  | zero =>
      rw [Nat.pow_zero] at hm hn
      omega
  | succ length ih =>
      obtain ⟨hfirst, hrest⟩ := List.cons.inj h
      rw [Nat.pow_succ] at hm hn
      have hdigit := letter_inj hfirst
      have hdiv : m / 26 = n / 26 :=
        ih (Nat.div_lt_of_lt_mul (by omega)) (Nat.div_lt_of_lt_mul (by omega)) hrest
      omega

theorem length_letters (length n : Nat) : (letters length n).length = length := by
  induction length generalizing n with
  | zero => rfl
  | succ length ih => rw [letters, List.length_cons, ih]

/-- A file with a name of four letters. -/
def extra (n : Nat) : Member :=
  plain (String.ofList (letters 4 n)) []

theorem nameBytes_extra (n : Nat) :
    (extra n).nameBytes = [n, n / 26, n / 26 / 26, n / 26 / 26 / 26].map
      fun k => UInt8.ofNat (97 + k % 26) := by
  change (String.ofList (letters 4 n)).toUTF8.toList = _
  rw [toList_eq_data]
  change (String.ofList (letters 4 n)).toByteArray.data.toList = _
  rw [String.toByteArray_ofList, List.utf8Encode, List.toList_data_toByteArray]
  simp only [letters, List.flatMap_cons, List.flatMap_nil, utf8EncodeChar_letter]
  rfl

theorem length_nameBytes_extra (n : Nat) : (extra n).nameBytes.length = 4 := by
  rw [nameBytes_extra]
  rfl

theorem le_of_mem_nameBytes_extra {n : Nat} {b : UInt8} (h : b ∈ (extra n).nameBytes) : 97 ≤ b := by
  rw [nameBytes_extra] at h
  obtain ⟨k, -, rfl⟩ := List.mem_map.mp h
  have hall : ∀ k < 26, 97 ≤ UInt8.ofNat (97 + k) := by decide
  exact hall (k % 26) (Nat.mod_lt k (by decide))

def sham : Member :=
  ⟨"abcdefghijkl", [], 20, 20, 0x00210000, 0x07064B50⟩

/-- A project among so many other files. -/
def crowd (count : Nat) : List Member :=
  plain "project.json" "[true]".toUTF8.toList :: ((List.range count).map extra ++ [sham])

theorem length_crowd (count : Nat) : (crowd count).length = count + 2 := by
  simp [crowd]

theorem mem_crowd {count : Nat} {m : Member} (h : m ∈ crowd count) :
    m = plain "project.json" "[true]".toUTF8.toList ∨ m = sham ∨ ∃ n < count, m = extra n := by
  rw [crowd, List.mem_cons, List.mem_append, List.mem_map, List.mem_singleton] at h
  rcases h with h | ⟨n, hn, rfl⟩ | h
  · exact .inl h
  · exact .inr (.inr ⟨n, List.mem_range.mp hn, rfl⟩)
  · exact .inr (.inl h)

theorem length_records_extra (count : Nat) :
    (records ((List.range count).map extra)).length = 34 * count := by
  induction count with
  | zero => rfl
  | succ count ih =>
      have hlast : (records [extra count]).length = 34 := by
        rw [length_records_cons, Member.length_record, length_nameBytes_extra]
        rfl
      rw [List.range_succ, List.map_append, records_append, List.length_append, ih,
        List.map_singleton, hlast, Nat.mul_succ]

theorem length_records_crowd (count : Nat) :
    (records (crowd count)).length = 48 + (34 * count + 42) := by
  have hfirst : (plain "project.json" "[true]".toUTF8.toList).record.length = 48 := by
    decide +kernel
  have hlast : (records [sham]).length = 42 := by decide +kernel
  rw [crowd, length_records_cons, records_append, List.length_append, length_records_extra, hfirst,
    hlast]

theorem bytes_crowd {count : Nat} {m : Member} (h : m ∈ crowd count) :
    0x50 ∉ m.bytes ∧ 0 ∉ m.nameBytes ∧ m.nameBytes.length < 0x10000 ∧
      Endless (ofWord 4 m.attributes) := by
  rcases mem_crowd h with rfl | rfl | ⟨n, -, rfl⟩
  · exact ⟨by decide +kernel, by decide +kernel, by decide +kernel, endless_word (by decide)⟩
  · exact ⟨by decide +kernel, by decide +kernel, by decide +kernel, endless_four _ _ _ (by decide)⟩
  · have hsmall : ∀ b < 97, b ∉ (extra n).nameBytes := fun b hb hmem =>
      absurd (le_of_mem_nameBytes_extra hmem) (UInt8.not_le.mpr hb)
    refine ⟨?_, hsmall 0 (by decide), ?_, endless_word (n := 0) (by decide)⟩
    · have hrest : (0x50 : UInt8) ∉ ofWord 2 20 ++ ofWord 2 20 ++ ofWord 4 0x00210000 ++
          ofWord 4 (Bytes.crc32 []) ++ ofWord 4 0 ++ ofWord 2 4 := by decide
      rw [Member.bytes, length_nameBytes_extra]
      simp only [List.mem_append, not_or] at hrest ⊢
      exact ⟨⟨hrest, hsmall 0x50 (by decide)⟩, List.not_mem_nil⟩
    · rw [length_nameBytes_extra]
      decide

theorem name_extra_ne {n : Nat} {name : String} (h : name.toList.length ≠ 4) :
    (extra n).name ≠ name := by
  rintro rfl
  refine h ?_
  change (String.ofList (letters 4 n)).toList.length = 4
  rw [String.toList_ofList, length_letters]

theorem nodup_crowd {count : Nat} (h : count ≤ 26 ^ 4) :
    ((crowd count).map Member.name).Nodup := by
  have hmiddle : ((List.range count).map fun n => (extra n).name).Nodup := by
    refine List.Nodup.map_on ?_ List.nodup_range
    intro m hm n hn hname
    rw [List.mem_range] at hm hn
    exact letters_inj (by omega) (by omega) (String.ofList_inj.mp hname)
  rw [crowd, List.map_cons, List.map_append, List.map_map, List.nodup_cons, List.nodup_append]
  refine ⟨?_, hmiddle, by simp, ?_⟩
  · simp only [List.mem_append, List.mem_map, not_or, not_exists, not_and]
    refine ⟨fun n _ => name_extra_ne (by decide), ?_⟩
    rintro m hm
    rw [List.mem_singleton.mp hm]
    decide
  · intro name hname other hother
    obtain ⟨n, -, rfl⟩ := List.mem_map.mp hname
    obtain ⟨m, hm, rfl⟩ := List.mem_map.mp hother
    rw [List.mem_singleton.mp hm]
    exact name_extra_ne (by decide)

/-- A project that is not found in an archive within all limits of the format. -/
theorem read_crowd :
    Fits (crowd 65533) ∧ Holds (crowd 65533) "project.json" "[true]".toUTF8.toList ∧
      ((crowd 65533).map Member.name).Nodup ∧
      (∀ m ∈ crowd 65533, m.name = "project.json" ∨ ∀ c ∈ m.name.toList, c.isLower = true) ∧
      Json.parse? "[true]" = some (.array [.bool true]) ∧
      read (archive (crowd 65533)) = .error .notZip := by
  have hsize := length_records_crowd 65533
  have hstray : StrayLocator (crowd 65533) := by
    rw [crowd, ← List.cons_append]
    refine strayLocator_of_attributes ?_ rfl (by decide +kernel)
    rw [List.length_cons, List.length_map, List.length_range]
  have hfits : Fits (crowd 65533) := by
    refine ⟨fun m hm => (bytes_crowd hm).2.2.1, ?_, by omega⟩
    rw [length_crowd]
    decide
  refine ⟨hfits, ⟨⟨_, List.mem_cons_self, rfl⟩, ?_⟩, nodup_crowd (by decide), ?_, by rfl, ?_⟩
  · intro m hm hname
    rcases mem_crowd hm with rfl | rfl | ⟨n, -, rfl⟩
    · rfl
    · exact absurd hname (by decide)
    · exact absurd hname (name_extra_ne (by decide))
  · intro m hm
    rcases mem_crowd hm with rfl | rfl | ⟨n, -, rfl⟩
    · exact .inl rfl
    · exact .inr (List.all_eq_true.mp rfl)
    · refine .inr fun c hc => ?_
      rw [show (extra n).name = String.ofList (letters 4 n) from rfl, String.toList_ofList] at hc
      exact isLower_of_mem_letters hc
  · refine read_of_strayLocator hfits hstray (fun m hm => (bytes_crowd hm).2.1) ?_
    exact endsOnce (fun m hm => ⟨(bytes_crowd hm).1, (bytes_crowd hm).2.2.2⟩) (by omega)

end ProjectFile

end WordBlocks
