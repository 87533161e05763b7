import Mathlib.Algebra.Group.Nat.Defs
import WordBlocks.Archive.ProjectFile

/-!
Archives whose members are stored as they are. `Zip.archive` lays such an archive out, and reading
it gives its members back, whatever they contain, signatures of the format included
(`entries?_archive`). A project that is packed alone and a project in an inner archive are read as
the same project (`read_of_holds`, `read_of_holds_inner`).
-/

namespace WordBlocks

namespace Bytes

/-- The bytes of a number, least significant byte first. -/
def ofWord : (width : Nat) → Nat → Bytes
  | 0, _ => []
  | width + 1, n => UInt8.ofNat n :: ofWord width (n / 256)

@[simp] theorem length_ofWord (width n : Nat) : (ofWord width n).length = width := by
  induction width generalizing n with
  | zero => rfl
  | succ width ih => rw [ofWord, List.length_cons, ih]

theorem littleEndian_ofWord {width n : Nat} (h : n < 256 ^ width) :
    littleEndian (ofWord width n) = n := by
  induction width generalizing n with
  | zero =>
      obtain rfl : n = 0 := by simpa using h
      rfl
  | succ width ih =>
      have hrest : n / 256 < 256 ^ width := by
        rw [Nat.div_lt_iff_lt_mul (by decide)]
        exact h
      have hbyte : (UInt8.ofNat n).toNat = n % 256 := UInt8.toNat_ofNat
      rw [ofWord, littleEndian, ih hrest, hbyte]
      exact Nat.mod_add_div n 256

theorem ofWord_littleEndian (bs : Bytes) : ofWord bs.length (littleEndian bs) = bs := by
  induction bs with
  | nil => rfl
  | cons b bs ih =>
      have hbyte : UInt8.ofNat (b.toNat + 256 * littleEndian bs) = b := by
        rw [← UInt8.toNat_inj, UInt8.toNat_ofNat', Nat.add_mul_mod_self_left]
        exact Nat.mod_eq_of_lt b.toNat_lt
      have hrest : (b.toNat + 256 * littleEndian bs) / 256 = littleEndian bs := by
        have hlt := b.toNat_lt
        omega
      rw [List.length_cons, littleEndian, ofWord, hbyte, hrest, ih]

/-- A reader takes some bytes for a value, whatever comes after them. -/
def Reads {α : Type} (reader : Reader α) (bs : Bytes) (a : α) : Prop :=
  ∀ rest, reader (bs ++ rest) = some (a, rest)

variable {α β : Type}

theorem Reads.pure (a : α) : Reads (Pure.pure a) [] a := by
  intro rest
  rfl

theorem Reads.bind {reader : Reader α} {next : α → Reader β} {bs cs : Bytes} {a : α} {b : β}
    (hreader : Reads reader bs a) (hnext : Reads (next a) cs b) :
    Reads (reader >>= next) (bs ++ cs) b := by
  intro rest
  change (reader (bs ++ cs ++ rest)).bind (fun p => next p.1 p.2) = _
  rw [List.append_assoc, hreader]
  exact hnext rest

theorem Reads.map {reader : Reader α} {bs : Bytes} {a : α} (h : Reads reader bs a) (f : α → β) :
    Reads (f <$> reader) bs (f a) := by
  intro rest
  change (reader (bs ++ rest)).bind (fun p => some (f p.1, p.2)) = _
  rw [h]
  rfl

theorem reads_chunk (bs : Bytes) {n : Nat} (h : bs.length = n) : Reads (chunk n) bs bs := by
  intro rest
  subst h
  simp [chunk]

theorem reads_littleEndian (bs : Bytes) {n : Nat} (h : bs.length = n) :
    Reads (word n) bs (littleEndian bs) :=
  (reads_chunk bs h).map littleEndian

theorem reads_word {width n : Nat} (h : n < 256 ^ width) :
    Reads (word width) (ofWord width n) n := by
  have hread := reads_littleEndian (ofWord width n) (length_ofWord width n)
  rw [littleEndian_ofWord h] at hread
  exact hread

theorem reads_signature {n : Nat} (h : n < 256 ^ 4) : Reads (signature n) (ofWord 4 n) () := by
  have hbind : Reads (signature n) (ofWord 4 n ++ []) () := by
    refine (reads_word h).bind ?_
    rw [if_pos rfl]
    exact .pure ()
  rw [List.append_nil] at hbind
  exact hbind

theorem eq_of_signature {n : Nat} {bs rest : Bytes} (h : signature n bs = some ((), rest)) :
    bs = ofWord 4 n ++ rest := by
  change (word 4 bs).bind (fun p => (if p.1 = n then Pure.pure () else failure : Reader Unit) p.2) =
    _ at h
  obtain ⟨⟨m, after⟩, hword, hif⟩ := Option.bind_eq_some_iff.mp h
  change (chunk 4 bs).bind (fun p => some (littleEndian p.1, p.2)) = _ at hword
  obtain ⟨⟨front, tail⟩, hchunk, hread⟩ := Option.bind_eq_some_iff.mp hword
  cases hread
  simp only [chunk, Option.ite_none_right_eq_some] at hchunk
  obtain ⟨hlength, hfront⟩ := hchunk
  cases hfront
  dsimp only at hif
  split at hif
  · rename_i hn
    cases hif
    have hword := ofWord_littleEndian (bs.take 4)
    rw [hlength, hn] at hword
    rw [hword, List.take_append_drop]
  · cases hif

/-- A reader takes at least so many bytes when it succeeds. -/
def Consumes (reader : Reader α) (n : Nat) : Prop :=
  ∀ bs a rest, reader bs = some (a, rest) → n + rest.length ≤ bs.length

theorem Consumes.pure (a : α) : Consumes (Pure.pure a) 0 := by
  intro bs b rest h
  cases h
  omega

theorem Consumes.mono {reader : Reader α} {m n : Nat} (h : Consumes reader m) (hn : n ≤ m) :
    Consumes reader n := by
  intro bs a rest hreader
  have hm := h bs a rest hreader
  omega

theorem Consumes.bind {reader : Reader α} {next : α → Reader β} {m n : Nat}
    (hreader : Consumes reader m) (hnext : ∀ a, Consumes (next a) (n - m)) :
    Consumes (reader >>= next) n := by
  intro bs b rest h
  change (reader bs).bind (fun p => next p.1 p.2) = some (b, rest) at h
  obtain ⟨⟨a, after⟩, hfirst, hsecond⟩ := Option.bind_eq_some_iff.mp h
  have hm := hreader bs a after hfirst
  have hn := hnext a after b rest hsecond
  omega

theorem consumes_chunk (n : Nat) : Consumes (chunk n) n := by
  intro bs a rest h
  simp only [chunk, Option.ite_none_right_eq_some, List.length_take] at h
  obtain ⟨hlength, hread⟩ := h
  cases hread
  rw [List.length_drop]
  omega

theorem consumes_word (width : Nat) : Consumes (word width) width := by
  change Consumes (chunk width >>= fun bs => Pure.pure (littleEndian bs)) width
  refine (consumes_chunk width).bind fun bs => ?_
  rw [Nat.sub_self]
  exact .pure _

theorem consumes_signature (n : Nat) : Consumes (signature n) 4 := by
  refine (consumes_word 4).bind fun m => ?_
  split
  · exact .pure ()
  · intro bs a rest h
    cases h

theorem toList_loop_eq (bs : ByteArray) (i : Nat) (r : List UInt8) :
    ByteArray.toList.loop bs i r = r.reverse ++ bs.data.toList.drop i := by
  fun_induction ByteArray.toList.loop bs i r with
  | case1 i r h ih =>
      have hi : i < bs.data.toList.length := h
      have hget : bs.get! i = bs.data.toList[i] := getElem!_pos bs.data i h
      rw [ih, List.drop_eq_getElem_cons hi, hget]
      simp
  | case2 i r h =>
      have hi : bs.data.toList.length ≤ i := Nat.le_of_not_lt h
      simp [List.drop_of_length_le hi]

theorem toList_eq_data (bs : ByteArray) : bs.toList = bs.data.toList := by
  rw [ByteArray.toList, toList_loop_eq]
  rfl

theorem utf8?_toUTF8 (t : String) : utf8? t.toUTF8.toList = some t := by
  simp only [utf8?, toList_eq_data, Array.toArray_toList, String.fromUTF8?]
  exact dif_pos t.isValidUTF8

theorem toUTF8_toList_inj {s t : String} : s.toUTF8.toList = t.toUTF8.toList ↔ s = t := by
  rw [toList_eq_data, toList_eq_data, Array.toList_inj, ← ByteArray.ext_iff]
  exact String.toByteArray_inj

end Bytes

namespace Zip

open Bytes

/-- A file that an archive holds as it is. -/
structure Member where
  name : String
  content : Bytes
  madeBy : Nat
  needed : Nat
  /-- When the file was changed last. -/
  modified : Nat
  attributes : Nat

namespace Member

def nameBytes (m : Member) : Bytes :=
  m.name.toUTF8.toList

/-- The header before the name and the content of a member. -/
def header (m : Member) : Bytes :=
  [ofWord 4 0x04034B50,
    ofWord 2 m.needed ++ ofWord 2 0 ++ ofWord 2 0 ++ ofWord 4 m.modified ++
      ofWord 4 (Bytes.crc32 m.content) ++ ofWord 4 m.content.length ++ ofWord 4 m.content.length,
    ofWord 2 m.nameBytes.length, ofWord 2 0].flatten

/-- A member with its header. -/
def record (m : Member) : Bytes :=
  m.header ++ m.nameBytes ++ m.content

/-- The record of the directory for a member that starts at a position. -/
def directoryRecord (m : Member) (start : Nat) : Bytes :=
  [ofWord 4 0x02014B50, ofWord 2 m.madeBy ++ ofWord 2 m.needed, ofWord 2 0, ofWord 2 0,
    ofWord 4 m.modified,
    ofWord 4 (Bytes.crc32 m.content), ofWord 4 m.content.length, ofWord 4 m.content.length,
    ofWord 2 m.nameBytes.length, ofWord 2 0, ofWord 2 0,
    ofWord 2 0 ++ ofWord 2 0 ++ ofWord 4 m.attributes, ofWord 4 start, m.nameBytes, [], []].flatten

/-- What the directory says about a member. -/
def entry (m : Member) (start : Nat) : Entry where
  name := m.nameBytes
  comment := []
  encrypted := false
  sealed := false
  method := 0
  crc := Bytes.crc32 m.content
  size := m.content.length
  compressedSize := m.content.length
  start := start

end Member

/-- The members of an archive, one after the other. -/
def records (ms : List Member) : Bytes :=
  ms.flatMap Member.record

/-- The directory for members of which the first starts at a position. -/
def directoryRecords : Nat → List Member → Bytes
  | _, [] => []
  | start, m :: ms => m.directoryRecord start ++ directoryRecords (start + m.record.length) ms

/-- The entries of the directory for members of which the first starts at a position. -/
def memberEntries : Nat → List Member → List Entry
  | _, [] => []
  | start, m :: ms => m.entry start :: memberEntries (start + m.record.length) ms

/-- The record at the end of an archive without a comment. -/
def endBytes (ms : List Member) : Bytes :=
  [ofWord 4 0x06054B50, ofWord 2 0, ofWord 2 0, ofWord 2 ms.length, ofWord 2 ms.length,
    ofWord 4 (directoryRecords 0 ms).length, ofWord 4 (records ms).length, ofWord 2 0].flatten

/-- The archive that holds some members. -/
def archive (ms : List Member) : Bytes :=
  records ms ++ (directoryRecords 0 ms ++ endBytes ms)

/-- The position of the end record. -/
def endPosition (ms : List Member) : Nat :=
  (records ms).length + (directoryRecords 0 ms).length

/-- Members whose numbers fit the fields of an archive. -/
structure Fits (ms : List Member) : Prop where
  names : ∀ m ∈ ms, m.nameBytes.length < 0x10000
  count : ms.length < 0x10000
  size : (records ms).length < 0x100000000

/-- A directory that ends with what seems to be a locator. The greatest number of members and the
greatest position of the directory stand for numbers of 64 bits if a locator comes before the end
record. -/
structure StrayLocator (ms : List Member) : Prop where
  wide : ms.length = 0xFFFF ∨ (records ms).length = 0xFFFFFFFF
  signed : ∃ front back, directoryRecords 0 ms = front ++ (ofWord 4 0x07064B50 ++ back) ∧
    back.length = 16

theorem not_strayLocator {ms : List Member} (hcount : ms.length < 0xFFFF)
    (hsize : (records ms).length < 0xFFFFFFFF) : ¬ StrayLocator ms := by
  intro h
  have hwide := h.wide
  omega

theorem Member.length_header (m : Member) : m.header.length = 30 := by
  simp [Member.header]

theorem Member.length_record (m : Member) :
    m.record.length = 30 + m.nameBytes.length + m.content.length := by
  rw [Member.record, List.length_append, List.length_append, m.length_header]

theorem length_records_cons (m : Member) (ms : List Member) :
    (records (m :: ms)).length = m.record.length + (records ms).length := by
  rw [records, List.flatMap_cons, List.length_append]
  rfl

theorem Member.length_directoryRecord (m : Member) (start : Nat) :
    (m.directoryRecord start).length = 46 + m.nameBytes.length := by
  simp [Member.directoryRecord]
  omega

theorem length_endBytes (ms : List Member) : (endBytes ms).length = 22 := by
  simp [endBytes]

theorem crc32_lt (bs : Bytes) : Bytes.crc32 bs < 256 ^ 4 :=
  UInt32.toNat_lt _

theorem reads_directoryEntry {m : Member} {start : Nat} (hname : m.nameBytes.length < 0x10000)
    (hsize : m.content.length < 0x100000000) (hstart : start < 0x100000000) :
    Reads directoryEntry (m.directoryRecord start) (m.entry start) := by
  unfold directoryEntry Member.directoryRecord
  simp only [List.flatten_cons]
  refine (reads_signature (by decide)).bind ?_
  refine (reads_chunk _ (by simp)).bind ?_
  refine (reads_word (by decide)).bind ?_
  refine (reads_word (by decide)).bind ?_
  refine (reads_chunk _ (by simp)).bind ?_
  refine (reads_word (crc32_lt _)).bind ?_
  refine (reads_word hsize).bind ?_
  refine (reads_word hsize).bind ?_
  refine (reads_word hname).bind ?_
  refine (reads_word (by decide)).bind ?_
  refine (reads_word (by decide)).bind ?_
  refine (reads_chunk _ (by simp)).bind ?_
  refine (reads_word hstart).bind ?_
  refine (reads_chunk _ rfl).bind ?_
  refine (reads_chunk [] rfl).bind ?_
  refine (reads_chunk [] rfl).bind ?_
  -- There are no extra fields to change the entry, and its method is that of stored data.
  intro rest
  rfl

theorem reads_directoryEntries {ms : List Member} {start limit : Nat}
    (hnames : ∀ m ∈ ms, m.nameBytes.length < 0x10000) (hend : start + (records ms).length ≤ limit)
    (hlimit : limit < 0x100000000) (count : Nat) :
    Reads (directoryEntries ⟨limit, 0, count⟩ ms.length) (directoryRecords start ms)
      (memberEntries start ms) := by
  induction ms generalizing start with
  | nil => exact .pure []
  | cons m ms ih =>
      have hlength := m.length_record
      rw [length_records_cons] at hend
      have hm := hnames m List.mem_cons_self
      have hentry : Reads directoryEntry (m.directoryRecord start) (m.entry start) :=
        reads_directoryEntry hm (by omega) (by omega)
      have hbefore : ¬ limit ≤ (m.entry start).start + 0 := by
        change ¬ limit ≤ start
        omega
      refine hentry.bind ?_
      dsimp only
      rw [if_neg hbefore]
      have hrest : Reads (directoryEntries ⟨limit, 0, count⟩ ms.length)
          (directoryRecords (start + m.record.length) ms)
          (memberEntries (start + m.record.length) ms) :=
        ih (fun k hk => hnames k (List.mem_cons_of_mem m hk)) (by omega)
      exact hrest.map (m.entry start :: ·)

theorem reads_endRecord {ms : List Member} (h : Fits ms) :
    Reads endRecord (endBytes ms) ⟨0, 0, ms.length, ms.length, (records ms).length⟩ := by
  unfold endRecord endBytes
  simp only [List.flatten_cons]
  refine (reads_signature (by decide)).bind ?_
  refine (reads_word (by decide)).bind ?_
  refine (reads_word (by decide)).bind ?_
  refine (reads_word h.count).bind ?_
  refine (reads_word h.count).bind ?_
  refine (reads_chunk _ (by simp)).bind ?_
  refine (reads_word h.size).bind ?_
  refine (reads_word (by decide)).bind ?_
  exact (reads_chunk [] rfl).bind (.pure _)

theorem consumes_endRecord : Consumes endRecord 22 := by
  refine (consumes_signature _).bind fun _ => ?_
  refine (consumes_word 2).bind fun _ => ?_
  refine (consumes_word 2).bind fun _ => ?_
  refine (consumes_word 2).bind fun _ => ?_
  refine (consumes_word 2).bind fun _ => ?_
  refine (consumes_chunk 4).bind fun _ => ?_
  refine (consumes_word 4).bind fun _ => ?_
  refine (consumes_word 2).bind fun length => ?_
  exact ((consumes_chunk length).mono (Nat.zero_le _)).bind fun _ => .pure _

theorem reads_localHeaderSize {m : Member} (hname : m.nameBytes.length < 0x10000) :
    Reads localHeaderSize m.header (30 + m.nameBytes.length) := by
  unfold localHeaderSize Member.header
  simp only [List.flatten_cons]
  refine (reads_signature (by decide)).bind ?_
  refine (reads_chunk _ (by simp)).bind ?_
  refine (reads_word hname).bind ?_
  refine (reads_word (by decide)).bind ?_
  exact .pure _

theorem signed_append (n : Nat) (found : List (Nat × Bytes)) (position count : Nat) (bs : Bytes) :
    signed n found position count bs = signed n [] position count bs ++ found := by
  induction count generalizing found position bs with
  | zero => rfl
  | succ count ih =>
      rw [signed, signed, ih]
      conv => rhs; rw [ih]
      split <;> simp

theorem signed_add (n : Nat) (found : List (Nat × Bytes)) (position first count : Nat)
    (bs : Bytes) :
    signed n found position (first + count) bs =
      signed n (signed n found position first bs) (position + first) count (bs.drop first) := by
  induction first generalizing found position bs with
  | zero => simp [signed]
  | succ first ih =>
      rw [Nat.add_right_comm, signed, signed, ih, Nat.add_right_comm position, Nat.add_assoc,
        List.drop_tail]

theorem signed_succ {n : Nat} {bs : Bytes} (h : (signature n bs).isSome)
    (found : List (Nat × Bytes)) (position count : Nat) :
    signed n found position (count + 1) bs =
      signed n [] (position + 1) count bs.tail ++ (position, bs) :: found := by
  rw [signed, if_pos h]
  exact signed_append n _ _ _ _

theorem length_le_of_mem_signed {n position count : Nat} {bs : Bytes} {r : Nat × Bytes}
    (h : r ∈ signed n [] position count bs) : r.2.length ≤ bs.length := by
  induction count generalizing position bs with
  | zero => cases h
  | succ count ih =>
      rw [signed, signed_append] at h
      rcases List.mem_append.mp h with hrest | hhere
      · have hle := ih hrest
        rw [List.length_tail] at hle
        omega
      · split at hhere
        · obtain rfl := List.mem_singleton.mp hhere
          exact Nat.le_refl _
        · cases hhere

theorem entriesFrom?_eq_none {file tail : Bytes} (position : Nat) (h : tail.length < 22) :
    entriesFrom? file position tail = none := by
  have hend : endRecord tail = none := by
    rw [Option.eq_none_iff_forall_ne_some]
    rintro ⟨r, rest⟩ hread
    have hle := consumes_endRecord tail r rest hread
    omega
  simp [entriesFrom?, hend]

theorem length_archive (ms : List Member) : (archive ms).length = endPosition ms + 22 := by
  rw [archive, List.length_append, List.length_append, length_endBytes, endPosition, Nat.add_assoc]

theorem drop_endPosition (ms : List Member) : (archive ms).drop (endPosition ms) = endBytes ms := by
  rw [archive, ← List.append_assoc, endPosition, ← List.length_append]
  exact List.drop_left

theorem drop_records (ms : List Member) :
    (archive ms).drop (records ms).length = directoryRecords 0 ms ++ endBytes ms :=
  List.drop_left

/-- Among the end records that a file seems to have, the one at the end comes first, since what is
left after its start is too short for another. -/
theorem entries?_archive_eq (ms : List Member) :
    entries? (archive ms) =
      (entriesFrom? (archive ms) (endPosition ms) (endBytes ms)).or
        ((signed 0x06054B50 [] 0 (endPosition ms) (archive ms)).findSome? fun r =>
          entriesFrom? (archive ms) r.1 r.2) := by
  have hsigned : (signature 0x06054B50 (endBytes ms)).isSome := by
    rw [endBytes, List.flatten_cons, reads_signature (by decide)]
    rfl
  have hlater : ∀ r ∈ signed 0x06054B50 [] (0 + endPosition ms + 1) 21 (endBytes ms).tail,
      entriesFrom? (archive ms) r.1 r.2 = none := by
    intro r hr
    have hle := length_le_of_mem_signed hr
    rw [List.length_tail, length_endBytes] at hle
    exact entriesFrom?_eq_none r.1 (by omega)
  rw [entries?, length_archive, signed_add, drop_endPosition, signed_succ hsigned,
    List.findSome?_append, List.findSome?_eq_none_iff.mpr hlater, Option.none_or,
    List.findSome?_cons, Nat.zero_add]
  cases entriesFrom? (archive ms) (endPosition ms) (endBytes ms) <;> rfl

theorem le_length_directoryRecords {ms : List Member} (h : 0 < endPosition ms) :
    46 ≤ (directoryRecords 0 ms).length := by
  cases ms with
  | nil => cases h
  | cons m ms =>
      rw [directoryRecords, List.length_append, m.length_directoryRecord]
      omega

theorem drop_locator {ms : List Member} (h : 0 < endPosition ms) :
    (archive ms).drop (endPosition ms - 20) =
      (directoryRecords 0 ms).drop ((directoryRecords 0 ms).length - 20) ++ endBytes ms := by
  have hlength := le_length_directoryRecords h
  have hsplit : endPosition ms - 20 =
      (records ms).length + ((directoryRecords 0 ms).length - 20) := by
    rw [endPosition]
    omega
  rw [hsplit, ← List.drop_drop, drop_records, List.drop_append_of_le_length (by omega)]

theorem EndRecord.locator?_archive {ms : List Member} (h : ¬ StrayLocator ms) :
    EndRecord.locator? (archive ms) (endPosition ms)
      ⟨0, 0, ms.length, ms.length, (records ms).length⟩ = none := by
  unfold EndRecord.locator?
  split
  · rename_i hwide
    rw [Option.map_eq_none_iff, Option.eq_none_iff_forall_ne_some]
    rintro ⟨l, rest⟩ hread
    refine h ⟨hwide.1, ?_⟩
    have hposition : 0 < endPosition ms := by omega
    have hlength := le_length_directoryRecords hposition
    rw [drop_locator hposition] at hread
    obtain ⟨⟨⟨⟩, after⟩, hsigned, -⟩ := Option.bind_eq_some_iff.mp hread
    -- The signature does not reach into the end record.
    have htake := congrArg (List.take 4) (eq_of_signature hsigned)
    rw [List.take_append_of_le_length (by rw [List.length_drop]; omega),
      List.take_left' (length_ofWord 4 _)] at htake
    refine ⟨(directoryRecords 0 ms).take ((directoryRecords 0 ms).length - 20),
      ((directoryRecords 0 ms).drop ((directoryRecords 0 ms).length - 20)).drop 4, ?_, ?_⟩
    · rw [← htake, List.take_append_drop, List.take_append_drop]
    · rw [List.length_drop, List.length_drop]
      omega
  · rfl

theorem EndRecord.directory?_archive (ms : List Member) :
    EndRecord.directory? (archive ms) (endPosition ms)
      ⟨0, 0, ms.length, ms.length, (records ms).length⟩ =
        some ⟨(records ms).length, 0, ms.length⟩ := by
  cases ms with
  | nil => rfl
  | cons m ms =>
      have hsigned : (signature 0x02014B50 (directoryRecords 0 (m :: ms) ++
          endBytes (m :: ms))).isSome := by
        rw [directoryRecords, Member.directoryRecord, List.flatten_cons, List.append_assoc,
          List.append_assoc, reads_signature (by decide)]
        rfl
      have hlength := m.length_directoryRecord 0
      have hcount : ∃ k, endPosition (m :: ms) - (records (m :: ms)).length - 3 = k + 1 := by
        refine ⟨endPosition (m :: ms) - (records (m :: ms)).length - 4, ?_⟩
        rw [endPosition, directoryRecords, List.length_append, hlength]
        omega
      obtain ⟨k, hk⟩ := hcount
      have hhead : (signedBetween 0x02014B50 (archive (m :: ms)) (records (m :: ms)).length
          (endPosition (m :: ms))).head? = some ((records (m :: ms)).length,
            directoryRecords 0 (m :: ms) ++ endBytes (m :: ms)) := by
        rw [signedBetween, hk, drop_records, signed_succ hsigned, List.reverse_append,
          List.reverse_singleton]
        rfl
      simp [EndRecord.directory?, hhead]

theorem entries?_archive {ms : List Member} (h : Fits ms) (hlocator : ¬ StrayLocator ms) :
    entries? (archive ms) = some (memberEntries 0 ms) := by
  have hend := reads_endRecord h []
  rw [List.append_nil] at hend
  have hentries := reads_directoryEntries h.names (Nat.le_of_eq (Nat.zero_add _)) h.size
    ms.length (endBytes ms)
  have hown : entriesFrom? (archive ms) (endPosition ms) (endBytes ms) =
      some (memberEntries 0 ms) := by
    simp only [entriesFrom?, hend, EndRecord.locator?_archive hlocator,
      EndRecord.directory?_archive, drop_records, hentries, Option.bind_eq_bind, Option.bind_some]
    rfl
  rw [entries?_archive_eq, hown, Option.some_or]

theorem records_append (before after : List Member) :
    records (before ++ after) = records before ++ records after :=
  List.flatMap_append

theorem mem_memberEntries {ms : List Member} {start : Nat} {e : Entry} :
    e ∈ memberEntries start ms ↔ ∃ before m after,
      ms = before ++ m :: after ∧ e = m.entry (start + (records before).length) := by
  induction ms generalizing start with
  | nil => simp [memberEntries]
  | cons m ms ih =>
      rw [memberEntries, List.mem_cons, ih]
      constructor
      · rintro (rfl | ⟨before, k, after, rfl, rfl⟩)
        · exact ⟨[], m, ms, rfl, rfl⟩
        · refine ⟨m :: before, k, after, rfl, ?_⟩
          rw [length_records_cons, Nat.add_assoc]
      · rintro ⟨before, k, after, hms, rfl⟩
        cases before with
        | nil =>
            cases hms
            exact .inl rfl
        | cons b before =>
            cases hms
            refine .inr ⟨before, k, after, rfl, ?_⟩
            rw [length_records_cons, Nat.add_assoc]

theorem data?_archive {before after : List Member} {m : Member}
    (hname : m.nameBytes.length < 0x10000) :
    data? (archive (before ++ m :: after)) (m.entry (records before).length) = some m.content := by
  obtain ⟨rest, hfile⟩ : ∃ rest, archive (before ++ m :: after) =
      records before ++ (m.header ++ (m.nameBytes ++ (m.content ++ rest))) := by
    refine ⟨records after ++ (directoryRecords 0 (before ++ m :: after) ++
      endBytes (before ++ m :: after)), ?_⟩
    rw [archive, records_append]
    simp only [records, List.flatMap_cons, Member.record, List.append_assoc]
  have hsize : 30 + m.nameBytes.length = (m.header ++ m.nameBytes).length := by
    rw [List.length_append, m.length_header]
  have hheader := reads_localHeaderSize hname (m.nameBytes ++ (m.content ++ rest))
  have hcontent : ((archive (before ++ m :: after)).drop
      ((records before).length + (30 + m.nameBytes.length))).take m.content.length = m.content := by
    rw [hfile, ← List.drop_drop, List.drop_left, hsize, ← List.append_assoc, List.drop_left,
      List.take_left]
  have hread : localHeaderSize ((archive (before ++ m :: after)).drop (records before).length) =
      some (30 + m.nameBytes.length, m.nameBytes ++ (m.content ++ rest)) := by
    rw [hfile, List.drop_left]
    exact hheader
  simp only [data?, Member.entry, hread]
  simp [Entry.isSupported, hcontent]

theorem content?_entry (m : Member) (start : Nat) :
    (m.entry start).content? m.content = some m.content := by
  simp [Entry.content?, Member.entry]

/-- An archive holds a file. Files with its name do not differ in content. -/
def Holds (ms : List Member) (name : String) (content : Bytes) : Prop :=
  (∃ m ∈ ms, m.name = name) ∧ ∀ m ∈ ms, m.name = name → m.content = content

theorem name_eq_iff {m : Member} {start : Nat} {name : String} :
    ((m.entry start).name == name.toUTF8.toList) = true ↔ m.name = name := by
  rw [beq_iff_eq]
  exact toUTF8_toList_inj

theorem find?_memberEntries_eq_none {ms : List Member} {name : String} :
    find? (memberEntries 0 ms) name = none ↔ ∀ m ∈ ms, m.name ≠ name := by
  rw [find?, List.find?_eq_none]
  constructor
  · intro h m hm hname
    obtain ⟨before, after, rfl⟩ := List.append_of_mem hm
    refine h (m.entry (0 + (records before).length)) ?_ (name_eq_iff.mpr hname)
    rw [List.mem_reverse]
    exact mem_memberEntries.mpr ⟨before, m, after, rfl, rfl⟩
  · intro h e he
    obtain ⟨before, m, after, rfl, rfl⟩ := mem_memberEntries.mp (List.mem_reverse.mp he)
    exact fun hname => h m (List.mem_append_right before List.mem_cons_self) (name_eq_iff.mp hname)

theorem exists_find?_memberEntries {ms : List Member} {name : String}
    (h : ∃ m ∈ ms, m.name = name) :
    ∃ before m after, ms = before ++ m :: after ∧ m.name = name ∧
      find? (memberEntries 0 ms) name = some (m.entry (records before).length) := by
  cases hfind : find? (memberEntries 0 ms) name with
  | none =>
      obtain ⟨m, hm, hname⟩ := h
      exact absurd hname (find?_memberEntries_eq_none.mp hfind m hm)
  | some e =>
      have hmem := List.mem_reverse.mp (List.mem_of_find?_eq_some hfind)
      obtain ⟨before, m, after, hms, rfl⟩ := mem_memberEntries.mp hmem
      rw [Nat.zero_add] at hfind ⊢
      rw [find?] at hfind
      have hname := List.find?_some hfind
      exact ⟨before, m, after, hms, name_eq_iff.mp hname, rfl⟩

end Zip

namespace ProjectFile

open Bytes Zip

theorem extract_archive {ms : List Member} {name : String} {content : Bytes} (h : Fits ms)
    (hholds : Holds ms name content) (missing : ArchiveError) :
    extract (archive ms) (memberEntries 0 ms) name missing = .ok content := by
  obtain ⟨before, m, after, rfl, hname, hfind⟩ := exists_find?_memberEntries hholds.1
  have hm : m ∈ before ++ m :: after := List.mem_append_right before List.mem_cons_self
  rw [extract, hfind, ← hholds.2 m hm hname]
  change (orElse missing (data? _ (m.entry _))).bind
    (fun data => orElse ArchiveError.unreadable ((m.entry _).content? data)) = _
  rw [data?_archive (h.names m hm)]
  change orElse ArchiveError.unreadable ((m.entry _).content? m.content) = _
  rw [content?_entry]
  rfl

theorem readProject_archive {ms : List Member} {t : String} (h : Fits ms)
    (hholds : Holds ms "project.json" t.toUTF8.toList) :
    readProject (archive ms) (memberEntries 0 ms) = orElse .notJson (Json.parse? t) := by
  rw [readProject, extract_archive h hholds]
  change (orElse ArchiveError.unreadable (utf8? t.toUTF8.toList)).bind
    (fun text => orElse ArchiveError.notJson (Json.parse? text)) = _
  rw [utf8?_toUTF8]
  rfl

theorem read_of_holds {ms : List Member} {t : String} (h : Fits ms)
    (hlocator : ¬ StrayLocator ms) (hholds : Holds ms "project.json" t.toUTF8.toList) :
    read (archive ms) = orElse .notJson (Json.parse? t) := by
  obtain ⟨before, m, after, -, -, hfind⟩ := exists_find?_memberEntries hholds.1
  rw [read, entries?_archive h hlocator]
  change (if (find? (memberEntries 0 ms) "project.json").isSome then
    readProject (archive ms) (memberEntries 0 ms) else _) = _
  rw [hfind, if_pos Option.isSome_some, readProject_archive h hholds]

theorem read_of_holds_inner {outer inner : List Member} {t : String} (houter : Fits outer)
    (hinner : Fits inner) (hlocator : ¬ StrayLocator outer) (hlocator' : ¬ StrayLocator inner)
    (hholds : Holds outer "scratch.sb3" (archive inner))
    (hproject : Holds inner "project.json" t.toUTF8.toList)
    (hno : ∀ m ∈ outer, m.name ≠ "project.json") :
    read (archive outer) = orElse .notJson (Json.parse? t) := by
  rw [read, entries?_archive houter hlocator]
  change (if (find? (memberEntries 0 outer) "project.json").isSome then _ else
    (extract (archive outer) (memberEntries 0 outer) "scratch.sb3" .noInnerArchive).bind _) = _
  rw [find?_memberEntries_eq_none.mpr hno, Option.isSome_none, if_neg Bool.false_ne_true,
    extract_archive houter hholds]
  change (orElse ArchiveError.innerNotZip (entries? (archive inner))).bind _ = _
  rw [entries?_archive hinner hlocator']
  exact readProject_archive hinner hproject

end ProjectFile

end WordBlocks
