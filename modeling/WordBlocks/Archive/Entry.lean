import WordBlocks.Archive.Inflate

/-!
Entries of the directory of a zip archive. An entry may carry extra fields, each with an identifier
and a length. They can widen the sizes and the position of the entry to 64 bits, give its name in
Unicode, or say that its data are encrypted; those of other kinds are skipped. Extra fields that end
too early are ignored from there on, while one that contradicts itself makes the directory
unreadable.
-/

namespace WordBlocks.Zip

/-- An entry of the directory. -/
structure Entry where
  name : Bytes
  comment : Bytes
  encrypted : Bool
  /-- Whether an extra field says that the data are encrypted. -/
  sealed : Bool
  method : Nat
  crc : Nat
  size : Nat
  compressedSize : Nat
  /-- The position of the entry's own header. -/
  start : Nat
deriving DecidableEq, Repr

/-- The value of a 32-bit field whose content stands in an extra field. -/
def widened : Nat := 0xFFFFFFFF

/-- The compression method that stands for encrypted data. -/
def encryptedMethod : Nat := 99

namespace Extra

/-- Why extra fields are not read to their end. -/
inductive Fault where
  /-- The bytes end inside a field. -/
  | tooShort
  /-- A field contradicts itself. -/
  | refused
deriving DecidableEq, Repr

/-- A reader of extra fields. It changes the entry as it goes, and the changes survive a fault. -/
abbrev Reader := ExceptT Fault (StateM (Entry × Bytes))

/-- Reads bytes, as long as there are enough of them. -/
def read {α : Type} (reader : Bytes.Reader α) : Reader α := do
  let (e, bs) ← get
  match reader bs with
  | some (a, rest) =>
    set (e, rest)
    return a
  | none => throw .tooShort

/-- Refuses the field unless a condition holds. -/
def demand (condition : Bool) : Reader Unit :=
  if condition then return () else throw .refused

/-- Changes the entry. -/
def update (f : Entry → Entry) : Reader Unit :=
  modify fun s => (f s.1, s.2)

/-- Reads a 64-bit number if it is there and gives the number of bytes read. -/
def wideWord (present : Bool) (set : Nat → Entry → Entry) : Reader Nat :=
  if present then do
    let n ← read (Bytes.word 8)
    update (set n)
    return 8
  else return 0

/-- Sizes and position as 64-bit numbers. A field of full length has all three, a shorter one those
that the entry leaves open. -/
def wide (length : Nat) : Reader Unit := do
  let e := (← get).1
  let full := decide (24 ≤ length)
  let a ← wideWord (full || e.size == widened) fun n e => { e with size := n }
  let b ← wideWord (full || e.compressedSize == widened) fun n e => { e with compressedSize := n }
  let c ← wideWord (full || e.start == widened) fun n e => { e with start := n }
  demand (a + b + c ≤ length)
  let _ ← read (Bytes.chunk (length - (a + b + c)))

/-- The number of bits that are set among the lowest three. -/
def lowBits (n : Nat) : Nat :=
  n % 2 + n / 2 % 2 + n / 4 % 2

/-- Times of modification, access and creation. The flags say which are there; a field for one time
holds that of the modification. -/
def times (length : Nat) : Reader Unit := do
  let flags ← read (Bytes.word 1)
  demand (flags < 8)
  demand (length == 5 || length == 1 + 4 * lowBits flags)
  let _ ← read (Bytes.chunk (length - 1))

/-- Times in the form of another file system. -/
def fineTimes (length : Nat) : Reader Unit := do
  demand (length == 32)
  let _ ← read (Bytes.chunk 4)
  let tag ← read (Bytes.word 2)
  demand (tag == 1)
  let size ← read (Bytes.word 2)
  demand (size == 24)
  let _ ← read (Bytes.chunk 24)

/-- How the data are encrypted, and the method with which they are compressed. -/
def encryption (length : Nat) : Reader Unit := do
  demand (length == 7)
  let version ← read (Bytes.word 2)
  let vendor ← read (Bytes.word 2)
  let strength ← read (Bytes.word 1)
  let method ← read (Bytes.word 2)
  demand (vendor == 0x4541)
  demand (version == 1 || version == 2)
  demand (1 ≤ strength && strength ≤ 3)
  update fun e => { e with sealed := true, method := method }

/-- Text in Unicode for a text of the entry, whose checksum it repeats. -/
def unicode (length : Nat) (plain : Entry → Bytes) : Reader Bytes := do
  let _ ← read (Bytes.chunk 1)
  let crc ← read (Bytes.word 4)
  demand (5 ≤ length)
  let text ← read (Bytes.chunk (length - 5))
  demand (Bytes.crc32 (plain (← get).1) == crc)
  demand (Bytes.utf8? text).isSome
  return text

/-- Reads one extra field. -/
def field : Reader Unit := do
  let kind ← read (Bytes.word 2)
  let length ← read (Bytes.word 2)
  match kind with
  | 0x0001 => wide length
  | 0x000A => fineTimes length
  | 0x5455 => times length
  | 0x6375 =>
    let text ← unicode length (·.comment)
    update fun e => { e with comment := text }
  | 0x7075 =>
    let text ← unicode length (·.name)
    update fun e => { e with name := text }
  | 0x9901 => encryption length
  | _ =>
    let _ ← read (Bytes.chunk length)

end Extra

/-- The entry after its extra fields, of which there are at most so many. -/
def Entry.extend : Nat → Entry → Bytes → Option Entry
  | 0, e, _ => some e
  | _, e, [] => some e
  | n + 1, e, bs =>
    match Extra.field.run.run (e, bs) with
    | (.ok (), e, rest) => extend n e rest
    | (.error .tooShort, e, _) => some e
    | (.error .refused, _, _) => none

/-- Reads an entry of the directory. -/
def directoryEntry : Bytes.Reader Entry := do
  Bytes.signature 0x02014B50
  let _ ← Bytes.chunk 4
  let flags ← Bytes.word 2
  let method ← Bytes.word 2
  let _ ← Bytes.chunk 4
  let crc ← Bytes.word 4
  let compressedSize ← Bytes.word 4
  let size ← Bytes.word 4
  let nameLength ← Bytes.word 2
  let extraLength ← Bytes.word 2
  let commentLength ← Bytes.word 2
  let _ ← Bytes.chunk 8
  let start ← Bytes.word 4
  let name ← Bytes.chunk nameLength
  let extra ← Bytes.chunk extraLength
  let comment ← Bytes.chunk commentLength
  let plain : Entry :=
    ⟨name, comment, flags % 2 == 1, false, method, crc, size, compressedSize, start⟩
  let e ← StateT.lift (plain.extend extra.length extra)
  if e.method = encryptedMethod ∧ !e.sealed then failure
  return e

end WordBlocks.Zip
