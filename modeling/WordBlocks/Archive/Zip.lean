import WordBlocks.Archive.Entry

/-!
Zip archives. The end record at the end of an archive says where the directory of its entries is;
bytes that come before the archive shift all positions. An archive is valid when an end record, the
last that fits, leads to a readable directory whose entries lie before it. The header and the data
of an entry are looked at only when the entry is opened. Entries are stored plainly or deflated.
-/

namespace WordBlocks.Zip

/-- The tails that begin with a signature among the first `count` tails of some bytes, with their
positions, the last one first. -/
def signed (signature : Nat) (found : List (Nat × Bytes)) (position : Nat) :
    (count : Nat) → Bytes → List (Nat × Bytes)
  | 0, _ => found
  | count + 1, bs =>
    let found := if (Bytes.signature signature bs).isSome then (position, bs) :: found else found
    signed signature found (position + 1) count bs.tail

/-- The tails of a file that begin with a signature, which stands before `stop` and not before
`start`, the first one first. -/
def signedBetween (signature : Nat) (file : Bytes) (start stop : Nat) : List (Nat × Bytes) :=
  (signed signature [] start (stop - start - 3) (file.drop start)).reverse

/-- The record at the end of an archive. -/
structure EndRecord where
  disk : Nat
  directoryDisk : Nat
  entriesHere : Nat
  entries : Nat
  directoryOffset : Nat
deriving DecidableEq, Repr

/-- Reads an end record with the comment that follows it. -/
def endRecord : Bytes.Reader EndRecord := do
  Bytes.signature 0x06054B50
  let disk ← Bytes.word 2
  let directoryDisk ← Bytes.word 2
  let entriesHere ← Bytes.word 2
  let entries ← Bytes.word 2
  let _ ← Bytes.chunk 4
  let directoryOffset ← Bytes.word 4
  let comment ← Bytes.word 2
  let _ ← Bytes.chunk comment
  return ⟨disk, directoryDisk, entriesHere, entries, directoryOffset⟩

/-- The record before the end record of an archive that needs 64-bit numbers. It says where the wide
end record is. -/
structure Locator where
  directoryDisk : Nat
  endOffset : Nat
  disks : Nat
deriving DecidableEq, Repr

def locator : Bytes.Reader Locator := do
  Bytes.signature 0x07064B50
  let directoryDisk ← Bytes.word 4
  let endOffset ← Bytes.word 8
  let disks ← Bytes.word 4
  return ⟨directoryDisk, endOffset, disks⟩

/-- The end record with 64-bit numbers. -/
structure WideEndRecord where
  size : Nat
  madeBy : Nat
  needed : Nat
  disk : Nat
  directoryDisk : Nat
  entriesHere : Nat
  entries : Nat
  directoryOffset : Nat
deriving DecidableEq, Repr

def wideEndRecord : Bytes.Reader WideEndRecord := do
  Bytes.signature 0x06064B50
  let size ← Bytes.word 8
  let madeBy ← Bytes.word 2
  let needed ← Bytes.word 2
  let disk ← Bytes.word 4
  let directoryDisk ← Bytes.word 4
  let entriesHere ← Bytes.word 8
  let entries ← Bytes.word 8
  let _ ← Bytes.chunk 8
  let directoryOffset ← Bytes.word 8
  return ⟨size, madeBy, needed, disk, directoryDisk, entriesHere, entries, directoryOffset⟩

/-- Where the directory of an archive is. -/
structure Directory where
  start : Nat
  /-- The number of bytes before the archive. -/
  shift : Nat
  count : Nat
deriving DecidableEq, Repr

/-- The directory of an archive whose end record is at `position`. Bytes before the archive can only
move the directory back in the file, so it is at the first sign of an entry that does not come
before the recorded position. -/
def EndRecord.directory? (file : Bytes) (position : Nat) (r : EndRecord) : Option Directory := do
  if r.disk ≠ r.directoryDisk then failure
  let shift ←
    if r.entries = 0 then pure (position - r.directoryOffset)
    else
      (signedBetween 0x02014B50 file r.directoryOffset position).head?.map
        (·.1 - r.directoryOffset)
  return ⟨r.directoryOffset + shift, shift, r.entriesHere⟩

/-- Whether the wide end record at `position` is the one that the locator at `locatorPosition`
means. -/
def WideEndRecord.fits (r : WideEndRecord) (l : Locator) (position locatorPosition : Nat) : Bool :=
  44 ≤ r.size && r.size + 12 == locatorPosition - position && r.directoryDisk == l.directoryDisk &&
    r.entries * 46 + r.directoryOffset ≤ position

/-- The directory of an archive with a locator at `position`. -/
def Locator.directory? (file : Bytes) (position : Nat) (l : Locator) : Option Directory := do
  if 1 < l.disks then failure
  let (found, r) ← (signedBetween 0x06064B50 file l.endOffset position).findSome? fun (i, tail) =>
    (wideEndRecord tail).bind fun (r, _) => if r.fits l i position then some (i, r) else none
  if r.entries < r.entriesHere ∨ r.madeBy < r.needed ∨ r.disk ≠ r.directoryDisk then failure
  let shift := found - l.endOffset
  return ⟨r.directoryOffset + shift, shift, r.entries⟩

/-- The locator right before the end record at `position`, where the numbers of the end record leave
room for one. -/
def EndRecord.locator? (file : Bytes) (position : Nat) (r : EndRecord) : Option Locator :=
  if (r.entries = 0xFFFF ∨ r.directoryOffset = widened) ∧ 20 ≤ position then
    (locator (file.drop (position - 20))).map (·.1)
  else none

/-- Reads so many entries of a directory. Each of them starts before the directory. -/
def directoryEntries (d : Directory) : Nat → Bytes.Reader (List Entry)
  | 0 => return []
  | n + 1 => do
    let e ← directoryEntry
    let e := { e with start := e.start + d.shift }
    if d.start ≤ e.start then failure
    let rest ← directoryEntries d n
    return e :: rest

/-- The entries to which the end record at a position leads. -/
def entriesFrom? (file : Bytes) (position : Nat) (tail : Bytes) : Option (List Entry) := do
  let (r, _) ← endRecord tail
  let d ← match r.locator? file position with
    | some l => l.directory? file (position - 20)
    | none => r.directory? file position
  let (entries, _) ← directoryEntries d d.count (file.drop d.start)
  return entries

/-- The entries of an archive. -/
def entries? (file : Bytes) : Option (List Entry) :=
  (signed 0x06054B50 [] 0 file.length file).findSome? fun r => entriesFrom? file r.1 r.2

/-- The entry with a name. Of several the last counts. -/
def find? (entries : List Entry) (name : String) : Option Entry :=
  entries.reverse.find? (·.name == name.toUTF8.toList)

/-- Reads the header before the data of an entry and gives its size. -/
def localHeaderSize : Bytes.Reader Nat := do
  Bytes.signature 0x04034B50
  let _ ← Bytes.chunk 22
  let nameLength ← Bytes.word 2
  let extraLength ← Bytes.word 2
  return 30 + nameLength + extraLength

/-- Whether data of the kind of an entry can be read: they are not encrypted, and stored or
deflated. -/
def Entry.isSupported (e : Entry) : Bool :=
  !e.encrypted && !e.sealed && (e.method == 0 || e.method == 8)

/-- The data of an entry as they stand in the file, if the entry can be opened. -/
def data? (file : Bytes) (e : Entry) : Option Bytes := do
  if !e.isSupported then failure
  let (size, _) ← localHeaderSize (file.drop e.start)
  return (file.drop (e.start + size)).take e.compressedSize

/-- The content of an entry from its data, if they are sound and have the right checksum. -/
def Entry.content? (e : Entry) (data : Bytes) : Option Bytes := do
  let content ← if e.method = 0 then some data else Deflate.inflate? data
  if Bytes.crc32 content = e.crc then return content else failure

end WordBlocks.Zip
