/-!
Byte strings: a reader for little-endian numbers, and the CRC-32 checksum.
-/

namespace WordBlocks

/-- A string of bytes. -/
abbrev Bytes := List UInt8

namespace Bytes

/-- The number that bytes stand for, least significant byte first. -/
def littleEndian : Bytes → Nat
  | [] => 0
  | b :: rest => b.toNat + 256 * littleEndian rest

/-- A reader that consumes bytes and fails when there are too few. -/
abbrev Reader := StateT Bytes Option

/-- Reads `n` bytes. -/
def chunk (n : Nat) : Reader Bytes := fun bs =>
  let front := List.take n bs
  if front.length = n then some (front, List.drop n bs) else none

/-- Reads a number of `n` bytes. -/
def word (n : Nat) : Reader Nat :=
  littleEndian <$> chunk n

/-- Reads a number of four bytes that has to be this one. -/
def signature (n : Nat) : Reader Unit := do
  let m ← word 4
  if m = n then return () else failure

/-- One step of the checksum for each bit of a byte. -/
def crcShift : Nat → UInt32 → UInt32
  | 0, c => c
  | n + 1, c => crcShift n (if c &&& 1 = 1 then (c >>> 1) ^^^ 0xEDB88320 else c >>> 1)

/-- The CRC-32 checksum. -/
def crc32 (bs : Bytes) : Nat :=
  let c := bs.foldl (fun c b => crcShift 8 (c ^^^ b.toUInt32)) 0xFFFFFFFF
  (c ^^^ 0xFFFFFFFF).toNat

/-- The text that bytes encode in UTF-8. -/
def utf8? (bs : Bytes) : Option String :=
  String.fromUTF8? ⟨bs.toArray⟩

end Bytes

end WordBlocks
