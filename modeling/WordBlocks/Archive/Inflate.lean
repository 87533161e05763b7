import WordBlocks.Archive.Bytes
import WordBlocks.Number.Power

/-!
Decompression of deflated data. The compressed data are a sequence of blocks, each stored plainly or
written in a pair of prefix codes, one for literal bytes and lengths and one for distances. Data
that end too early give what has been decompressed so far; whether that was all is for a checksum to
say. Only data that contradict the format are refused.
-/

namespace WordBlocks.Deflate

/-- Bits in the order in which they are read: from each byte the least significant first. -/
abbrev Bits := List Bool

def bitsOf (bs : Bytes) : Bits :=
  bs.flatMap fun b => (List.range 8).map b.toNat.testBit

/-- Why decompression stops before the end of the last block. -/
inductive Stop where
  /-- The data end. -/
  | ended
  /-- The data contradict the format. -/
  | corrupt
deriving DecidableEq, Repr

/-- A reader of bits. -/
abbrev BitReader := StateT Bits (Except Stop)

def bit : BitReader Bool := fun bits =>
  match bits with
  | [] => .error .ended
  | b :: rest => .ok (b, rest)

/-- Reads a number of `n` bits, least significant first. -/
def number : Nat → BitReader Nat
  | 0 => return 0
  | n + 1 => do
    let b ← bit
    let rest ← number n
    return b.toNat + 2 * rest

/-- A prefix code as a tree. -/
inductive Tree where
  | empty
  | leaf (symbol : Nat)
  | node (zero one : Tree)

namespace Tree

/-- Adds a symbol at the end of a path. -/
def insert : Tree → List Bool → Nat → Tree
  | _, [], s => leaf s
  | node zero one, false :: path, s => node (zero.insert path s) one
  | node zero one, true :: path, s => node zero (one.insert path s)
  | _, false :: path, s => node (insert empty path s) empty
  | _, true :: path, s => node empty (insert empty path s)

/-- Reads one symbol. -/
def read : Tree → BitReader Nat
  | leaf s => return s
  | empty => throw .corrupt
  | node zero one => do
    let b ← bit
    if b then one.read else zero.read

end Tree

/-- The `n` low bits of a number, most significant first. -/
def codeBits (n code : Nat) : List Bool :=
  ((List.range n).map code.testBit).reverse

/-- The symbols of a code with their code words. Shorter words come first, and symbols with words of
one length follow each other in counting order. `used` is the number of code words of the present
length that are taken by shorter ones. -/
def codeWords (lengths : List Nat) : (remaining length used : Nat) → List (Nat × List Bool)
  | 0, _, _ => []
  | remaining + 1, length, used =>
    let symbols := (lengths.zipIdx.filter (·.1 == length)).map (·.2)
    (symbols.zipIdx used).map (fun s => (s.1, codeBits length s.2)) ++
      codeWords lengths remaining (length + 1) (2 * (used + symbols.length))

/-- The part of all infinite bit strings that starts with a code word, in units of `2 ^ -15`. -/
def coverage (lengths : List Nat) : Nat :=
  ((lengths.filter (· != 0)).map fun n => twoPow (15 - n)).foldr (· + ·) 0

/-- The code with given lengths of code words, where 0 means that a symbol is not used. The words
have to cover all bit strings, unless the code is `sparse` and has at most one word. -/
def codeOf (sparse : Bool) (lengths : List Nat) : Except Stop Tree :=
  if coverage lengths = twoPow 15 || (sparse && (lengths.filter (· != 0)).length ≤ 1) then
    .ok ((codeWords lengths 15 1 0).foldl (fun t w => t.insert w.2 w.1) .empty)
  else .error .corrupt

/-- The code words lengths for literals and lengths when a block does not bring its own. -/
def fixedLengths : List Nat :=
  List.replicate 144 8 ++ List.replicate 112 9 ++ List.replicate 24 7 ++ List.replicate 8 8

/-- Least length and number of further bits for the symbols from 257 on. -/
def lengthTable : List (Nat × Nat) :=
  [(3, 0), (4, 0), (5, 0), (6, 0), (7, 0), (8, 0), (9, 0), (10, 0), (11, 1), (13, 1), (15, 1),
    (17, 1), (19, 2), (23, 2), (27, 2), (31, 2), (35, 3), (43, 3), (51, 3), (59, 3), (67, 4),
    (83, 4), (99, 4), (115, 4), (131, 5), (163, 5), (195, 5), (227, 5), (258, 0)]

/-- Least distance and number of further bits for the symbols of the distance code. -/
def distanceTable : List (Nat × Nat) :=
  [(1, 0), (2, 0), (3, 0), (4, 0), (5, 1), (7, 1), (9, 2), (13, 2), (17, 3), (25, 3), (33, 4),
    (49, 4), (65, 5), (97, 5), (129, 6), (193, 6), (257, 7), (385, 7), (513, 8), (769, 8),
    (1025, 9), (1537, 9), (2049, 10), (3073, 10), (4097, 11), (6145, 11), (8193, 12), (12289, 12),
    (16385, 13), (24577, 13)]

/-- The value of a symbol: the least value of its class and its further bits. -/
def classValue (table : List (Nat × Nat)) (i : Nat) : BitReader Nat :=
  match table[i]? with
  | some (least, further) => do return least + (← number further)
  | none => throw .corrupt

/-- Reads the lengths of code words, which are themselves written in a code with marks for
repetition. At most `count` lengths are missing; those read so far come in reverse. -/
def readLengths (code : Tree) : (fuel count : Nat) → List Nat → BitReader (List Nat)
  | 0, _, _ => throw .corrupt
  | _ + 1, 0, found => return found.reverse
  | fuel + 1, count + 1, found => do
    let s ← code.read
    if s < 16 then readLengths code fuel count (s :: found)
    else
      let (value, times) ←
        if s = 16 then
          match found with
          | last :: _ => do pure (last, 3 + (← number 2))
          | [] => throw .corrupt
        else if s = 17 then do pure (0, 3 + (← number 3))
        else do pure (0, 11 + (← number 7))
      if times ≤ count + 1 then
        readLengths code fuel (count + 1 - times) (List.replicate times value ++ found)
      else throw .corrupt

/-- The order in which the lengths for the code of lengths are written. -/
def lengthOrder : List Nat :=
  [16, 17, 18, 0, 8, 7, 9, 6, 10, 5, 11, 4, 12, 3, 13, 2, 14, 1, 15]

/-- Reads the two codes at the beginning of a block that brings its own. -/
def readCodes : BitReader (Tree × Tree) := do
  let literals := (← number 5) + 257
  let distances := (← number 5) + 1
  let given := (← number 4) + 4
  let first ← (lengthOrder.take given).mapM fun s => do return (s, ← number 3)
  let code ← codeOf false ((List.range 19).map fun s => (first.lookup s).getD 0)
  let lengths ← readLengths code (literals + distances + 1) (literals + distances) []
  let literalCode ← codeOf true (lengths.take literals)
  let distanceCode ← codeOf true (lengths.drop literals)
  return (literalCode, distanceCode)

/-- Repeats `length` bytes that were written `distance` bytes before. -/
def copy (out : Array UInt8) (distance : Nat) : (length : Nat) → Array UInt8
  | 0 => out
  | n + 1 => copy (out.push (out[out.size - distance]?.getD 0)) distance n

/-- What decompression has reached: the bytes written, and the bits that follow or the reason why it
stopped. -/
structure Progress where
  out : Array UInt8
  rest : Except Stop Bits

/-- What one symbol of a block stands for. -/
inductive Piece where
  | literal (byte : Nat)
  | stop
  | match (length distance : Nat)

/-- Reads one symbol and what belongs to it. -/
def readPiece (literals distances : Tree) : BitReader Piece := do
  let s ← literals.read
  if s < 256 then return .literal s
  else if s = 256 then return .stop
  else
    let length ← classValue lengthTable (s - 257)
    let distance ← classValue distanceTable (← distances.read)
    return .match length distance

/-- Decompresses up to the end of a block. Every symbol takes a bit, so the number of bits bounds
the number of symbols. -/
def inflateCoded (literals distances : Tree) : (fuel : Nat) → Bits → Array UInt8 → Progress
  | 0, _, out => ⟨out, .error .ended⟩
  | fuel + 1, bits, out =>
    match readPiece literals distances bits with
    | .error e => ⟨out, .error e⟩
    | .ok (.literal b, rest) => inflateCoded literals distances fuel rest (out.push b.toUInt8)
    | .ok (.stop, rest) => ⟨out, .ok rest⟩
    | .ok (.match length distance, rest) =>
      if distance ≤ out.size then
        inflateCoded literals distances fuel rest (copy out distance length)
      else ⟨out, .error .corrupt⟩

/-- Copies the bytes of a stored block. -/
def copyStored : (count : Nat) → Bits → Array UInt8 → Progress
  | 0, bits, out => ⟨out, .ok bits⟩
  | n + 1, bits, out =>
    match number 8 bits with
    | .error e => ⟨out, .error e⟩
    | .ok (b, rest) => copyStored n rest (out.push b.toUInt8)

/-- Reads the size of a stored block, which starts at the next whole byte and is followed by its
complement. -/
def storedSize : BitReader Nat := do
  modify fun bits => bits.drop (bits.length % 8)
  let size ← number 16
  let complement ← number 16
  if size + complement = 0xFFFF then return size else throw .corrupt

/-- Decompresses one block after its header. -/
def inflateBlock (kind : Nat) (bits : Bits) (out : Array UInt8) : Progress :=
  if kind = 0 then
    match storedSize bits with
    | .error e => ⟨out, .error e⟩
    | .ok (size, rest) => copyStored size rest out
  else if kind = 1 then
    match codeOf true fixedLengths, codeOf true (List.replicate 32 5) with
    | .ok literals, .ok distances =>
      inflateCoded literals distances (bits.length + 1) bits out
    | _, _ => ⟨out, .error .corrupt⟩
  else if kind = 2 then
    match readCodes bits with
    | .error e => ⟨out, .error e⟩
    | .ok ((literals, distances), rest) =>
      inflateCoded literals distances (rest.length + 1) rest out
  else ⟨out, .error .corrupt⟩

/-- Decompresses blocks up to the last one. Every block has a header, so the number of bits bounds
the number of blocks. -/
def inflateBlocks : (fuel : Nat) → Bits → Array UInt8 → Progress
  | 0, bits, out => ⟨out, .ok bits⟩
  | fuel + 1, bits, out =>
    let header : BitReader (Bool × Nat) := do return (← bit, ← number 2)
    match header bits with
    | .error e => ⟨out, .error e⟩
    | .ok ((last, kind), rest) =>
      let p := inflateBlock kind rest out
      match p.rest with
      | .error _ => p
      | .ok bits => if last then p else inflateBlocks fuel bits p.out

/-- Decompresses data. -/
def inflate? (data : Bytes) : Option Bytes :=
  let bits := bitsOf data
  let p := inflateBlocks (bits.length + 1) bits #[]
  match p.rest with
  | .error .corrupt => none
  | _ => some p.out.toList

end WordBlocks.Deflate
