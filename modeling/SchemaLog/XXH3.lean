/-!
# XXH3 — a 64-bit hash of a byte sequence

The XXH3 hash with seed 0 and the standard secret.  Sequences of up to 16 bytes, up to 128, up to
240 and longer ones are hashed in four different ways.
-/

namespace SchemaLog

namespace XXH3

/-! ## Constants -/

def prime32a : UInt64 := 0x9E3779B1
def prime32b : UInt64 := 0x85EBCA77
def prime32c : UInt64 := 0xC2B2AE3D
def prime64a : UInt64 := 0x9E3779B185EBCA87
def prime64b : UInt64 := 0xC2B2AE3D27D4EB4F
def prime64c : UInt64 := 0x165667B19E3779F9
def prime64d : UInt64 := 0x85EBCA77C2B2AE63
def prime64e : UInt64 := 0x27D4EB2F165667C5

/-- The standard secret of 192 bytes. -/
def secret : ByteArray := ⟨#[
  0xb8, 0xfe, 0x6c, 0x39, 0x23, 0xa4, 0x4b, 0xbe, 0x7c, 0x01, 0x81, 0x2c, 0xf7, 0x21, 0xad, 0x1c,
  0xde, 0xd4, 0x6d, 0xe9, 0x83, 0x90, 0x97, 0xdb, 0x72, 0x40, 0xa4, 0xa4, 0xb7, 0xb3, 0x67, 0x1f,
  0xcb, 0x79, 0xe6, 0x4e, 0xcc, 0xc0, 0xe5, 0x78, 0x82, 0x5a, 0xd0, 0x7d, 0xcc, 0xff, 0x72, 0x21,
  0xb8, 0x08, 0x46, 0x74, 0xf7, 0x43, 0x24, 0x8e, 0xe0, 0x35, 0x90, 0xe6, 0x81, 0x3a, 0x26, 0x4c,
  0x3c, 0x28, 0x52, 0xbb, 0x91, 0xc3, 0x00, 0xcb, 0x88, 0xd0, 0x65, 0x8b, 0x1b, 0x53, 0x2e, 0xa3,
  0x71, 0x64, 0x48, 0x97, 0xa2, 0x0d, 0xf9, 0x4e, 0x38, 0x19, 0xef, 0x46, 0xa9, 0xde, 0xac, 0xd8,
  0xa8, 0xfa, 0x76, 0x3f, 0xe3, 0x9c, 0x34, 0x3f, 0xf9, 0xdc, 0xbb, 0xc7, 0xc7, 0x0b, 0x4f, 0x1d,
  0x8a, 0x51, 0xe0, 0x4b, 0xcd, 0xb4, 0x59, 0x31, 0xc8, 0x9f, 0x7e, 0xc9, 0xd9, 0x78, 0x73, 0x64,
  0xea, 0xc5, 0xac, 0x83, 0x34, 0xd3, 0xeb, 0xc3, 0xc5, 0x81, 0xa0, 0xff, 0xfa, 0x13, 0x63, 0xeb,
  0x17, 0x0d, 0xdd, 0x51, 0xb7, 0xf0, 0xda, 0x49, 0xd3, 0x16, 0x55, 0x26, 0x29, 0xd4, 0x68, 0x9e,
  0x2b, 0x16, 0xbe, 0x58, 0x7d, 0x47, 0xa1, 0xfc, 0x8f, 0xf8, 0xb8, 0xd1, 0x7a, 0xd0, 0x31, 0xce,
  0x45, 0xcb, 0x3a, 0x8f, 0x95, 0x16, 0x04, 0x28, 0xaf, 0xd7, 0xfb, 0xca, 0xbb, 0x4b, 0x40, 0x7e]⟩

/-! ## Words -/

/-- The byte at a place; there are zeros behind the end. -/
def byte (b : ByteArray) (i : Nat) : UInt64 :=
  if _ : i < b.size then b[i].toUInt64 else 0

/-- The 32-bit word at a place, the lowest byte first. -/
def word32 (b : ByteArray) (i : Nat) : UInt64 :=
  byte b i ||| byte b (i + 1) <<< 8 ||| byte b (i + 2) <<< 16 ||| byte b (i + 3) <<< 24

/-- The 64-bit word at a place, the lowest byte first. -/
def word64 (b : ByteArray) (i : Nat) : UInt64 :=
  word32 b i ||| word32 b (i + 4) <<< 32

/-- A word with its bytes in the opposite order. -/
def swapBytes (x : UInt64) : UInt64 :=
  (List.range 8).foldl (fun acc i => acc <<< 8 ||| (x >>> (8 * i).toUInt64 &&& 0xFF)) 0

/-- A word turned to the left. -/
def rotate (x : UInt64) (n : UInt64) : UInt64 :=
  x <<< n ||| x >>> (64 - n)

/-- The two halves of a product of 128 bits, joined by exclusive or. -/
def foldProduct (a b : UInt64) : UInt64 :=
  let p := a.toNat * b.toNat
  p.toUInt64 ^^^ (p >>> 64).toUInt64

/-! ## Mixing -/

/-- Spreads every bit over the whole word. -/
def avalanche (h : UInt64) : UInt64 :=
  let h := h ^^^ h >>> 37
  let h := h * 0x165667919E3779F9
  h ^^^ h >>> 32

/-- The same, for inputs of at most three bytes. -/
def avalancheShort (h : UInt64) : UInt64 :=
  let h := (h ^^^ h >>> 33) * prime64b
  let h := (h ^^^ h >>> 29) * prime64c
  h ^^^ h >>> 32

/-- Mixes 16 bytes of input with 16 bytes of the secret. -/
def mix (b : ByteArray) (i s : Nat) : UInt64 :=
  foldProduct (word64 b i ^^^ word64 secret s) (word64 b (i + 8) ^^^ word64 secret (s + 8))

/-- The sum of the mixes at the given places of the input and of the secret. -/
def mixSum (b : ByteArray) (places : List (Nat × Nat)) (acc : UInt64) : UInt64 :=
  places.foldl (fun acc p => acc + mix b p.1 p.2) acc

/-! ## By length -/

/-- At most 16 bytes. -/
def hashShort (b : ByteArray) : UInt64 :=
  let n := b.size
  if n = 0 then avalancheShort (word64 secret 56 ^^^ word64 secret 64)
  else if n ≤ 3 then
    let combined := byte b 0 <<< 16 ||| byte b (n / 2) <<< 24 ||| byte b (n - 1)
      ||| n.toUInt64 <<< 8
    avalancheShort (combined ^^^ (word32 secret 0 ^^^ word32 secret 4))
  else if n ≤ 8 then
    let h := (word32 b (n - 4) + word32 b 0 <<< 32) ^^^ (word64 secret 8 ^^^ word64 secret 16)
    let h := (h ^^^ rotate h 49 ^^^ rotate h 24) * 0x9FB21C651E98DF25
    let h := (h ^^^ (h >>> 35 + n.toUInt64)) * 0x9FB21C651E98DF25
    h ^^^ h >>> 28
  else
    let low := word64 b 0 ^^^ (word64 secret 24 ^^^ word64 secret 32)
    let high := word64 b (n - 8) ^^^ (word64 secret 40 ^^^ word64 secret 48)
    avalanche (n.toUInt64 + swapBytes low + high + foldProduct low high)

/-- The places that are mixed for 17 to 128 bytes: from both ends inwards. -/
def outerPlaces (n : Nat) : List (Nat × Nat) :=
  (List.range ((n - 1) / 32 + 1)).flatMap fun k =>
    [(16 * k, 32 * k), (n - 16 * (k + 1), 32 * k + 16)]

/-- 129 to 240 bytes. -/
def hashMiddle (b : ByteArray) : UInt64 :=
  let n := b.size
  let first := (List.range 8).map fun i => (16 * i, 16 * i)
  let others := (List.range (n / 16 - 8)).map fun i => (16 * (i + 8), 16 * i + 3)
  let acc := avalanche (mixSum b first (n.toUInt64 * prime64a))
  avalanche (mixSum b (others ++ [(n - 16, 119)]) acc)

/-- Adds a stripe of 64 bytes to the eight accumulators. -/
def addStripe (b : ByteArray) (i s : Nat) (acc : List UInt64) : List UInt64 :=
  let added := (List.range 8).map fun (k : Nat) =>
    let key : UInt64 := word64 b (i + 8 * k) ^^^ word64 secret (s + 8 * k)
    let low : UInt64 := key &&& 0xFFFFFFFF
    word64 b (i + 8 * (if k % 2 = 0 then k + 1 else k - 1)) + low * (key >>> 32)
  List.zipWith (· + ·) acc added

/-- Stirs the accumulators after a block of 16 stripes. -/
def scramble (acc : List UInt64) : List UInt64 :=
  acc.mapIdx fun (k : Nat) (a : UInt64) =>
    (a ^^^ a >>> 47 ^^^ word64 secret (128 + 8 * k)) * prime32a

/-- Adds stripes from the front of a block. -/
def addStripes (b : ByteArray) (i count : Nat) (acc : List UInt64) : List UInt64 :=
  (List.range count).foldl (fun acc k => addStripe b (i + 64 * k) (8 * k) acc) acc

/-- More than 240 bytes. -/
def hashLong (b : ByteArray) : UInt64 :=
  let n := b.size
  let start := [prime32c, prime64a, prime64b, prime64c, prime64d, prime32b, prime64e, prime32a]
  let blocks := (n - 1) / 1024
  let acc :=
    (List.range blocks).foldl (fun acc k => scramble (addStripes b (1024 * k) 16 acc)) start
  let acc := addStripes b (1024 * blocks) ((n - 1 - 1024 * blocks) / 64) acc
  let acc := addStripe b (n - 64) 121 acc
  let keyed := acc.mapIdx fun (k : Nat) (a : UInt64) => a ^^^ word64 secret (11 + 8 * k)
  let pairs := (List.range 4).map fun k =>
    foldProduct (keyed.getD (2 * k) 0) (keyed.getD (2 * k + 1) 0)
  avalanche (pairs.foldl (· + ·) (n.toUInt64 * prime64a))

/-- The hash of a byte sequence. -/
def hash (b : ByteArray) : UInt64 :=
  if b.size ≤ 16 then hashShort b
  else if b.size ≤ 128 then
    avalanche (mixSum b (outerPlaces b.size) (b.size.toUInt64 * prime64a))
  else if b.size ≤ 240 then hashMiddle b
  else hashLong b

end XXH3

end SchemaLog
