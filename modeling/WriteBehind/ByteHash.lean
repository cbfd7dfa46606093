/-!
# Hashing of byte strings

The 64-bit XXH3 hash with seed zero.  Short inputs are mixed in one step chosen
by their length, longer ones in steps of 16 bytes; from 241 bytes on the input
is cut into stripes of 64 bytes that feed eight accumulators.  All arithmetic
is that of 64-bit words.
-/

namespace WriteBehind.ByteHash

/-- The constant bytes that key the mixing steps. -/
def secret : ByteArray := ⟨#[
  0xb8, 0xfe, 0x6c, 0x39, 0x23, 0xa4, 0x4b, 0xbe, 0x7c, 0x01, 0x81, 0x2c, 0xf7, 0x21, 0xad, 0x1c,
  0xde, 0xd4, 0x6d, 0xe9, 0x83, 0x90, 0x97, 0xdb, 0x72, 0x40, 0xa4, 0xa4, 0xb7, 0xb3, 0x67, 0x1f,
  0xcb, 0x79, 0xe6, 0x4e, 0xcc, 0xc0, 0xe5, 0x78, 0x82, 0x5a, 0xd0, 0x7d, 0xcc, 0xff, 0x72, 0x21,
  0xb8, 0x08, 0x46, 0x74, 0xf7, 0x43, 0x24, 0x8e, 0xe0, 0x35, 0x90, 0xe6, 0x81, 0x3a, 0x26, 0x4c,
  0x3c, 0x28, 0x52, 0xbb, 0x91, 0xc3, 0x00, 0xcb, 0x88, 0xd0, 0x65, 0x8b, 0x1b, 0x53, 0x2e, 0xa3,
  0x71, 0x64, 0x48, 0x97, 0xa2, 0x0d, 0xf9, 0x4e, 0x38, 0x19, 0xef, 0x46, 0xa9, 0xde, 0xac, 0xd8,
  0xa8, 0xfa, 0x76, 0x3f, 0xe3, 0x9c, 0x34, 0x3f, 0xf9, 0xdc, 0xbb, 0xc7, 0xc7, 0x0b, 0x4f, 0x1d,
  0x8a, 0x51, 0xe0, 0x4b, 0xcd, 0xb4, 0x59, 0x31, 0xc8, 0x9f, 0x7e, 0xc9, 0xd9, 0x78, 0x73, 0x64,
  0xea, 0xc5, 0xac, 0x83, 0x34, 0xd3, 0xeb, 0xc3, 0xc5, 0x81, 0xa0, 0xff, 0xfa, 0x13, 0x63, 0xeb,
  0x17, 0x0d, 0xdd, 0x51, 0xb7, 0xf0, 0xda, 0x49, 0xd3, 0x16, 0x55, 0x26, 0x29, 0xd4, 0x68, 0x9e,
  0x2b, 0x16, 0xbe, 0x58, 0x7d, 0x47, 0xa1, 0xfc, 0x8f, 0xf8, 0xb8, 0xd1, 0x7a, 0xd0, 0x31, 0xce,
  0x45, 0xcb, 0x3a, 0x8f, 0x95, 0x16, 0x04, 0x28, 0xaf, 0xd7, 0xfb, 0xca, 0xbb, 0x4b, 0x40, 0x7e]⟩

def prime32a : UInt64 := 0x9E3779B1
def prime32b : UInt64 := 0x85EBCA77
def prime32c : UInt64 := 0xC2B2AE3D
def prime64a : UInt64 := 0x9E3779B185EBCA87
def prime64b : UInt64 := 0xC2B2AE3D27D4EB4F
def prime64c : UInt64 := 0x165667B19E3779F9
def prime64d : UInt64 := 0x85EBCA77C2B2AE63
def prime64e : UInt64 := 0x27D4EB2F165667C5
def primeMixA : UInt64 := 0x165667919E3779F9
def primeMixB : UInt64 := 0x9FB21C651E98DF25

/-- The byte at a position; there are zeros after the end. -/
def byteAt (b : ByteArray) (i : Nat) : UInt64 :=
  if h : i < b.size then b[i].toUInt64 else 0

/-- Four bytes as a word, the lowest first. -/
def read32 (b : ByteArray) (i : Nat) : UInt64 :=
  byteAt b i ||| byteAt b (i + 1) <<< 8 ||| byteAt b (i + 2) <<< 16 ||| byteAt b (i + 3) <<< 24

/-- Eight bytes as a word, the lowest first. -/
def read64 (b : ByteArray) (i : Nat) : UInt64 :=
  read32 b i ||| read32 b (i + 4) <<< 32

/-- Bits rotated to the left. -/
def rotateLeft (x n : UInt64) : UInt64 := x <<< n ||| x >>> (64 - n)

/-- The bytes of a word in opposite order. -/
def swapBytes (x : UInt64) : UInt64 :=
  (List.range 8).foldl (fun acc i => acc <<< 8 ||| (x >>> (8 * i).toUInt64) &&& 0xff) 0

/-- The halves of a 128-bit product, combined. -/
def foldProduct (x y : UInt64) : UInt64 :=
  let p := x.toNat * y.toNat
  UInt64.ofNat p ^^^ UInt64.ofNat (p >>> 64)

/-- The final mixing of the longer inputs. -/
def avalanche (h : UInt64) : UInt64 :=
  let h := (h ^^^ h >>> 37) * primeMixA
  h ^^^ h >>> 32

/-- The final mixing of inputs below four bytes. -/
def avalancheShort (h : UInt64) : UInt64 :=
  let h := (h ^^^ h >>> 33) * prime64b
  let h := (h ^^^ h >>> 29) * prime64c
  h ^^^ h >>> 32

/-- The final mixing of four to eight bytes. -/
def avalancheWord (h length : UInt64) : UInt64 :=
  let h := h ^^^ rotateLeft h 49 ^^^ rotateLeft h 24
  let h := h * primeMixB
  let h := (h ^^^ (h >>> 35 + length)) * primeMixB
  h ^^^ h >>> 28

/-- Sixteen bytes of input mixed with sixteen bytes of the secret. -/
def mix16 (b : ByteArray) (i s : Nat) : UInt64 :=
  foldProduct (read64 b i ^^^ read64 secret s) (read64 b (i + 8) ^^^ read64 secret (s + 8))

/-- The sum of the values of a function over a list of positions. -/
def sumOver (f : Nat → UInt64) (positions : List Nat) : UInt64 :=
  positions.foldl (fun acc i => acc + f i) 0

/-- Inputs of at most 16 bytes. -/
def hashShort (b : ByteArray) (length : UInt64) : UInt64 :=
  let n := b.size
  if n = 0 then
    avalancheShort (read64 secret 56 ^^^ read64 secret 64)
  else if n ≤ 3 then
    let combined := byteAt b 0 <<< 16 ||| byteAt b (n / 2) <<< 24 ||| byteAt b (n - 1) |||
      length <<< 8
    avalancheShort (combined ^^^ (read32 secret 0 ^^^ read32 secret 4))
  else if n ≤ 8 then
    let input := read32 b (n - 4) + read32 b 0 <<< 32
    avalancheWord (input ^^^ (read64 secret 8 ^^^ read64 secret 16)) length
  else
    let low := read64 b 0 ^^^ (read64 secret 24 ^^^ read64 secret 32)
    let high := read64 b (n - 8) ^^^ (read64 secret 40 ^^^ read64 secret 48)
    avalanche (length + swapBytes low + high + foldProduct low high)

/-- Inputs of 17 to 128 bytes: steps of 16 bytes from both ends. -/
def hashMedium (b : ByteArray) (length : UInt64) : UInt64 :=
  let n := b.size
  let pairs := (n - 1) / 32 + 1
  let pair (i : Nat) : UInt64 :=
    mix16 b (16 * i) (32 * i) + mix16 b (n - 16 * (i + 1)) (32 * i + 16)
  avalanche (length * prime64a + sumOver pair (List.range pairs))

/-- Inputs of 129 to 240 bytes: eight steps, then the others with a shifted secret. -/
def hashLong (b : ByteArray) (length : UInt64) : UInt64 :=
  let n := b.size
  let first := avalanche
    (length * prime64a + sumOver (fun i => mix16 b (16 * i) (16 * i)) (List.range 8))
  let rest := sumOver (fun i => mix16 b (16 * (i + 8)) (16 * i + 3)) (List.range (n / 16 - 8))
  avalanche (first + rest + mix16 b (n - 16) 119)

/-! ## Stripes -/

/-- The eight accumulators. -/
abbrev Lanes := List UInt64

/-- The accumulators before the first stripe. -/
def initialLanes : Lanes :=
  [prime32c, prime64a, prime64b, prime64c, prime64d, prime32b, prime64e, prime32a]

/-- The product of the halves of a word. -/
def halvesProduct (x : UInt64) : UInt64 := (x % 4294967296) * (x >>> 32)

/-- One stripe: every lane gets the product of its keyed word and the plain word
of its partner. -/
def accumulate (b : ByteArray) (lanes : Lanes) (i s : Nat) : Lanes :=
  lanes.mapIdx fun (j : Nat) (acc : UInt64) =>
    let partner := if j % 2 = 0 then j + 1 else j - 1
    acc + read64 b (i + 8 * partner) +
      halvesProduct (read64 b (i + 8 * j) ^^^ read64 secret (s + 8 * j))

/-- The scrambling after a block of sixteen stripes. -/
def scramble (lanes : Lanes) : Lanes :=
  lanes.mapIdx fun (j : Nat) (acc : UInt64) =>
    ((acc ^^^ acc >>> 47) ^^^ read64 secret (128 + 8 * j)) * prime32a

/-- The stripes of one block. -/
def accumulateBlock (b : ByteArray) (lanes : Lanes) (start stripes : Nat) : Lanes :=
  (List.range stripes).foldl (fun lanes k => accumulate b lanes (start + 64 * k) (8 * k)) lanes

/-- The accumulators combined to one word. -/
def mergeLanes (length : UInt64) : Nat → Lanes → UInt64
  | s, x :: y :: rest =>
    foldProduct (x ^^^ read64 secret s) (y ^^^ read64 secret (s + 8)) +
      mergeLanes length (s + 16) rest
  | _, _ => length * prime64a

/-- Inputs of more than 240 bytes. -/
def hashStripes (b : ByteArray) (length : UInt64) : UInt64 :=
  let n := b.size
  let blocks := (n - 1) / 1024
  let lanes := (List.range blocks).foldl
    (fun lanes k => scramble (accumulateBlock b lanes (1024 * k) 16)) initialLanes
  let lanes := accumulateBlock b lanes (1024 * blocks) ((n - 1 - 1024 * blocks) / 64)
  let lanes := accumulate b lanes (n - 64) 121
  avalanche (mergeLanes length 11 lanes)

end WriteBehind.ByteHash

namespace WriteBehind

/-- The hash of a byte string. -/
def hashBytes (b : ByteArray) : UInt64 :=
  let length := UInt64.ofNat b.size
  if b.size ≤ 16 then ByteHash.hashShort b length
  else if b.size ≤ 128 then ByteHash.hashMedium b length
  else if b.size ≤ 240 then ByteHash.hashLong b length
  else ByteHash.hashStripes b length

end WriteBehind
