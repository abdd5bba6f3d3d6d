import Midend.Proofs.Numbering.Equality
import Midend.Proofs.Numbering.Form

/-!
# Fingerprints

A text is known by sixty-four bits: the two halves of its 128-bit MurmurHash3 for machines of
sixty-four bits, with seed zero, taken together by exclusive or. Different texts may have one
fingerprint. The constants zero of the two signs have different ones.
-/

namespace Midend

/-- The two halves of a hash. -/
structure Murmur where
  low : UInt64 := 0
  high : UInt64 := 0
deriving DecidableEq, Repr

namespace Murmur

/-- A word turned to the left. -/
def rotate (word count : UInt64) : UInt64 :=
  word <<< count ||| word >>> (64 - count)

/-- The word of at most eight bytes, the lowest byte first. -/
def word (bytes : List UInt8) : UInt64 :=
  bytes.foldr (fun byte word => word <<< 8 ||| byte.toUInt64) 0

/-- What the first word of a block adds to the low half. -/
def scrambleLow (word : UInt64) : UInt64 :=
  rotate (word * 0x87c37b91114253d5) 31 * 0x4cf5ad432745937f

/-- What the second word of a block adds to the high half. -/
def scrambleHigh (word : UInt64) : UInt64 :=
  rotate (word * 0x4cf5ad432745937f) 33 * 0x87c37b91114253d5

/-- The hash behind a block of sixteen bytes. -/
def block (hash : Murmur) (bytes : List UInt8) : Murmur :=
  let low := rotate (hash.low ^^^ scrambleLow (word (bytes.take 8))) 27 + hash.high
  let low := low * 5 + 0x52dce729
  let high := rotate (hash.high ^^^ scrambleHigh (word (bytes.drop 8))) 31 + low
  ⟨low, high * 5 + 0x38495ab5⟩

/-- The hash behind a number of blocks, and the bytes behind them. -/
def blocks : Nat → Murmur → List UInt8 → Murmur × List UInt8
  | 0, hash, bytes => (hash, bytes)
  | count + 1, hash, bytes => blocks count (hash.block (bytes.take 16)) (bytes.drop 16)

/-- A half in which every bit depends on all bits. -/
def avalanche (half : UInt64) : UInt64 :=
  let half := (half ^^^ half >>> 33) * 0xff51afd7ed558ccd
  let half := (half ^^^ half >>> 33) * 0xc4ceb9fe1a85ec53
  half ^^^ half >>> 33

/-- The hash of bytes. -/
def ofBytes (bytes : List UInt8) : Murmur :=
  let (hash, tail) := blocks (bytes.length / 16) {} bytes
  let length := bytes.length.toUInt64
  let low := hash.low ^^^ scrambleLow (word (tail.take 8)) ^^^ length
  let high := hash.high ^^^ scrambleHigh (word (tail.drop 8)) ^^^ length
  let low := low + high
  let high := high + low
  let low := avalanche low
  let high := avalanche high
  let low := low + high
  ⟨low, high + low⟩

/-- The fingerprint of a text, from its bytes in UTF-8. -/
def fingerprint (text : String) : UInt64 :=
  let hash := ofBytes text.toUTF8.data.toList
  hash.low ^^^ hash.high

/-- Bytes are hashed in blocks of sixteen. -/
example : ofBytes "The quick brown fox jumps over the lazy dog".toUTF8.data.toList =
    ⟨0xe34bbc7bbc071b6c, 0x7a433ca9c49a9347⟩ := by
  decide +kernel

end Murmur

/-- Fingerprints by which the constants zero of the two signs are known apart. -/
def TellsZeros (fingerprint : String → UInt64) : Prop :=
  fingerprint (Expr.constant (.float (.zero false))).json ≠
    fingerprint (Expr.constant (.float (.zero true))).json

/-- The hash tells the zeros. -/
theorem Murmur.tellsZeros : TellsZeros Murmur.fingerprint := by
  unfold TellsZeros
  decide +kernel

end Midend
