import Ordo.Text.Quoted

namespace Ordo.Digest

/-!
# SHA-256

The 256-bit digest of a text.

* `Sha256.pad` — the bytes of a message, padded to whole blocks;
* `Sha256.compress` — the state after a block;
* `sha256` — the digest of bytes;
* `sha256Hex` — the digest of a text, in hexadecimal digits.
-/

namespace Sha256

/-- The state before the first block. -/
def initial : List UInt32 :=
   [0x6a09e667, 0xbb67ae85, 0x3c6ef372, 0xa54ff53a, 0x510e527f, 0x9b05688c, 0x1f83d9ab, 0x5be0cd19]

/-- The constants of the rounds. -/
def constants : List UInt32 :=
   [0x428a2f98, 0x71374491, 0xb5c0fbcf, 0xe9b5dba5, 0x3956c25b, 0x59f111f1, 0x923f82a4, 0xab1c5ed5,
    0xd807aa98, 0x12835b01, 0x243185be, 0x550c7dc3, 0x72be5d74, 0x80deb1fe, 0x9bdc06a7, 0xc19bf174,
    0xe49b69c1, 0xefbe4786, 0x0fc19dc6, 0x240ca1cc, 0x2de92c6f, 0x4a7484aa, 0x5cb0a9dc, 0x76f988da,
    0x983e5152, 0xa831c66d, 0xb00327c8, 0xbf597fc7, 0xc6e00bf3, 0xd5a79147, 0x06ca6351, 0x14292967,
    0x27b70a85, 0x2e1b2138, 0x4d2c6dfc, 0x53380d13, 0x650a7354, 0x766a0abb, 0x81c2c92e, 0x92722c85,
    0xa2bfe8a1, 0xa81a664b, 0xc24b8b70, 0xc76c51a3, 0xd192e819, 0xd6990624, 0xf40e3585, 0x106aa070,
    0x19a4c116, 0x1e376c08, 0x2748774c, 0x34b0bcb5, 0x391c0cb3, 0x4ed8aa4a, 0x5b9cca4f, 0x682e6ff3,
    0x748f82ee, 0x78a5636f, 0x84c87814, 0x8cc70208, 0x90befffa, 0xa4506ceb, 0xbef9a3f7, 0xc67178f2]

/-- A word with its bits rotated to the right. -/
def rotate (w n : UInt32) : UInt32 := (w >>> n) ||| (w <<< (32 - n))

/-- The bytes of a number, most significant first. -/
def bytesOf (count n : Nat) : List UInt8 :=
  (List.range count).map fun i => UInt8.ofNat (n >>> (8 * (count - 1 - i)))

/-- A message padded to whole blocks: a set bit, zeros, and the number of bits. -/
def pad (message : List UInt8) : List UInt8 :=
  let zeros := (119 - message.length % 64) % 64
  message ++ 0x80 :: List.replicate zeros 0 ++ bytesOf 8 (8 * message.length)

/-- The words of a block. -/
def words : List UInt8 → List UInt32
  | a :: b :: c :: d :: rest =>
      ((a.toUInt32 <<< 24) ||| (b.toUInt32 <<< 16) ||| (c.toUInt32 <<< 8) ||| d.toUInt32)
        :: words rest
  | _ => []

/-- Extends the words of a block, which are in reverse order, by further ones. -/
def extend : Nat → List UInt32 → List UInt32
  | 0, ws => ws
  | n + 1, ws =>
      let w2 := ws.getD 1 0
      let w7 := ws.getD 6 0
      let w15 := ws.getD 14 0
      let w16 := ws.getD 15 0
      let s0 := rotate w15 7 ^^^ rotate w15 18 ^^^ (w15 >>> 3)
      let s1 := rotate w2 17 ^^^ rotate w2 19 ^^^ (w2 >>> 10)
      extend n ((w16 + s0 + w7 + s1) :: ws)

/-- A round with its constant and word. -/
def round (state : List UInt32) (input : UInt32 × UInt32) : List UInt32 :=
  match state with
  | [a, b, c, d, e, f, g, h] =>
      let s1 := rotate e 6 ^^^ rotate e 11 ^^^ rotate e 25
      let choice := (e &&& f) ^^^ ((~~~e) &&& g)
      let t1 := h + s1 + choice + input.1 + input.2
      let s0 := rotate a 2 ^^^ rotate a 13 ^^^ rotate a 22
      let majority := (a &&& b) ^^^ (a &&& c) ^^^ (b &&& c)
      [t1 + (s0 + majority), a, b, c, d + t1, e, f, g]
  | state => state

/-- The state after a block. -/
def compress (state : List UInt32) (block : List UInt8) : List UInt32 :=
  let schedule := (extend 48 (words block).reverse).reverse
  state.zipWith (· + ·) ((constants.zip schedule).foldl round state)

/-- The state after so many blocks. -/
def compressAll : Nat → List UInt32 → List UInt8 → List UInt32
  | 0, state, _ => state
  | n + 1, state, bytes => compressAll n (compress state (bytes.take 64)) (bytes.drop 64)

end Sha256

/-- The digest of bytes. -/
def sha256 (message : List UInt8) : List UInt8 :=
  let padded := Sha256.pad message
  (Sha256.compressAll (padded.length / 64) Sha256.initial padded).flatMap
    fun w => Sha256.bytesOf 4 w.toNat

/-- The digest of a text, in hexadecimal digits. -/
def sha256Hex (s : String) : String :=
  String.ofList ((sha256 s.toUTF8.toList).flatMap fun b => Text.hex 2 b.toNat)

end Ordo.Digest
