import R4Recovery.Text
/-!
# Sha256 — the digest of a byte text

The hash behind `std.crypto.hash.sha2.Sha256`: padded blocks of sixteen words, a schedule of sixty-four, one round for
each.
-/
namespace R4
namespace Sha256

/-- The first thirty-two fraction bits of the cube roots of the first sixty-four primes. -/
def constants : List UInt32 :=
  [0x428a2f98, 0x71374491, 0xb5c0fbcf, 0xe9b5dba5, 0x3956c25b, 0x59f111f1, 0x923f82a4, 0xab1c5ed5,
   0xd807aa98, 0x12835b01, 0x243185be, 0x550c7dc3, 0x72be5d74, 0x80deb1fe, 0x9bdc06a7, 0xc19bf174,
   0xe49b69c1, 0xefbe4786, 0x0fc19dc6, 0x240ca1cc, 0x2de92c6f, 0x4a7484aa, 0x5cb0a9dc, 0x76f988da,
   0x983e5152, 0xa831c66d, 0xb00327c8, 0xbf597fc7, 0xc6e00bf3, 0xd5a79147, 0x06ca6351, 0x14292967,
   0x27b70a85, 0x2e1b2138, 0x4d2c6dfc, 0x53380d13, 0x650a7354, 0x766a0abb, 0x81c2c92e, 0x92722c85,
   0xa2bfe8a1, 0xa81a664b, 0xc24b8b70, 0xc76c51a3, 0xd192e819, 0xd6990624, 0xf40e3585, 0x106aa070,
   0x19a4c116, 0x1e376c08, 0x2748774c, 0x34b0bcb5, 0x391c0cb3, 0x4ed8aa4a, 0x5b9cca4f, 0x682e6ff3,
   0x748f82ee, 0x78a5636f, 0x84c87814, 0x8cc70208, 0x90befffa, 0xa4506ceb, 0xbef9a3f7, 0xc67178f2]

structure Words where
  a : UInt32
  b : UInt32
  c : UInt32
  d : UInt32
  e : UInt32
  f : UInt32
  g : UInt32
  h : UInt32

def initial : Words :=
  ⟨0x6a09e667, 0xbb67ae85, 0x3c6ef372, 0xa54ff53a, 0x510e527f, 0x9b05688c, 0x1f83d9ab, 0x5be0cd19⟩

def rotr (x n : UInt32) : UInt32 := (x >>> n) ||| (x <<< (32 - n))

def round (s : Words) (kw : UInt32 × UInt32) : Words :=
  let s1 := rotr s.e 6 ^^^ rotr s.e 11 ^^^ rotr s.e 25
  let ch := (s.e &&& s.f) ^^^ ((~~~ s.e) &&& s.g)
  let t1 := s.h + s1 + ch + kw.1 + kw.2
  let s0 := rotr s.a 2 ^^^ rotr s.a 13 ^^^ rotr s.a 22
  let maj := (s.a &&& s.b) ^^^ (s.a &&& s.c) ^^^ (s.b &&& s.c)
  ⟨t1 + (s0 + maj), s.a, s.b, s.c, s.d + t1, s.e, s.f, s.g⟩

/-- The schedule goes on from its last sixteen words, the latest first. -/
def schedule : Nat → List UInt32 → List UInt32
  | 0, ws => ws
  | n + 1, ws =>
    let w15 := ws.getD 14 0
    let w2 := ws.getD 1 0
    let s0 := rotr w15 7 ^^^ rotr w15 18 ^^^ (w15 >>> 3)
    let s1 := rotr w2 17 ^^^ rotr w2 19 ^^^ (w2 >>> 10)
    schedule n ((ws.getD 15 0 + s0 + ws.getD 6 0 + s1) :: ws)

def beWords : Bytes → List UInt32
  | a :: b :: c :: d :: rest =>
    ((a.toUInt32 <<< 24) ||| (b.toUInt32 <<< 16) ||| (c.toUInt32 <<< 8) ||| d.toUInt32) :: beWords rest
  | _ => []

def compress (s : Words) (block : Bytes) : Words :=
  let t := (constants.zip (schedule 48 (beWords block).reverse).reverse).foldl round s
  ⟨s.a + t.a, s.b + t.b, s.c + t.c, s.d + t.d, s.e + t.e, s.f + t.f, s.g + t.g, s.h + t.h⟩

def beBytes (n : Nat) : Nat → Bytes
  | 0 => []
  | w + 1 => UInt8.ofNat (n / 256 ^ w) :: beBytes n w

/-- A one bit, zeros, and the length in bits up to a whole block. -/
def pad (data : Bytes) : Bytes :=
  data ++ [0x80] ++ List.replicate ((119 - data.length % 64) % 64) 0 ++ beBytes (8 * data.length) 8

def compressAll : Nat → Words → Bytes → Words
  | 0, s, _ => s
  | n + 1, s, data => compressAll n (compress s (data.take 64)) (data.drop 64)

def Words.bytes (s : Words) : Bytes :=
  [s.a, s.b, s.c, s.d, s.e, s.f, s.g, s.h].flatMap (fun w => beBytes w.toNat 4)

def hash (data : Bytes) : Bytes := (compressAll ((pad data).length / 64) initial (pad data)).bytes

theorem length_hash (data : Bytes) : (hash data).length = 32 := rfl

example : hash (ascii "abc") =
    [0xba, 0x78, 0x16, 0xbf, 0x8f, 0x01, 0xcf, 0xea, 0x41, 0x41, 0x40, 0xde, 0x5d, 0xae, 0x22, 0x23,
     0xb0, 0x03, 0x61, 0xa3, 0x96, 0x17, 0x7a, 0x9c, 0xb4, 0x10, 0xff, 0x61, 0xf2, 0x00, 0x15, 0xad] := by
  decide +kernel

end Sha256
end R4
