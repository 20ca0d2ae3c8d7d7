import ForgeFlow.Base.GoString

/-!
# SHA-256 and hexadecimal text

The digest of FIPS 180-4, on 32-bit words kept as natural numbers, and the lower
case hexadecimal encoding of a byte string.
-/

namespace ForgeFlow.Base

namespace Sha256

def word (x : Nat) : Nat := x % 2 ^ 32

def rotr (n x : Nat) : Nat := (x >>> n) ||| word (x <<< (32 - n))

def roundConstants : List Nat := [
  0x428a2f98, 0x71374491, 0xb5c0fbcf, 0xe9b5dba5, 0x3956c25b, 0x59f111f1, 0x923f82a4, 0xab1c5ed5,
  0xd807aa98, 0x12835b01, 0x243185be, 0x550c7dc3, 0x72be5d74, 0x80deb1fe, 0x9bdc06a7, 0xc19bf174,
  0xe49b69c1, 0xefbe4786, 0x0fc19dc6, 0x240ca1cc, 0x2de92c6f, 0x4a7484aa, 0x5cb0a9dc, 0x76f988da,
  0x983e5152, 0xa831c66d, 0xb00327c8, 0xbf597fc7, 0xc6e00bf3, 0xd5a79147, 0x06ca6351, 0x14292967,
  0x27b70a85, 0x2e1b2138, 0x4d2c6dfc, 0x53380d13, 0x650a7354, 0x766a0abb, 0x81c2c92e, 0x92722c85,
  0xa2bfe8a1, 0xa81a664b, 0xc24b8b70, 0xc76c51a3, 0xd192e819, 0xd6990624, 0xf40e3585, 0x106aa070,
  0x19a4c116, 0x1e376c08, 0x2748774c, 0x34b0bcb5, 0x391c0cb3, 0x4ed8aa4a, 0x5b9cca4f, 0x682e6ff3,
  0x748f82ee, 0x78a5636f, 0x84c87814, 0x8cc70208, 0x90befffa, 0xa4506ceb, 0xbef9a3f7, 0xc67178f2]

structure Digest where
  a : Nat
  b : Nat
  c : Nat
  d : Nat
  e : Nat
  f : Nat
  g : Nat
  h : Nat

def initialDigest : Digest :=
  ⟨0x6a09e667, 0xbb67ae85, 0x3c6ef372, 0xa54ff53a, 0x510e527f, 0x9b05688c, 0x1f83d9ab, 0x5be0cd19⟩

/-- One round with the scheduled word `w` and the constant `k`. -/
def Digest.round (s : Digest) (k w : Nat) : Digest :=
  let s1 := rotr 6 s.e ^^^ rotr 11 s.e ^^^ rotr 25 s.e
  let ch := (s.e &&& s.f) ^^^ ((2 ^ 32 - 1 - s.e) &&& s.g)
  let t1 := s.h + s1 + ch + k + w
  let s0 := rotr 2 s.a ^^^ rotr 13 s.a ^^^ rotr 22 s.a
  let maj := (s.a &&& s.b) ^^^ (s.a &&& s.c) ^^^ (s.b &&& s.c)
  ⟨word (t1 + s0 + maj), s.a, s.b, s.c, word (s.d + t1), s.e, s.f, s.g⟩

/-- The rounds of a block; the window holds the next sixteen scheduled words. -/
def rounds : List Nat → List Nat → Digest → Digest
  | [], _, s => s
  | _, [], s => s
  | k :: ks, w :: ws, s =>
    let x := ws.getD 0 0
    let y := ws.getD 13 0
    let next := word (w + (rotr 7 x ^^^ rotr 18 x ^^^ (x >>> 3)) + ws.getD 8 0 +
      (rotr 17 y ^^^ rotr 19 y ^^^ (y >>> 10)))
    rounds ks (ws ++ [next]) (s.round k w)

def Digest.add (s t : Digest) : Digest :=
  ⟨word (s.a + t.a), word (s.b + t.b), word (s.c + t.c), word (s.d + t.d), word (s.e + t.e),
    word (s.f + t.f), word (s.g + t.g), word (s.h + t.h)⟩

def bigEndian : List UInt8 → Nat := List.foldl (fun n b => n * 256 + b.toNat) 0

/-- The first `n` pieces of the given size. -/
def blocks (size : Nat) : Nat → List UInt8 → List (List UInt8)
  | 0, _ => []
  | n + 1, s => s.take size :: blocks size n (s.drop size)

/-- The message with its end marker and its length in bits, in whole blocks. -/
def pad (s : GoString) : GoString :=
  let zeros := (119 - s.length % 64) % 64
  s ++ (0x80 : UInt8) :: List.replicate zeros 0 ++
    ((List.range 8).map fun i => UInt8.ofNat ((8 * s.length) >>> (8 * (7 - i))))

end Sha256

open Sha256 in
def sha256 (s : GoString) : GoString :=
  let padded := pad s
  let d := (blocks 64 (padded.length / 64) padded).foldl (fun d block =>
    d.add (rounds roundConstants ((blocks 4 16 block).map bigEndian) d)) initialDigest
  [d.a, d.b, d.c, d.d, d.e, d.f, d.g, d.h].flatMap fun w =>
    (List.range 4).map fun i => UInt8.ofNat (w >>> (8 * (3 - i)))

def hexEncode (s : GoString) : GoString :=
  s.flatMap fun b => [hexDigit (b.toNat / 16), hexDigit (b.toNat % 16)]

example : hexEncode (sha256 (ascii "abc")) =
    ascii "ba7816bf8f01cfea414140de5dae2223b00361a396177a9cb410ff61f20015ad" := by decide +kernel

theorem hexDigit_printable : ∀ n < 16, 0x20 < hexDigit n ∧ hexDigit n < 0x7F := by decide

theorem hexEncode_printable {s : GoString} {b : UInt8} (h : b ∈ hexEncode s) :
    0x20 < b ∧ b < 0x7F := by
  obtain ⟨c, -, hb⟩ := List.mem_flatMap.mp h
  have hc : c.toNat < 256 := c.toNat_lt
  simp only [List.mem_cons, List.not_mem_nil, or_false] at hb
  rcases hb with rfl | rfl
  · exact hexDigit_printable _ (by omega)
  · exact hexDigit_printable _ (by omega)

end ForgeFlow.Base
