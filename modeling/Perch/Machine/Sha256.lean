/-
SHA-256 as FIPS 180-4 computes it, on natural numbers below `2 ^ 32`.

Proofs about the contracts never look inside the hash; this definition is for
evaluating them on concrete inputs.
-/

import Perch.Machine.BigEndian

namespace Perch.Machine.Sha256

def roundConstants : List Nat :=
  [0x428a2f98, 0x71374491, 0xb5c0fbcf, 0xe9b5dba5, 0x3956c25b, 0x59f111f1, 0x923f82a4, 0xab1c5ed5,
   0xd807aa98, 0x12835b01, 0x243185be, 0x550c7dc3, 0x72be5d74, 0x80deb1fe, 0x9bdc06a7, 0xc19bf174,
   0xe49b69c1, 0xefbe4786, 0x0fc19dc6, 0x240ca1cc, 0x2de92c6f, 0x4a7484aa, 0x5cb0a9dc, 0x76f988da,
   0x983e5152, 0xa831c66d, 0xb00327c8, 0xbf597fc7, 0xc6e00bf3, 0xd5a79147, 0x06ca6351, 0x14292967,
   0x27b70a85, 0x2e1b2138, 0x4d2c6dfc, 0x53380d13, 0x650a7354, 0x766a0abb, 0x81c2c92e, 0x92722c85,
   0xa2bfe8a1, 0xa81a664b, 0xc24b8b70, 0xc76c51a3, 0xd192e819, 0xd6990624, 0xf40e3585, 0x106aa070,
   0x19a4c116, 0x1e376c08, 0x2748774c, 0x34b0bcb5, 0x391c0cb3, 0x4ed8aa4a, 0x5b9cca4f, 0x682e6ff3,
   0x748f82ee, 0x78a5636f, 0x84c87814, 0x8cc70208, 0x90befffa, 0xa4506ceb, 0xbef9a3f7, 0xc67178f2]

def word (n : Nat) : Nat :=
  n % 2 ^ 32

def rotateRight (x n : Nat) : Nat :=
  x >>> n ||| word (x <<< (32 - n))

/-- The next word of the message schedule, from the words so far, newest
first. -/
def nextWord (words : List Nat) : Nat :=
  let x := words.getD 14 0
  let y := words.getD 1 0
  let σ₀ := rotateRight x 7 ^^^ rotateRight x 18 ^^^ x >>> 3
  let σ₁ := rotateRight y 17 ^^^ rotateRight y 19 ^^^ y >>> 10
  word (words.getD 15 0 + σ₀ + words.getD 6 0 + σ₁)

def schedule : Nat → List Nat → List Nat
  | 0, words => words.reverse
  | n + 1, words => schedule n (nextWord words :: words)

structure Chain where
  (a b c d e f g h : Nat)

namespace Chain

def initial : Chain :=
  ⟨0x6a09e667, 0xbb67ae85, 0x3c6ef372, 0xa54ff53a, 0x510e527f, 0x9b05688c, 0x1f83d9ab, 0x5be0cd19⟩

def round (v : Chain) (constant scheduled : Nat) : Chain :=
  let s₁ := rotateRight v.e 6 ^^^ rotateRight v.e 11 ^^^ rotateRight v.e 25
  let choose := v.e &&& v.f ^^^ (0xffffffff - v.e) &&& v.g
  let t₁ := v.h + s₁ + choose + constant + scheduled
  let s₀ := rotateRight v.a 2 ^^^ rotateRight v.a 13 ^^^ rotateRight v.a 22
  let majority := v.a &&& v.b ^^^ v.a &&& v.c ^^^ v.b &&& v.c
  ⟨word (t₁ + s₀ + majority), v.a, v.b, v.c, word (v.d + t₁), v.e, v.f, v.g⟩

def rounds (v : Chain) : List Nat → List Nat → Chain
  | constant :: constants, scheduled :: words => (v.round constant scheduled).rounds constants words
  | _, _ => v

def add (u v : Chain) : Chain :=
  ⟨word (u.a + v.a), word (u.b + v.b), word (u.c + v.c), word (u.d + v.d), word (u.e + v.e),
   word (u.f + v.f), word (u.g + v.g), word (u.h + v.h)⟩

def compress : Nat → Chain → List Nat → Chain
  | 0, v, _ => v
  | n + 1, v, words =>
      compress n (v.add (v.rounds roundConstants (schedule 48 (words.take 16).reverse)))
        (words.drop 16)

def bytes (v : Chain) : List UInt8 :=
  beBytes 4 v.a ++ beBytes 4 v.b ++ beBytes 4 v.c ++ beBytes 4 v.d ++ beBytes 4 v.e ++
    beBytes 4 v.f ++ beBytes 4 v.g ++ beBytes 4 v.h

theorem length_bytes (v : Chain) : v.bytes.length = 32 := by
  simp [bytes]

end Chain

def wordsOf : List UInt8 → List Nat
  | a :: b :: c :: d :: rest => beValue [a, b, c, d] :: wordsOf rest
  | _ => []

def padded (message : List UInt8) : List UInt8 :=
  message ++ [0x80] ++ List.replicate ((119 - message.length % 64) % 64) 0 ++
    beBytes 8 (message.length * 8)

def hash (message : List UInt8) : List UInt8 :=
  let words := wordsOf (padded message)
  (Chain.compress (words.length / 16) .initial words).bytes

theorem length_hash (message : List UInt8) : (hash message).length = 32 :=
  Chain.length_bytes _

set_option maxRecDepth 4096 in
example : beValue (hash [0x61, 0x62, 0x63]) =
    0xba7816bf8f01cfea414140de5dae2223b00361a396177a9cb410ff61f20015ad := by decide

end Perch.Machine.Sha256
