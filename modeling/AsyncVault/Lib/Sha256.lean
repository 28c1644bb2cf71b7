/-
AsyncVault/Lib/Sha256.lean

SHA-256 on byte strings, as an executable function.

Statements about hashed structures take the hash function as a parameter; this
is the function to run them with.  Words are `BitVec 32`, the message schedule
is a window of sixteen words that moves on by one word a round, and everything
is structurally recursive, so that the kernel evaluates a digest.
-/
import AsyncVault.Lib.Bytes

namespace Sha256

open Bytes

abbrev Word := BitVec 32

/-! ### Constants -/

/-- The 64 constants of a block, one a round. -/
def roundConstants : List Word :=
  [0x428a2f98, 0x71374491, 0xb5c0fbcf, 0xe9b5dba5, 0x3956c25b, 0x59f111f1, 0x923f82a4, 0xab1c5ed5,
   0xd807aa98, 0x12835b01, 0x243185be, 0x550c7dc3, 0x72be5d74, 0x80deb1fe, 0x9bdc06a7, 0xc19bf174,
   0xe49b69c1, 0xefbe4786, 0x0fc19dc6, 0x240ca1cc, 0x2de92c6f, 0x4a7484aa, 0x5cb0a9dc, 0x76f988da,
   0x983e5152, 0xa831c66d, 0xb00327c8, 0xbf597fc7, 0xc6e00bf3, 0xd5a79147, 0x06ca6351, 0x14292967,
   0x27b70a85, 0x2e1b2138, 0x4d2c6dfc, 0x53380d13, 0x650a7354, 0x766a0abb, 0x81c2c92e, 0x92722c85,
   0xa2bfe8a1, 0xa81a664b, 0xc24b8b70, 0xc76c51a3, 0xd192e819, 0xd6990624, 0xf40e3585, 0x106aa070,
   0x19a4c116, 0x1e376c08, 0x2748774c, 0x34b0bcb5, 0x391c0cb3, 0x4ed8aa4a, 0x5b9cca4f, 0x682e6ff3,
   0x748f82ee, 0x78a5636f, 0x84c87814, 0x8cc70208, 0x90befffa, 0xa4506ceb, 0xbef9a3f7, 0xc67178f2]

/-- The eight working words. -/
structure Working where
  a : Word
  b : Word
  c : Word
  d : Word
  e : Word
  f : Word
  g : Word
  h : Word

/-- The words before the first block. -/
def initialValue : Working :=
  { a := 0x6a09e667, b := 0xbb67ae85, c := 0x3c6ef372, d := 0xa54ff53a
    e := 0x510e527f, f := 0x9b05688c, g := 0x1f83d9ab, h := 0x5be0cd19 }

/-! ### One block -/

/-- Mixes the second word of a window, for the next word of the schedule. -/
def smallSigma0 (x : Word) : Word := x.rotateRight 7 ^^^ x.rotateRight 18 ^^^ (x >>> 3)

/-- Mixes the fifteenth word of a window. -/
def smallSigma1 (x : Word) : Word := x.rotateRight 17 ^^^ x.rotateRight 19 ^^^ (x >>> 10)

/-- Mixes the first working word. -/
def bigSigma0 (x : Word) : Word := x.rotateRight 2 ^^^ x.rotateRight 13 ^^^ x.rotateRight 22

/-- Mixes the fifth. -/
def bigSigma1 (x : Word) : Word := x.rotateRight 6 ^^^ x.rotateRight 11 ^^^ x.rotateRight 25

/-- Bit by bit, `y` where `x` is set and `z` elsewhere. -/
def choose (x y z : Word) : Word := (x &&& y) ^^^ (~~~x &&& z)

/-- Bit by bit, what at least two of three are. -/
def majority (x y z : Word) : Word := (x &&& y) ^^^ (x &&& z) ^^^ (y &&& z)

/-- One round, with its constant and its word of the schedule. -/
def round (s : Working) (k w : Word) : Working :=
  let t₁ := s.h + bigSigma1 s.e + choose s.e s.f s.g + k + w
  let t₂ := bigSigma0 s.a + majority s.a s.b s.c
  { a := t₁ + t₂, b := s.a, c := s.b, d := s.c, e := s.d + t₁, f := s.e, g := s.f, h := s.g }

/-- The word that follows a window of sixteen in the schedule. -/
def nextWord (window : List Word) : Word :=
  match window with
  | w₀ :: w₁ :: _ :: _ :: _ :: _ :: _ :: _ :: _ :: w₉ :: _ :: _ :: _ :: _ :: w₁₄ :: _ =>
    smallSigma1 w₁₄ + w₉ + smallSigma0 w₁ + w₀
  | _ => 0

/-- Rounds over a list of constants, the window moving on with each. -/
def rounds : List Word → Working → List Word → Working
  | k :: ks, s, w :: window => rounds ks (round s k w) (window ++ [nextWord (w :: window)])
  | _, s, _ => s

/-- A block mixed into the words: the rounds on top of where they started. -/
def compress (s : Working) (block : List Word) : Working :=
  let r := rounds roundConstants s block
  { a := s.a + r.a, b := s.b + r.b, c := s.c + r.c, d := s.d + r.d
    e := s.e + r.e, f := s.f + r.f, g := s.g + r.g, h := s.h + r.h }

/-! ### A message -/

/-- The message, a one bit, zeros up to a multiple of 64 bytes less eight, the length in bits. -/
def pad (message : List Byte) : List Byte :=
  message ++ 0x80 :: (List.replicate ((119 - message.length % 64) % 64) 0
    ++ bigEndian 8 (8 * message.length))

/-- The message four bytes at a time, most significant byte first. -/
def words : List Byte → List Word
  | a :: b :: c :: d :: rest => (a ++ b ++ c ++ d) :: words rest
  | _ => []

/-- Compress `n` blocks of sixteen words. -/
def absorb : ℕ → Working → List Word → Working
  | 0, s, _ => s
  | n + 1, s, ws => absorb n (compress s (ws.take 16)) (ws.drop 16)

/-- The digest: all blocks absorbed, the eight words one behind the other. -/
def hash (message : List Byte) : BitVec 256 :=
  let ws := words (pad message)
  let s := absorb (ws.length / 16) initialValue ws
  s.a ++ s.b ++ s.c ++ s.d ++ s.e ++ s.f ++ s.g ++ s.h

-- the standard's test message
example : hash (ascii "abc") =
    0xba7816bf8f01cfea414140de5dae2223b00361a396177a9cb410ff61f20015ad := by decide +kernel

end Sha256
