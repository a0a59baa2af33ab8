import Mathlib.Data.List.Basic
import Mathlib.Data.Nat.Bitwise

/-!
# SHA-256

The hash of FIPS 180-4 over lists of bytes. Words are natural numbers below `2 ^ 32`.
-/

namespace Sha256

def modulus : ℕ := 2 ^ 32

def rotr (n x : ℕ) : ℕ := (x >>> n ||| x <<< (32 - n)) % modulus

def choose (x y z : ℕ) : ℕ := (x &&& y) ^^^ ((modulus - 1 - x) &&& z)

def majority (x y z : ℕ) : ℕ := (x &&& y) ^^^ (x &&& z) ^^^ (y &&& z)

def bigSigma0 (x : ℕ) : ℕ := rotr 2 x ^^^ rotr 13 x ^^^ rotr 22 x
def bigSigma1 (x : ℕ) : ℕ := rotr 6 x ^^^ rotr 11 x ^^^ rotr 25 x
def smallSigma0 (x : ℕ) : ℕ := rotr 7 x ^^^ rotr 18 x ^^^ x >>> 3
def smallSigma1 (x : ℕ) : ℕ := rotr 17 x ^^^ rotr 19 x ^^^ x >>> 10

def roundConstants : List ℕ :=
  [0x428a2f98, 0x71374491, 0xb5c0fbcf, 0xe9b5dba5, 0x3956c25b, 0x59f111f1, 0x923f82a4, 0xab1c5ed5,
    0xd807aa98, 0x12835b01, 0x243185be, 0x550c7dc3, 0x72be5d74, 0x80deb1fe, 0x9bdc06a7, 0xc19bf174,
    0xe49b69c1, 0xefbe4786, 0x0fc19dc6, 0x240ca1cc, 0x2de92c6f, 0x4a7484aa, 0x5cb0a9dc, 0x76f988da,
    0x983e5152, 0xa831c66d, 0xb00327c8, 0xbf597fc7, 0xc6e00bf3, 0xd5a79147, 0x06ca6351, 0x14292967,
    0x27b70a85, 0x2e1b2138, 0x4d2c6dfc, 0x53380d13, 0x650a7354, 0x766a0abb, 0x81c2c92e, 0x92722c85,
    0xa2bfe8a1, 0xa81a664b, 0xc24b8b70, 0xc76c51a3, 0xd192e819, 0xd6990624, 0xf40e3585, 0x106aa070,
    0x19a4c116, 0x1e376c08, 0x2748774c, 0x34b0bcb5, 0x391c0cb3, 0x4ed8aa4a, 0x5b9cca4f, 0x682e6ff3,
    0x748f82ee, 0x78a5636f, 0x84c87814, 0x8cc70208, 0x90befffa, 0xa4506ceb, 0xbef9a3f7, 0xc67178f2]

structure Words where
  (a b c d e f g h : ℕ)

namespace Words

def initial : Words :=
  ⟨0x6a09e667, 0xbb67ae85, 0x3c6ef372, 0xa54ff53a, 0x510e527f, 0x9b05688c, 0x1f83d9ab, 0x5be0cd19⟩

def toList (s : Words) : List ℕ := [s.a, s.b, s.c, s.d, s.e, s.f, s.g, s.h]

/-- One round, with its constant and its word of the schedule. -/
def round (s : Words) (k w : ℕ) : Words :=
  let t₁ := s.h + bigSigma1 s.e + choose s.e s.f s.g + k + w
  let t₂ := bigSigma0 s.a + majority s.a s.b s.c
  ⟨(t₁ + t₂) % modulus, s.a, s.b, s.c, (s.d + t₁) % modulus, s.e, s.f, s.g⟩

def add (s t : Words) : Words :=
  ⟨(s.a + t.a) % modulus, (s.b + t.b) % modulus, (s.c + t.c) % modulus, (s.d + t.d) % modulus,
    (s.e + t.e) % modulus, (s.f + t.f) % modulus, (s.g + t.g) % modulus, (s.h + t.h) % modulus⟩

end Words

/-- `n` more words of the schedule, the latest first. -/
def extend : ℕ → List ℕ → List ℕ
  | 0, ws => ws
  | n + 1, ws => extend n ((smallSigma1 (ws.getD 1 0) + ws.getD 6 0 + smallSigma0 (ws.getD 14 0)
      + ws.getD 15 0) % modulus :: ws)

def compress (s : Words) (block : List ℕ) : Words :=
  s.add ((roundConstants.zip (extend 48 block.reverse).reverse).foldl
    (fun s kw => s.round kw.1 kw.2) s)

/-- A number in `n` bytes, the most significant first. -/
def bigEndian : ℕ → ℕ → List ℕ
  | 0, _ => []
  | n + 1, x => bigEndian n (x / 256) ++ [x % 256]

def pad (bytes : List ℕ) : List ℕ :=
  bytes ++ 0x80 :: List.replicate ((119 - bytes.length % 64) % 64) 0
    ++ bigEndian 8 (8 * bytes.length)

def wordsOf : List ℕ → List ℕ
  | b₀ :: b₁ :: b₂ :: b₃ :: bs => (((b₀ * 256 + b₁) * 256 + b₂) * 256 + b₃) :: wordsOf bs
  | _ => []

/-- The blocks of sixteen words, at most `n` of them. -/
def blocksOf : ℕ → List ℕ → List (List ℕ)
  | 0, _ => []
  | n + 1, ws => if ws = [] then [] else ws.take 16 :: blocksOf n (ws.drop 16)

def digest (bytes : List ℕ) : List ℕ :=
  let words := wordsOf (pad bytes)
  (((blocksOf words.length words).foldl compress .initial).toList).flatMap (bigEndian 4)

/-- The digest in hexadecimal, two digits a byte. -/
def hexdigest (bytes : List ℕ) : List Char :=
  (digest bytes).flatMap fun b => [Nat.digitChar (b / 16), Nat.digitChar (b % 16)]

/-! ## The form of a digest -/

theorem length_bigEndian : ∀ n x : ℕ, (bigEndian n x).length = n
  | 0, _ => rfl
  | n + 1, x => by rw [bigEndian, List.length_append, length_bigEndian n, List.length_singleton]

theorem bigEndian_lt : ∀ {n x b : ℕ}, b ∈ bigEndian n x → b < 256
  | n + 1, x, b, h => by
    rcases List.mem_append.1 h with h | h
    · exact bigEndian_lt h
    · rw [List.mem_singleton] at h
      omega

theorem length_digest (bytes : List ℕ) : (digest bytes).length = 32 := by
  simp [digest, Words.toList, length_bigEndian]

theorem digest_lt {bytes : List ℕ} {b : ℕ} (h : b ∈ digest bytes) : b < 256 := by
  obtain ⟨w, -, hb⟩ := List.mem_flatMap.1 h
  exact bigEndian_lt hb

theorem length_hexdigest (bytes : List ℕ) : (hexdigest bytes).length = 64 := by
  simp [hexdigest, List.length_flatMap, length_digest]

theorem mem_hexdigest {bytes : List ℕ} {c : Char} (h : c ∈ hexdigest bytes) :
    ∃ d < 16, c = Nat.digitChar d := by
  obtain ⟨b, hb, hc⟩ := List.mem_flatMap.1 h
  have hlt := digest_lt hb
  simp only [List.mem_cons, List.not_mem_nil, or_false] at hc
  rcases hc with hc | hc
  · exact ⟨b / 16, by omega, hc⟩
  · exact ⟨b % 16, by omega, hc⟩

set_option maxRecDepth 100000 in
example : String.ofList (hexdigest [97, 98, 99])
    = "ba7816bf8f01cfea414140de5dae2223b00361a396177a9cb410ff61f20015ad" := by decide +kernel

end Sha256
