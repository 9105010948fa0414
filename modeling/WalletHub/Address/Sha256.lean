/-!
# SHA-256

The hash function of FIPS 180-4 on rows of octets. A message is padded to a whole number of
64-octet blocks (`length_pad`); each block is mixed into eight 32-bit words.
-/
namespace WalletHub.Sha256

/-- Fractional parts of the cube roots of the first sixty-four primes. -/
def roundConstants : List UInt32 :=
  [0x428a2f98, 0x71374491, 0xb5c0fbcf, 0xe9b5dba5, 0x3956c25b, 0x59f111f1, 0x923f82a4, 0xab1c5ed5,
   0xd807aa98, 0x12835b01, 0x243185be, 0x550c7dc3, 0x72be5d74, 0x80deb1fe, 0x9bdc06a7, 0xc19bf174,
   0xe49b69c1, 0xefbe4786, 0x0fc19dc6, 0x240ca1cc, 0x2de92c6f, 0x4a7484aa, 0x5cb0a9dc, 0x76f988da,
   0x983e5152, 0xa831c66d, 0xb00327c8, 0xbf597fc7, 0xc6e00bf3, 0xd5a79147, 0x06ca6351, 0x14292967,
   0x27b70a85, 0x2e1b2138, 0x4d2c6dfc, 0x53380d13, 0x650a7354, 0x766a0abb, 0x81c2c92e, 0x92722c85,
   0xa2bfe8a1, 0xa81a664b, 0xc24b8b70, 0xc76c51a3, 0xd192e819, 0xd6990624, 0xf40e3585, 0x106aa070,
   0x19a4c116, 0x1e376c08, 0x2748774c, 0x34b0bcb5, 0x391c0cb3, 0x4ed8aa4a, 0x5b9cca4f, 0x682e6ff3,
   0x748f82ee, 0x78a5636f, 0x84c87814, 0x8cc70208, 0x90befffa, 0xa4506ceb, 0xbef9a3f7, 0xc67178f2]

/-- The eight working words. -/
structure Words where
  a : UInt32
  b : UInt32
  c : UInt32
  d : UInt32
  e : UInt32
  f : UInt32
  g : UInt32
  h : UInt32
  deriving DecidableEq, Repr

/-- Fractional parts of the square roots of the first eight primes. -/
def start : Words :=
  ⟨0x6a09e667, 0xbb67ae85, 0x3c6ef372, 0xa54ff53a, 0x510e527f, 0x9b05688c, 0x1f83d9ab, 0x5be0cd19⟩

/-- Rotation to the right by `0 < n < 32` places. -/
def rotate (x n : UInt32) : UInt32 := (x >>> n) ||| (x <<< (32 - n))

/-- One round of mixing, with the round constant `k` and the schedule word `w`. -/
def round (s : Words) (k w : UInt32) : Words :=
  let s1 := rotate s.e 6 ^^^ rotate s.e 11 ^^^ rotate s.e 25
  let ch := (s.e &&& s.f) ^^^ ((~~~s.e) &&& s.g)
  let t1 := s.h + s1 + ch + k + w
  let s0 := rotate s.a 2 ^^^ rotate s.a 13 ^^^ rotate s.a 22
  let maj := (s.a &&& s.b) ^^^ (s.a &&& s.c) ^^^ (s.b &&& s.c)
  ⟨t1 + (s0 + maj), s.a, s.b, s.c, s.d + t1, s.e, s.f, s.g⟩

/-- The schedule word that follows the last sixteen words, which are oldest first. -/
def nextWord (w : List UInt32) : UInt32 :=
  let w15 := w.getD 1 0
  let w2 := w.getD 14 0
  let s0 := rotate w15 7 ^^^ rotate w15 18 ^^^ (w15 >>> 3)
  let s1 := rotate w2 17 ^^^ rotate w2 19 ^^^ (w2 >>> 10)
  w.getD 0 0 + s0 + w.getD 9 0 + s1

/-- The `n` schedule words from a window of sixteen on. -/
def schedule : Nat → List UInt32 → List UInt32
  | 0, _ => []
  | n + 1, w => w.headD 0 :: schedule n (w.drop 1 ++ [nextWord w])

/-- The sums of corresponding words. -/
def Words.add (x y : Words) : Words :=
  ⟨x.a + y.a, x.b + y.b, x.c + y.c, x.d + y.d, x.e + y.e, x.f + y.f, x.g + y.g, x.h + y.h⟩

/-- Mixes one block of sixteen words into the state. -/
def absorb (s : Words) (block : List UInt32) : Words :=
  s.add ((roundConstants.zip (schedule 64 block)).foldl (fun t kw => round t kw.1 kw.2) s)

/-- The octets of a word, most significant first. -/
def wordBytes (w : UInt32) : List UInt8 :=
  [(w >>> 24).toUInt8, (w >>> 16).toUInt8, (w >>> 8).toUInt8, w.toUInt8]

/-- Groups octets into words, most significant octet first. -/
def toWords : List UInt8 → List UInt32
  | a :: b :: c :: d :: rest =>
    ((a.toUInt32 <<< 24) ||| (b.toUInt32 <<< 16) ||| (c.toUInt32 <<< 8) ||| d.toUInt32)
      :: toWords rest
  | _ => []

/-- The octets of a length in bits, as a 64-bit number. -/
def lengthBytes (octets : Nat) : List UInt8 :=
  let n := UInt64.ofNat (8 * octets)
  ([56, 48, 40, 32, 24, 16, 8, 0] : List UInt64).map fun k => (n >>> k).toUInt8

/-- A one bit, zeros, and the length, so that whole blocks result. -/
def pad (m : List UInt8) : List UInt8 :=
  m ++ [0x80] ++ List.replicate ((119 - m.length % 64) % 64) 0 ++ lengthBytes m.length

/-- Cuts a row of words into blocks of sixteen, at most `n` of them. -/
def blocks : Nat → List UInt32 → List (List UInt32)
  | 0, _ => []
  | n + 1, ws => ws.take 16 :: blocks n (ws.drop 16)

/-- The thirty-two octets of the digest. -/
def digest (m : List UInt8) : List UInt8 :=
  let padded := pad m
  let s := (blocks (padded.length / 64) (toWords padded)).foldl absorb start
  [s.a, s.b, s.c, s.d, s.e, s.f, s.g, s.h].flatMap wordBytes

theorem length_pad (m : List UInt8) : (pad m).length % 64 = 0 := by
  simp only [pad, lengthBytes, List.length_append, List.length_cons, List.length_nil,
    List.length_replicate, List.length_map]
  omega

end WalletHub.Sha256
