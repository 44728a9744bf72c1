import SpycatcherHarness.Text.Utf8

/-!
# SHA-256

The hash function of the `sha2` crate, on byte strings.  The model takes it as a parameter wherever
a result holds of any hash function; this is the function to instantiate it with.

* `Sha256.length_digest` : a digest has 32 bytes.
-/

namespace SpycatcherHarness

namespace Sha256

/-- The eight words of a hash value. -/
structure Words where
  a : UInt32
  b : UInt32
  c : UInt32
  d : UInt32
  e : UInt32
  f : UInt32
  g : UInt32
  h : UInt32

/-- The words added together, one by one. -/
def Words.add (s t : Words) : Words :=
  ⟨s.a + t.a, s.b + t.b, s.c + t.c, s.d + t.d, s.e + t.e, s.f + t.f, s.g + t.g, s.h + t.h⟩

/-- The initial hash value. -/
def initial : Words :=
  ⟨0x6a09e667, 0xbb67ae85, 0x3c6ef372, 0xa54ff53a,
   0x510e527f, 0x9b05688c, 0x1f83d9ab, 0x5be0cd19⟩

/-- The constants of the 64 rounds. -/
def constants : List UInt32 :=
  [0x428a2f98, 0x71374491, 0xb5c0fbcf, 0xe9b5dba5, 0x3956c25b, 0x59f111f1, 0x923f82a4, 0xab1c5ed5,
   0xd807aa98, 0x12835b01, 0x243185be, 0x550c7dc3, 0x72be5d74, 0x80deb1fe, 0x9bdc06a7, 0xc19bf174,
   0xe49b69c1, 0xefbe4786, 0x0fc19dc6, 0x240ca1cc, 0x2de92c6f, 0x4a7484aa, 0x5cb0a9dc, 0x76f988da,
   0x983e5152, 0xa831c66d, 0xb00327c8, 0xbf597fc7, 0xc6e00bf3, 0xd5a79147, 0x06ca6351, 0x14292967,
   0x27b70a85, 0x2e1b2138, 0x4d2c6dfc, 0x53380d13, 0x650a7354, 0x766a0abb, 0x81c2c92e, 0x92722c85,
   0xa2bfe8a1, 0xa81a664b, 0xc24b8b70, 0xc76c51a3, 0xd192e819, 0xd6990624, 0xf40e3585, 0x106aa070,
   0x19a4c116, 0x1e376c08, 0x2748774c, 0x34b0bcb5, 0x391c0cb3, 0x4ed8aa4a, 0x5b9cca4f, 0x682e6ff3,
   0x748f82ee, 0x78a5636f, 0x84c87814, 0x8cc70208, 0x90befffa, 0xa4506ceb, 0xbef9a3f7, 0xc67178f2]

/-- `ROTR`. -/
def rotr (n x : UInt32) : UInt32 := x >>> n ||| x <<< (32 - n)

/-- One round, with its constant and its word of the message schedule. -/
def round (s : Words) (k w : UInt32) : Words :=
  let sum1 := rotr 6 s.e ^^^ rotr 11 s.e ^^^ rotr 25 s.e
  let ch := (s.e &&& s.f) ^^^ (~~~s.e &&& s.g)
  let t1 := s.h + sum1 + ch + k + w
  let sum0 := rotr 2 s.a ^^^ rotr 13 s.a ^^^ rotr 22 s.a
  let maj := (s.a &&& s.b) ^^^ (s.a &&& s.c) ^^^ (s.b &&& s.c)
  ⟨t1 + (sum0 + maj), s.a, s.b, s.c, s.d + t1, s.e, s.f, s.g⟩

/-- The message schedule, latest word first, extended by `n` words. -/
def extend : ℕ → List UInt32 → List UInt32
  | 0, ws => ws
  | n + 1, ws =>
    let sigma0 (x : UInt32) := rotr 7 x ^^^ rotr 18 x ^^^ (x >>> 3)
    let sigma1 (x : UInt32) := rotr 17 x ^^^ rotr 19 x ^^^ (x >>> 10)
    extend n ((sigma1 (ws.getD 1 0) + ws.getD 6 0 + sigma0 (ws.getD 14 0) + ws.getD 15 0) :: ws)

/-- Bytes as big-endian words. -/
def words : Bytes → List UInt32
  | a :: b :: c :: d :: rest =>
    (a.toUInt32 <<< 24 ||| b.toUInt32 <<< 16 ||| c.toUInt32 <<< 8 ||| d.toUInt32) :: words rest
  | _ => []

/-- The hash value after a block. -/
def compress (s : Words) (block : Bytes) : Words :=
  s.add ((constants.zip (extend 48 (words block).reverse).reverse).foldl
    (fun s (k, w) => round s k w) s)

/-- The `n` low bytes of a number, highest first. -/
def bigEndian : ℕ → ℕ → Bytes
  | 0, _ => []
  | n + 1, m => bigEndian n (m / 256) ++ [UInt8.ofNat m]

@[simp] theorem length_bigEndian (n m : ℕ) : (bigEndian n m).length = n := by
  induction n generalizing m with
  | zero => rfl
  | succ n ih => simp [bigEndian, ih]

/-- A message padded to whole blocks, with its length in bits at the end. -/
def pad (bytes : Bytes) : Bytes :=
  bytes ++ [0x80] ++ List.replicate ((119 - bytes.length % 64) % 64) 0 ++
    bigEndian 8 (8 * bytes.length)

/-- The hash value after all blocks. -/
def hash (bytes : Bytes) : Words := ((pad bytes).toChunks 64).foldl compress initial

/-- `Sha256::digest`. -/
def digest (bytes : Bytes) : Bytes :=
  let s := hash bytes
  [s.a, s.b, s.c, s.d, s.e, s.f, s.g, s.h].flatMap fun w => bigEndian 4 w.toNat

/-- A digest has 32 bytes. -/
theorem length_digest (bytes : Bytes) : (digest bytes).length = 32 := by
  simp [digest]

example : digest [0x61, 0x62, 0x63] =
    [0xba, 0x78, 0x16, 0xbf, 0x8f, 0x01, 0xcf, 0xea, 0x41, 0x41, 0x40, 0xde,
      0x5d, 0xae, 0x22, 0x23, 0xb0, 0x03, 0x61, 0xa3, 0x96, 0x17, 0x7a, 0x9c,
      0xb4, 0x10, 0xff, 0x61, 0xf2, 0x00, 0x15, 0xad] := by
  decide +kernel

end Sha256

end SpycatcherHarness
