/-!
The stream of words that a seed gives: ChaCha with 12 rounds, a 64-bit block counter and a zero
nonce, keyed by eight words of a congruential generator.
-/

namespace LegalEntity.Random

structure Row where
  a : UInt32
  b : UInt32
  c : UInt32
  d : UInt32
  deriving DecidableEq

namespace Row

def map (f : UInt32 → UInt32) (r : Row) : Row := ⟨f r.a, f r.b, f r.c, f r.d⟩

def zip (f : UInt32 → UInt32 → UInt32) (r s : Row) : Row :=
  ⟨f r.a s.a, f r.b s.b, f r.c s.c, f r.d s.d⟩

def rotate (r : Row) : Row := ⟨r.b, r.c, r.d, r.a⟩

def toList (r : Row) : List UInt32 := [r.a, r.b, r.c, r.d]

end Row

def rotateLeft (x n : UInt32) : UInt32 := (x <<< n) ||| (x >>> (32 - n))

structure Block where
  r0 : Row
  r1 : Row
  r2 : Row
  r3 : Row
  deriving DecidableEq

namespace Block

def columns (s : Block) : Block :=
  let half (m n : UInt32) (s : Block) : Block :=
    let r0 := s.r0.zip (· + ·) s.r1
    let r3 := (s.r3.zip (· ^^^ ·) r0).map (rotateLeft · m)
    let r2 := s.r2.zip (· + ·) r3
    let r1 := (s.r1.zip (· ^^^ ·) r2).map (rotateLeft · n)
    ⟨r0, r1, r2, r3⟩
  half 8 7 (half 16 12 s)

def doubleRound (s : Block) : Block :=
  let s := s.columns
  let s : Block := ⟨s.r0, s.r1.rotate, s.r2.rotate.rotate, s.r3.rotate.rotate.rotate⟩
  let s := s.columns
  ⟨s.r0, s.r1.rotate.rotate.rotate, s.r2.rotate.rotate, s.r3.rotate⟩

def rounds : Nat → Block → Block
  | 0, s => s
  | n + 1, s => rounds n s.doubleRound

def output (s : Block) : List UInt32 :=
  let t := rounds 6 s
  (s.r0.zip (· + ·) t.r0).toList ++ (s.r1.zip (· + ·) t.r1).toList
    ++ (s.r2.zip (· + ·) t.r2).toList ++ (s.r3.zip (· + ·) t.r3).toList

def start (k0 k1 : Row) (counter : UInt64) : Block :=
  ⟨⟨0x61707865, 0x3320646e, 0x79622d32, 0x6b206574⟩, k0, k1,
    ⟨counter.toUInt32, (counter >>> 32).toUInt32, 0, 0⟩⟩

end Block

def nextSeed (s : UInt64) : UInt64 := s * 6364136223846793005 + 11634580027462260723

def seedWord (s : UInt64) : UInt32 :=
  let x := (((s >>> 18) ^^^ s) >>> 27).toUInt32
  let n := (s >>> 59).toUInt32
  (x >>> n) ||| (x <<< ((32 - n) % 32))

def keyRows (seed : UInt64) : Row × Row :=
  let s1 := nextSeed seed
  let s2 := nextSeed s1
  let s3 := nextSeed s2
  let s4 := nextSeed s3
  let s5 := nextSeed s4
  let s6 := nextSeed s5
  let s7 := nextSeed s6
  let s8 := nextSeed s7
  (⟨seedWord s1, seedWord s2, seedWord s3, seedWord s4⟩,
    ⟨seedWord s5, seedWord s6, seedWord s7, seedWord s8⟩)

def word (seed : UInt64) (i : Nat) : UInt64 :=
  let (k0, k1) := keyRows seed
  let ws := (Block.start k0 k1 (UInt64.ofNat (i / 8))).output
  let low := ws.getD (2 * (i % 8)) 0
  let high := ws.getD (2 * (i % 8) + 1) 0
  (high.toUInt64 <<< 32) ||| low.toUInt64

/-- The greatest factor that takes the doubles below one to no more than two. -/
def spread : Float := Float.ofBits 0x4000000000000001

def draw (seed : UInt64) (i : Nat) : Float :=
  (Float.ofBits ((0x3FF0000000000000 : UInt64) ||| (word seed i >>> 12)) - 1.0) * spread + (-1.0)

end LegalEntity.Random
