/-!
# SHA-1

The digest of a message has five words of 32 bits. The message is padded to blocks of 64 bytes
with one bit, zeros, and its length in bits. Each block is stretched to eighty words, and eighty
rounds mix these into the state; the mixed state is added to the one before.
-/

set_option autoImplicit false

namespace Tabula.Sha1

/-! ## State -/

structure State where
  a : UInt32
  b : UInt32
  c : UInt32
  d : UInt32
  e : UInt32
  deriving DecidableEq, Inhabited

namespace State

def initial : State where
  a := 0x67452301
  b := 0xEFCDAB89
  c := 0x98BADCFE
  d := 0x10325476
  e := 0xC3D2E1F0

def add (s t : State) : State where
  a := s.a + t.a
  b := s.b + t.b
  c := s.c + t.c
  d := s.d + t.d
  e := s.e + t.e

end State

/-! ## Words and bytes -/

def rotate (w : UInt32) (bits : UInt32) : UInt32 := w <<< bits ||| w >>> (32 - bits)

def word (a b c d : UInt8) : UInt32 :=
  a.toUInt32 <<< 24 ||| b.toUInt32 <<< 16 ||| c.toUInt32 <<< 8 ||| d.toUInt32

def words : List UInt8 → List UInt32
  | a :: b :: c :: d :: rest => word a b c d :: words rest
  | _ => []

def bytes (w : UInt32) : List UInt8 :=
  [24, 16, 8, 0].map fun (bits : UInt32) => (w >>> bits).toUInt8

/-- A message with its padding: as many bytes as fill up blocks of 64. -/
def padded (message : List UInt8) : List UInt8 :=
  let zeros := (119 - message.length % 64) % 64
  let bits := 8 * message.length
  message ++ [0x80] ++ List.replicate zeros 0 ++
    [56, 48, 40, 32, 24, 16, 8, 0].map fun (shift : Nat) => UInt8.ofNat (bits >>> shift)

/-! ## Rounds -/

/-- Adds `n` words to a schedule whose newest word comes first. -/
def stretch : Nat → List UInt32 → List UInt32
  | 0, ws => ws
  | n + 1, ws =>
      let next := rotate (ws.getD 2 0 ^^^ ws.getD 7 0 ^^^ ws.getD 13 0 ^^^ ws.getD 15 0) 1
      stretch n (next :: ws)

def schedule (block : List UInt32) : List UInt32 := (stretch 64 block.reverse).reverse

def mixing (round : Nat) (b c d : UInt32) : UInt32 × UInt32 :=
  if round < 20 then (b &&& c ||| ~~~b &&& d, 0x5A827999)
  else if round < 40 then (b ^^^ c ^^^ d, 0x6ED9EBA1)
  else if round < 60 then (b &&& c ||| b &&& d ||| c &&& d, 0x8F1BBCDC)
  else (b ^^^ c ^^^ d, 0xCA62C1D6)

def round (s : State) (entry : UInt32 × Nat) : State :=
  let (f, k) := mixing entry.2 s.b s.c s.d
  { a := rotate s.a 5 + f + s.e + k + entry.1, b := s.a, c := rotate s.b 30, d := s.c, e := s.d }

def absorb (s : State) (block : List UInt32) : State :=
  s.add ((schedule block).zipIdx.foldl round s)

def absorbAll : Nat → State → List UInt32 → State
  | 0, s, _ => s
  | n + 1, s, ws => absorbAll n (absorb s (ws.take 16)) (ws.drop 16)

def digest (message : List UInt8) : List UInt8 :=
  let ws := words (padded message)
  let s := absorbAll (ws.length / 16) .initial ws
  [s.a, s.b, s.c, s.d, s.e].flatMap bytes

end Tabula.Sha1
