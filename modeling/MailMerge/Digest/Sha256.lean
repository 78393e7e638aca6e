import MailMerge.Text.Basic
/-!
# SHA-256

The digest of FIPS 180-4: a message is filled up to whole blocks of sixteen words, each block is
spread into sixty-four words, and each of those turns eight words of state by one round.

Results:
* `toText_length`: a digest is written with sixty-four digits.
-/
namespace MailMerge.Sha256

/-- The words of state. -/
structure State where
  a : UInt32
  b : UInt32
  c : UInt32
  d : UInt32
  e : UInt32
  f : UInt32
  g : UInt32
  h : UInt32
  deriving DecidableEq, Repr

/-- The state before the first block. -/
def start : State :=
  ⟨0x6a09e667, 0xbb67ae85, 0x3c6ef372, 0xa54ff53a, 0x510e527f, 0x9b05688c, 0x1f83d9ab, 0x5be0cd19⟩

/-- The constants of the rounds. -/
def constants : List UInt32 := [
  0x428a2f98, 0x71374491, 0xb5c0fbcf, 0xe9b5dba5, 0x3956c25b, 0x59f111f1, 0x923f82a4, 0xab1c5ed5,
  0xd807aa98, 0x12835b01, 0x243185be, 0x550c7dc3, 0x72be5d74, 0x80deb1fe, 0x9bdc06a7, 0xc19bf174,
  0xe49b69c1, 0xefbe4786, 0x0fc19dc6, 0x240ca1cc, 0x2de92c6f, 0x4a7484aa, 0x5cb0a9dc, 0x76f988da,
  0x983e5152, 0xa831c66d, 0xb00327c8, 0xbf597fc7, 0xc6e00bf3, 0xd5a79147, 0x06ca6351, 0x14292967,
  0x27b70a85, 0x2e1b2138, 0x4d2c6dfc, 0x53380d13, 0x650a7354, 0x766a0abb, 0x81c2c92e, 0x92722c85,
  0xa2bfe8a1, 0xa81a664b, 0xc24b8b70, 0xc76c51a3, 0xd192e819, 0xd6990624, 0xf40e3585, 0x106aa070,
  0x19a4c116, 0x1e376c08, 0x2748774c, 0x34b0bcb5, 0x391c0cb3, 0x4ed8aa4a, 0x5b9cca4f, 0x682e6ff3,
  0x748f82ee, 0x78a5636f, 0x84c87814, 0x8cc70208, 0x90befffa, 0xa4506ceb, 0xbef9a3f7, 0xc67178f2]

/-- A word turned to the right. -/
def rotate (n x : UInt32) : UInt32 := (x >>> n) ||| (x <<< (32 - n))

/-- The message filled up: a single bit, zeros, and its length in bits in the last eight bytes. -/
def fill (m : List UInt8) : List UInt8 :=
  let bits := 8 * m.length
  m ++ (0x80 :: List.replicate ((119 - m.length % 64) % 64) (0 : UInt8)) ++
    (List.range 8).map (fun i => UInt8.ofNat (bits >>> (8 * (7 - i))))

/-- The words of bytes, the first byte of a word being the highest. -/
def words : List UInt8 → List UInt32
  | a :: b :: c :: d :: r =>
    ((a.toUInt32 <<< 24) ||| (b.toUInt32 <<< 16) ||| (c.toUInt32 <<< 8) ||| d.toUInt32) :: words r
  | _ => []

/-- The next word of the schedule, from the words so far, the latest first. -/
def nextWord (ws : List UInt32) : UInt32 :=
  let x := ws.getD 14 0
  let y := ws.getD 1 0
  ws.getD 15 0 + (rotate 7 x ^^^ rotate 18 x ^^^ (x >>> 3)) + ws.getD 6 0 +
    (rotate 17 y ^^^ rotate 19 y ^^^ (y >>> 10))

/-- The words so far, the latest first, with `n` more. -/
def extend : (n : Nat) → List UInt32 → List UInt32
  | 0, ws => ws
  | n + 1, ws => extend n (nextWord ws :: ws)

/-- The sixty-four words of a block. -/
def schedule (block : List UInt32) : List UInt32 := (extend 48 block.reverse).reverse

/-- One round with its constant and word. -/
def round (s : State) (kw : UInt32 × UInt32) : State :=
  let t1 := s.h + (rotate 6 s.e ^^^ rotate 11 s.e ^^^ rotate 25 s.e) +
    ((s.e &&& s.f) ^^^ ((~~~ s.e) &&& s.g)) + kw.1 + kw.2
  let t2 := (rotate 2 s.a ^^^ rotate 13 s.a ^^^ rotate 22 s.a) +
    ((s.a &&& s.b) ^^^ (s.a &&& s.c) ^^^ (s.b &&& s.c))
  ⟨t1 + t2, s.a, s.b, s.c, s.d + t1, s.e, s.f, s.g⟩

/-- The sum of two states, word by word. -/
def State.add (s t : State) : State :=
  ⟨s.a + t.a, s.b + t.b, s.c + t.c, s.d + t.d, s.e + t.e, s.f + t.f, s.g + t.g, s.h + t.h⟩

/-- The state after a block. -/
def absorb (s : State) (block : List UInt32) : State :=
  s.add ((constants.zip (schedule block)).foldl round s)

/-- The state after `n` blocks. -/
def absorbAll : (n : Nat) → State → List UInt32 → State
  | 0, s, _ => s
  | n + 1, s, ws => absorbAll n (absorb s (ws.take 16)) (ws.drop 16)

/-- The state after a message. -/
def digest (m : List UInt8) : State :=
  let ws := words (fill m)
  absorbAll (ws.length / 16) start ws

/-- The words of a state in hexadecimal digits. -/
def State.toText (s : State) : Text :=
  [s.a, s.b, s.c, s.d, s.e, s.f, s.g, s.h].flatMap fun w =>
    (List.range 8).map fun i => Nat.digitChar (w.toNat >>> (4 * (7 - i)) % 16)

theorem toText_length (s : State) : s.toText.length = 64 := rfl

end MailMerge.Sha256
