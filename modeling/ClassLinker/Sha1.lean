import ClassLinker.Instruction.Decode

/-!
The secure hash algorithm SHA-1: a message is padded to blocks of 64 bytes, and each block is mixed
into a state of five 32-bit words, whose bytes are the hash.
-/

namespace ClassLinker.Sha1

/-- The state between two blocks. -/
structure State where
  a : UInt32
  b : UInt32
  c : UInt32
  d : UInt32
  e : UInt32
deriving DecidableEq, Repr

/-- The state before the first block. -/
def initial : State := ⟨0x67452301, 0xEFCDAB89, 0x98BADCFE, 0x10325476, 0xC3D2E1F0⟩

/-- Turns a word to the left. -/
def rotate (n : UInt32) (x : UInt32) : UInt32 := (x <<< n) ||| (x >>> (32 - n))

/-- The message followed by a one bit, zeros up to a length of 56 modulo 64, and the number of its
bits in eight bytes. -/
def pad (message : Bytes) : Bytes :=
  let size := message.length
  message ++ 0x80 :: List.replicate ((119 - size % 64) % 64) 0 ++
    (fourBytes (size * 8 / 0x100000000) ++ fourBytes (size * 8))

/-- Cuts the padded message into blocks of 64 bytes. -/
def blocks : Nat → Bytes → List Bytes
  | 0, _ => []
  | n + 1, data => data.take 64 :: blocks n (data.drop 64)

/-- The 32-bit words of a block. -/
def words : Nat → Bytes → List UInt32
  | 0, _ => []
  | n + 1, data => (bigEndian (data.take 4)).toUInt32 :: words n (data.drop 4)

/-- Extends the words of a block, latest first, by one. -/
def extend (ws : List UInt32) : List UInt32 :=
  rotate 1 (ws.getD 2 0 ^^^ ws.getD 7 0 ^^^ ws.getD 13 0 ^^^ ws.getD 15 0) :: ws

/-- The 80 words that a block is mixed in as. -/
def schedule (block : Bytes) : List UInt32 :=
  (Nat.repeat extend 64 (words 16 block).reverse).reverse

/-- The mixing function and the constant of a round. -/
def mix (round : Nat) (b c d : UInt32) : UInt32 × UInt32 :=
  if round < 20 then ((b &&& c) ||| (~~~b &&& d), 0x5A827999)
  else if round < 40 then (b ^^^ c ^^^ d, 0x6ED9EBA1)
  else if round < 60 then ((b &&& c) ||| (b &&& d) ||| (c &&& d), 0x8F1BBCDC)
  else (b ^^^ c ^^^ d, 0xCA62C1D6)

/-- One round. -/
def step (s : State) (round : Nat) (word : UInt32) : State :=
  let (f, k) := mix round s.b s.c s.d
  ⟨rotate 5 s.a + f + s.e + k + word, s.a, rotate 30 s.b, s.c, s.d⟩

/-- Mixes a block into the state. -/
def compress (s : State) (block : Bytes) : State :=
  let t := (schedule block).zipIdx.foldl (fun t (word, round) => step t round word) s
  ⟨s.a + t.a, s.b + t.b, s.c + t.c, s.d + t.d, s.e + t.e⟩

/-- The 20 bytes of the hash of a message. -/
def hash (message : Bytes) : Bytes :=
  let data := pad message
  let s := (blocks (data.length / 64) data).foldl compress initial
  [s.a, s.b, s.c, s.d, s.e].flatMap fun word => fourBytes word.toNat

end ClassLinker.Sha1
