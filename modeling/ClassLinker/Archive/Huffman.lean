import ClassLinker.Numeric

/-!
Canonical Huffman codes. A code is given by the lengths of its codewords: shorter codewords come
before longer ones, and among those of one length the order is that of the symbols. Codewords are
kept with their bits in the order in which they arrive, the first bit lowest.
-/

namespace ClassLinker

/-- The codeword of a symbol. -/
structure Codeword where
  length : Nat
  bits : Nat
  symbol : Nat
deriving DecidableEq, Repr

/-- A Huffman code. -/
structure HuffmanCode where
  /-- How many bits are looked at first. -/
  least : Nat
  words : List Codeword
deriving DecidableEq, Repr

namespace HuffmanCode

/-- The greatest length of a codeword. -/
def maxLength : Nat := 15

/-- The lowest bits of a number in the opposite order. -/
def reverseBits : Nat → Nat → Nat
  | 0, _ => 0
  | n + 1, bits => bits % 2 * twoPow n + reverseBits n (bits / 2)

/-- The symbols with codewords of a given length. -/
def symbolsOf (lengths : List Nat) (length : Nat) : List Nat :=
  lengths.zipIdx.filterMap fun (l, symbol) => if l = length then some symbol else none

/-- The codewords of the lengths from `length` on, of which the first is `next`, and the number
after the last one. -/
def assign (lengths : List Nat) : Nat → Nat → Nat → List Codeword × Nat
  | 0, _, next => ([], next)
  | fuel + 1, length, next =>
    let symbols := symbolsOf lengths length
    let words := symbols.zipIdx.map fun (symbol, i) =>
      ⟨length, reverseBits length (next + i), symbol⟩
    let stop := next + symbols.length
    let (rest, last) := assign lengths fuel (length + 1) (if fuel = 0 then stop else 2 * stop)
    (words ++ rest, last)

/-- The code with given codeword lengths; a length of 0 is a symbol without a codeword. The
codewords have to use up all bit sequences, except that a code may have a single codeword of one
bit, or none at all. -/
def ofLengths? (lengths : List Nat) : Option HuffmanCode :=
  let used := lengths.filter (· ≠ 0)
  match used.min?, used.max? with
  | some least, some greatest =>
    let (words, stop) := assign lengths greatest 1 0
    if stop = twoPow greatest || (stop = 1 && greatest = 1) then some ⟨least, words⟩ else none
  | _, _ => some ⟨0, []⟩

/-- The codeword that some bits start with. -/
def find? (c : HuffmanCode) (bits : Nat) : Option Codeword :=
  c.words.find? fun w => bits % twoPow w.length = w.bits

end HuffmanCode

end ClassLinker
