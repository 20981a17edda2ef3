import ClassLinker.Cbor.Item

/-!
Reading data items. A document is one item and nothing after it. Items nest at most 32 levels deep.
A reader may limit how many elements an array and how many pairs a map has, by default to 131072;
lengths may be left open until a break. Whether texts are UTF-8 is not looked at here.
-/

namespace ClassLinker.Cbor

/-- How deep items may nest. Arrays and maps are levels, and so is a tag inside a tag. -/
def maxDepth : Nat := 32

/-- The greatest number of elements of an array and of pairs of a map, unless a reader is told
otherwise. -/
def maxElements : Nat := 131072

/-- Whether a number of elements is more than a limit allows, if there is one. -/
def exceeds (limit : Option Nat) (n : Nat) : Bool :=
  match limit with
  | some most => most < n
  | none => false

/-- The head of an item. An open length has no argument. -/
structure Head where
  major : Nat
  info : Nat
  argument : Option Nat
deriving DecidableEq, Repr

/-- The byte that ends an item of open length. -/
def breakByte : UInt8 := 0xFF

/-- Takes a number of bytes, if there are so many. -/
def takeBytes? (n : Nat) (data : Bytes) : Option (Bytes × Bytes) :=
  let taken := data.take n
  if taken.length < n then none else some (taken, data.drop n)

/-- Reads the head of an item. -/
def readHead : Bytes → Option (Head × Bytes)
  | [] => none
  | first :: data =>
    let major := first.toNat / 32
    let info := first.toNat % 32
    let wide (width : Nat) : Option (Head × Bytes) :=
      (takeBytes? width data).map fun (bytes, rest) => (⟨major, info, some (bigEndian bytes)⟩, rest)
    if info < 24 then some (⟨major, info, some info⟩, data)
    else if info = 24 then
      match wide 1 with
      | some (head, rest) =>
        if major = 7 && head.argument.getD 0 < 32 then none else some (head, rest)
      | none => none
    else if info = 25 then wide 2
    else if info = 26 then wide 4
    else if info = 27 then wide 8
    else if info = 31 && 2 ≤ major && major ≤ 5 then some (⟨major, info, none⟩, data)
    else none

/-- Reads the chunks of a string of open length up to the break. Each has the string's own major
type and a length; a chunk takes at least one byte. -/
def readChunks (major : Nat) : Nat → Bytes → Option (List Bytes × Bytes)
  | 0, _ => none
  | _ + 1, [] => none
  | fuel + 1, first :: data =>
    if first = breakByte then some ([], data)
    else do
      let (head, rest) ← readHead (first :: data)
      if head.major ≠ major then none
      let (chunk, rest) ← takeBytes? (← head.argument) rest
      let (chunks, rest) ← readChunks major fuel rest
      return (chunk :: chunks, rest)

/-- The item of a head of major type 7. -/
def primitive (info argument : Nat) : Item :=
  if info = 25 then .float (FloatBits.widen .half argument)
  else if info = 26 then .float (FloatBits.widen .single argument)
  else if info = 27 then .float argument.toUInt64
  else .simple argument

mutual

/-- Reads one item at a depth. Every call takes a byte or is one of a list of items of which each
takes a byte, so `fuel` of twice the length of the data is enough, and without a limit no more
elements are left to read than there are bytes. -/
def readItem (limit : Option Nat) : Nat → Nat → Bytes → Option (Item × Bytes)
  | 0, _, _ => none
  | fuel + 1, depth, data => do
    let (head, rest) ← readHead data
    match head.major, head.argument with
    | 0, some n => return (.unsigned n, rest)
    | 1, some n => return (.negative n, rest)
    | 2, some n =>
      let (bytes, rest) ← takeBytes? n rest
      return (.bytes bytes, rest)
    | 2, none =>
      let (chunks, rest) ← readChunks 2 (fuel + 1) rest
      return (.bytes chunks.flatten, rest)
    | 3, some n =>
      let (bytes, rest) ← takeBytes? n rest
      return (.text [bytes], rest)
    | 3, none =>
      let (chunks, rest) ← readChunks 3 (fuel + 1) rest
      return (.text chunks, rest)
    | 4, some n =>
      if maxDepth ≤ depth || exceeds limit n then none
      let (items, rest) ← readItems limit fuel (depth + 1) n rest
      return (.array items, rest)
    | 4, none =>
      if maxDepth ≤ depth then none
      let (items, rest) ← readOpen limit fuel (depth + 1) (limit.getD rest.length) rest
      return (.array items, rest)
    | 5, some n =>
      if maxDepth ≤ depth || exceeds limit n then none
      let (entries, rest) ← readItems limit fuel (depth + 1) (2 * n) rest
      return (.map entries, rest)
    | 5, none =>
      if maxDepth ≤ depth then none
      let (entries, rest) ← readOpen limit fuel (depth + 1) (2 * limit.getD rest.length) rest
      if entries.length % 2 = 1 then none
      return (.map entries, rest)
    | 6, some tag =>
      let inner := if (rest.head?.map fun b => b.toNat / 32) = some 6 then depth + 1 else depth
      if maxDepth < inner then none
      let (item, rest) ← readItem limit fuel inner rest
      return (.tagged tag item, rest)
    | _, some n => return (primitive head.info n, rest)
    | _, none => none

/-- Reads a number of items. -/
def readItems (limit : Option Nat) : Nat → Nat → Nat → Bytes → Option (List Item × Bytes)
  | 0, _, _, _ => none
  | _ + 1, _, 0, data => some ([], data)
  | fuel + 1, depth, n + 1, data => do
    let (item, rest) ← readItem limit fuel depth data
    let (items, rest) ← readItems limit fuel depth n rest
    return (item :: items, rest)

/-- Reads at most `room` items up to a break. -/
def readOpen (limit : Option Nat) : Nat → Nat → Nat → Bytes → Option (List Item × Bytes)
  | 0, _, _, _ => none
  | _ + 1, _, _, [] => none
  | fuel + 1, depth, room, first :: data =>
    if first = breakByte then some ([], data)
    else
      match room with
      | 0 => none
      | room + 1 => do
        let (item, rest) ← readItem limit fuel depth (first :: data)
        let (items, rest) ← readOpen limit fuel depth room rest
        return (item :: items, rest)

end

/-- Reads a document. -/
def read (limit : Option Nat) (data : Bytes) : Option Item :=
  match readItem limit (2 * data.length + 2) 0 data with
  | some (item, []) => some item
  | _ => none

end ClassLinker.Cbor
