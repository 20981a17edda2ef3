import ClassLinker.Archive.Crc32
import ClassLinker.Archive.Inflate

/-!
Zip archives. A record at the end of an archive says where its directory is; the directory lists the
files, and each file has a header of its own in front of its contents. Archives may have other bytes
in front of them, which shifts all offsets.
-/

namespace ClassLinker

/-- Why an archive or a file in it cannot be read. -/
inductive ZipFault where
  | notZip
  | algorithm
  | checksum
  | ended
  | endedInside
  | negativeOffset
  | packed (cause : InflateFault)
deriving DecidableEq, Repr

namespace ZipFault

/-- The message of a fault. -/
def message : ZipFault → Text
  | notZip => "zip: not a valid zip file"
  | algorithm => "zip: unsupported compression algorithm"
  | checksum => "zip: checksum error"
  | ended => "EOF"
  | endedInside => "unexpected EOF"
  | negativeOffset => "bytes.Reader.ReadAt: negative offset"
  | packed cause => cause.message

end ZipFault

/-- A file as the directory of an archive lists it. -/
structure ZipEntry where
  name : Text
  flags : Nat
  method : Nat
  crc : Nat
  packedSize : Nat
  size : Nat
  /-- Where the header of the file is. -/
  offset : Int
deriving DecidableEq, Repr

/-- The contents of a file in an archive: the bytes that can be read, and the fault that is met
after them unless the file simply ends. -/
structure ZipContents where
  bytes : Bytes
  fault : Option ZipFault
deriving DecidableEq, Repr

namespace Zip

/-- The value of bytes, low byte first. -/
def littleEndian : Bytes → Nat
  | [] => 0
  | b :: bs => b.toNat + 256 * littleEndian bs

/-- The number in `width` bytes from an offset on. -/
def number (data : Bytes) (offset width : Nat) : Nat := littleEndian ((data.drop offset).take width)

/-- Takes bytes off the front. -/
def take (n : Nat) (data : Bytes) : Except ZipFault (Bytes × Bytes) :=
  let taken := data.take n
  if taken.length = n then .ok (taken, data.drop n)
  else .error (if taken = [] then .ended else .endedInside)

/-- The bytes from an offset on, which have to be there. -/
def sliceAt (data : Bytes) (offset : Int) (n : Nat) : Except ZipFault Bytes :=
  if offset < 0 then .error .negativeOffset
  else
    let taken := (data.drop offset.toNat).take n
    if taken.length = n then .ok taken else .error .ended

/-- The size of the record at the end without its comment. -/
def endSize : Nat := 22

/-- The place of the last end record, counted from `n` bytes before the end of the data. -/
def lastEnd (found : Option Nat) (pos : Nat) : Nat → Bytes → Option Nat
  | _, [] => found
  | n, b :: data =>
    let isEnd := endSize ≤ n && (b :: data.take 3) = [0x50, 0x4B, 0x05, 0x06]
    lastEnd (if isEnd then some pos else found) (pos + 1) (n - 1) data

/-- The largest part of an archive, at its end, that the end record is looked for in. -/
def endWindow : Nat := 65 * 1024

/-- What the end record says: where it is, how many files there are, and the size and the place of
the directory. -/
structure EndRecord where
  position : Nat
  count : Nat
  directorySize : Nat
  directoryOffset : Nat
deriving DecidableEq, Repr

/-- Whether a field of four bytes says that its value does not fit into it. -/
def isLarge (n : Nat) : Bool := n = 0xFFFFFFFF

/-- The end record of a large archive, if a locator in front of the end record points to one. -/
def largeEnd (data : Bytes) (e : EndRecord) : Except ZipFault EndRecord :=
  if e.position < 20 then .ok e
  else
    let locator := (data.drop (e.position - 20)).take 20
    if number locator 0 4 ≠ 0x07064b50 || number locator 4 4 ≠ 0 || number locator 16 4 ≠ 1 then
      .ok e
    else do
      let position := number locator 8 8
      if 0x8000000000000000 ≤ position then return e
      let record ← sliceAt data position 56
      if number record 0 4 ≠ 0x06064b50 then throw .notZip
      return ⟨position, number record 32 8, number record 40 8, number record 48 8⟩

/-- Finds the end record. Its comment has to fit into the archive. -/
def findEnd (data : Bytes) (size : Nat) : Except ZipFault EndRecord :=
  let start := size - endWindow
  match lastEnd none start (size - start) (data.drop start) with
  | none => .error .notZip
  | some position =>
    let record := data.drop position
    if size < position + endSize + number record 20 2 then .error .notZip
    else
      let e : EndRecord := ⟨position, number record 10 2, number record 12 4, number record 16 4⟩
      if e.count = 0xFFFF || isLarge e.directorySize || isLarge e.directoryOffset then
        largeEnd data e
      else .ok e

/-- The signed number that 64 bits stand for. -/
def signed (n : Int) : Int := Int.bmod n 0x10000000000000000

/-- Takes the number of eight bytes that stands for a field that is too large. -/
def takeLarge (wanted : Bool) (small : Nat) (data : Bytes) : Except ZipFault (Nat × Bytes) :=
  if !wanted then .ok (small, data)
  else if data.length < 8 then .error .notZip
  else .ok (number data 0 8, data.drop 8)

/-- Takes the sizes and the offset of an entry that do not fit into their fields from its extra
data. Each record of them gives the sizes anew; an offset is given once. -/
def readExtra (wantSize wantPacked : Bool) : Nat → ZipEntry → Bytes → Except ZipFault ZipEntry
  | 0, entry, _ => .ok entry
  | fuel + 1, entry, extra =>
    if extra.length < 4 then .ok entry
    else
      let length := number extra 2 2
      let rest := extra.drop 4
      if rest.length < length then .ok entry
      else if number extra 0 2 = 1 then do
        let (size, body) ← takeLarge wantSize entry.size (rest.take length)
        let (packedSize, body) ← takeLarge wantPacked entry.packedSize body
        let wantOffset : Bool := entry.offset = (0xFFFFFFFF : Int)
        let (far, _) ← takeLarge wantOffset 0 body
        let offset := if wantOffset then signed far else entry.offset
        let entry := { entry with size, packedSize, offset }
        readExtra wantSize wantPacked fuel entry (rest.drop length)
      else readExtra wantSize wantPacked fuel entry (rest.drop length)

/-- Reads an entry of the directory. -/
def readEntry (data : Bytes) : Except ZipFault (ZipEntry × Bytes) := do
  let (head, rest) ← take 46 data
  if number head 0 4 ≠ 0x02014b50 then throw .notZip
  let nameSize := number head 28 2
  let extraSize := number head 30 2
  let (tail, rest) ← take (nameSize + extraSize + number head 32 2) rest
  let entry : ZipEntry := {
    name := tail.take nameSize
    flags := number head 8 2
    method := number head 10 2
    crc := number head 16 4
    packedSize := number head 20 4
    size := number head 24 4
    offset := number head 42 4 }
  let extra := (tail.drop nameSize).take extraSize
  let entry ← readExtra (isLarge entry.size) (isLarge entry.packedSize) extra.length entry extra
  return (entry, rest)

/-- Reads entries up to the first bytes that are none, and says what was met there. -/
def readEntries : Nat → Bytes → List ZipEntry × ZipFault
  | 0, _ => ([], .notZip)
  | fuel + 1, data =>
    match readEntry data with
    | .error fault => ([], fault)
    | .ok (entry, rest) =>
      let (entries, fault) := readEntries fuel rest
      (entry :: entries, fault)

/-- Reads the directory of an archive. The number of files is compared in 16 bits. -/
def entries (data : Bytes) : Except ZipFault (List ZipEntry) := do
  let size := data.length
  let e ← findEnd data size
  if 0x8000000000000000 ≤ e.directorySize || 0x8000000000000000 ≤ e.directoryOffset then
    throw .notZip
  let shift : Int := (e.position : Int) - e.directorySize - e.directoryOffset
  let start := shift + e.directoryOffset
  if start < 0 || (size : Int) ≤ start then throw .notZip
  let shift :=
    if 0 < shift && (readEntry (data.drop e.directoryOffset)).isOk then 0 else shift
  let (listed, fault) := readEntries size (data.drop (shift + e.directoryOffset).toNat)
  if fault = .ended || listed.length % 65536 ≠ e.count % 65536 then throw fault
  return listed.map fun entry => { entry with offset := signed (entry.offset + shift) }

/-- Where the contents of a file start. -/
def contentsOffset (data : Bytes) (entry : ZipEntry) : Except ZipFault Nat := do
  let head ← sliceAt data entry.offset 30
  if number head 0 4 ≠ 0x04034b50 then throw .notZip
  return entry.offset.toNat + 30 + number head 26 2 + number head 28 2

/-- The check in the descriptor behind the contents of a file. -/
def descriptorFault (data : Bytes) (offset : Int) (entry : ZipEntry) (crc : UInt32) :
    Option ZipFault :=
  let found := (data.drop offset.toNat).take 16
  let body := if number found 0 4 = 0x08074b50 then found.drop 4 else found
  if offset < 0 then some .negativeOffset
  else if body.length < 12 then some .endedInside
  else if number body 0 4 ≠ entry.crc || crc.toNat ≠ entry.crc then some .checksum
  else none

/-- Compares contents with what the directory says of them. A file that is larger breaks off at the
size it should have, and a smaller one already with its last byte if that byte comes together with
the end, which it does unless all contents were handed out before. -/
def verify (data : Bytes) (offset : Nat) (entry : ZipEntry) (contents : Bytes) (handedOut : Nat)
    (fault : Option InflateFault) : ZipContents :=
  if entry.size < contents.length then ⟨contents.take entry.size, some .notZip⟩
  else
    match fault with
    | some cause => ⟨contents, some (.packed cause)⟩
    | none =>
      if contents.length < entry.size then
        if handedOut < contents.length then ⟨contents.dropLast, some .endedInside⟩
        else ⟨contents, some .endedInside⟩
      else
        let crc := Crc32.checksum contents
        if entry.flags / 8 % 2 = 1 then
          ⟨contents, descriptorFault data (signed (offset + entry.packedSize)) entry crc⟩
        else if entry.crc ≠ 0 && crc.toNat ≠ entry.crc then ⟨contents, some .checksum⟩
        else ⟨contents, none⟩

/-- Opens a file in an archive. -/
def contents (data : Bytes) (entry : ZipEntry) : Except ZipFault ZipContents := do
  let offset ← contentsOffset data entry
  let packed := (data.drop offset).take entry.packedSize
  if entry.method = 0 then return verify data offset entry packed packed.length none
  else if entry.method = 8 then
    let result := inflate packed
    return verify data offset entry result.output result.handedOut result.fault
  else throw .algorithm

end Zip

end ClassLinker
