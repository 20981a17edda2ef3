import ClassLinker.Error
import ClassLinker.Text.Blank
import ClassLinker.Text.Lines
import ClassLinker.Text.Number

/-!
Retracing: mapping the program counters that the runtime reports back to methods and source lines.
A trace is a text with one entry to a line, the pc, the source line and the method, and the entry of
a pc is the last one at or before it, found by halving the sorted entries.
-/

namespace ClassLinker

/-- One entry of a trace. -/
structure TraceEntry where
  pc : Int
  line : Int
  method : Text
deriving DecidableEq, Repr

namespace TraceEntry

/-- An entry as it is shown: the pc in hexadecimal, the method and the line. -/
def text (e : TraceEntry) : Text :=
  Text.hexWord e.pc ++ "->" ++ e.method ++ ":" ++ Text.ofInt e.line

/-- Reads a number of a trace line. -/
def readNumber (what word : Text) : Except Error Int :=
  (Text.readInt word).mapError fun fault => .within what (.plain (fault.message word))

/-- Reads one trace line; none for a blank line or a heading. -/
def readLine? (line : Text) : Except Error (Option TraceEntry) :=
  let line := Text.trim line
  if line = [] || (Text.ofString "::").isPrefixOf line then .ok none
  else
    match Text.words line with
    | [pc, source, method] => do
      let pc ← readNumber "bad pc" pc
      let line ← readNumber "bad source line" source
      return some { pc, line, method }
    | _ => .error (.plain ("three fields expected, got " ++ Text.quote line))

/-- Reads trace lines, of which the first has number `n`. -/
def readLines : Nat → List Text → Except Error (List TraceEntry)
  | _, [] => .ok []
  | n, line :: lines => do
    let entry ← (readLine? line).mapError (.within ("trace line " ++ Text.ofNat n))
    let entries ← readLines (n + 1) lines
    return entry.toList ++ entries

end TraceEntry

/-- The entries of a trace in the order of their pcs; entries with one pc keep the order in which
the trace lists them. -/
structure TraceTable where
  entries : List TraceEntry
deriving DecidableEq, Repr

namespace TraceTable

/-- Reads a trace. -/
def read (t : Text) : Except Error TraceTable := do
  let input := Text.readLines t
  let entries ← TraceEntry.readLines 1 input.lines
  if input.tooLong then throw (.plain Text.tooLongMessage)
  return ⟨entries.mergeSort fun a b => a.pc ≤ b.pc⟩

/-- The first index from `low` on and below `high` at which a test holds, or `high`, where the test
holds at every index behind one at which it holds. The stretch between the two is halved until it
is empty. -/
def firstIndex (holds : Nat → Bool) (low high : Nat) : Nat :=
  if low < high then
    let middle := (low + high) / 2
    if holds middle then firstIndex holds low middle else firstIndex holds (middle + 1) high
  else low
termination_by high - low

/-- The last entry at or before a pc: the one in front of the first entry after it. -/
def lookup? (table : TraceTable) (pc : Int) : Option TraceEntry :=
  let isAfter (i : Nat) : Bool := table.entries[i]?.any fun e => pc < e.pc
  match firstIndex isAfter 0 table.entries.length with
  | 0 => none
  | i + 1 => table.entries[i]?

/-- Shows the entry of each pc on a line of its own, up to the first pc that has none. -/
def report (table : TraceTable) : List Int → Text × Option Error
  | [] => ([], none)
  | pc :: pcs =>
    match table.lookup? pc with
    | none => ([], some (.plain ("pc " ++ Text.ofInt pc ++ " precedes the first trace entry")))
    | some e =>
      let (rest, failure) := report table pcs
      (e.text ++ "\n" ++ rest, failure)

end TraceTable

namespace Retrace

/-- The part of a text after its last colon. -/
def afterColon (t : Text) : Text := ((Text.splitOn (Text.byte ':') t).getLast?).getD []

/-- The maximal runs of bytes that are neither commas, spaces nor tabs. -/
def tokens (t : Text) : List Text :=
  ((Text.splitOn (Text.byte ',')
    (t.map fun b => if b = Text.byte ' ' || b = Text.byte '\t' then Text.byte ',' else b))).filter
      (· ≠ [])

/-- The pcs of a report of the runtime. Everything up to the last colon is ignored. -/
def readPcs (t : Text) : Except Error (List Int) :=
  (tokens (afterColon t)).mapM fun word =>
    (Text.readInt word).mapError fun _ => .plain ("not a pc: " ++ Text.quote word)

end Retrace

end ClassLinker
