import ClassLinker.Command.Basic
import ClassLinker.Image.Codec
import ClassLinker.Retrace

/-!
The commands that only read and print: retracing the program counters that the runtime reports, and
summing up an image.
-/

namespace ClassLinker

namespace RetraceCommand

/-- The command. -/
def spec : CommandSpec where
  name := "retrace"
  options := [⟨"pc", "p", none⟩]
  primary := some ⟨"trace-file", true⟩

/-- Reads the trace at a path. -/
def readTrace (t : FileTree) (path : Text) : Except Error TraceTable :=
  match t.read path with
  | .ok data => (TraceTable.read data).mapError (.within path)
  | .error e => .error (if e.op = .reading then .within path e.toError else e.toError)

/-- Prints the entries of the pcs in a report. -/
def report (table : TraceTable) (pcs : Text) : CommandM Unit := do
  let (shown, failure) := table.report (← CommandM.ofExcept (Retrace.readPcs pcs))
  CommandM.print shown
  match failure with
  | none => return ()
  | some e => CommandM.fail e

/-- Retraces the pcs that are given, or else those on the lines of the input. -/
def run (s : Surroundings) (a : Arguments) : CommandM Unit := do
  let table ← CommandM.ofExcept (readTrace (← CommandM.files) a.primary)
  if a.option "pc" ≠ [] then report table (a.option "pc")
  else
    let input := Text.readLines s.input
    input.lines.forM (report table)
    if input.tooLong then CommandM.fail (.plain Text.tooLongMessage)

end RetraceCommand

namespace DumpCommand

/-- The command. -/
def spec : CommandSpec where
  name := "dump"
  primary := some ⟨"image", true⟩

/-- Reads the image at a path. -/
def readImage (t : FileTree) (path : Text) : Except Error Image := do
  let data ← (t.read path).mapError FileError.toError
  match Image.decode? data with
  | some i => .ok i
  | none => .error (.plain "emit: unmarshal image:")

/-- The widths of the columns of a table. -/
def columnWidths (rows : List (List Text)) : List Nat :=
  rows.foldl (fun widths row =>
    let own := row.map Markup.width
    own.zipIdx.map fun (w, i) => max w (widths.getD i 0)) []

/-- A row with its cells filled up to the widths of their columns. -/
def tableRow (style : Text) (widths : List Nat) (row : List Text) : Text :=
  Text.join (Markup.paint "90" " | ") ((row.zip widths).map fun (cell, w) =>
    Markup.paint style (Markup.render (Markup.fill w cell)))

/-- A table under its heading. -/
def table (heading : List Text) (rows : List (List Text)) : Text :=
  let widths := columnWidths (heading :: rows)
  Look.line (Text.join "\n" (tableRow "96" widths heading :: rows.map (tableRow "39" widths)))

/-- The heading of the table of classes. -/
def heading : List Text := ["ID", "Class", "Kind", "Super", "Size", "Methods", "Fields", "Refs"]

/-- The row of a class. -/
def row (c : Image.ClassInfo) : List Text :=
  [Text.ofInt c.id, c.name, c.kind, Text.ofInt c.super, Text.ofInt c.instanceSize,
    Text.ofNat c.methods.length, Text.ofNat c.fields.length, Text.ofNat c.memberRefs.length]

/-- Sums up an image. -/
def run (a : Arguments) : CommandM Unit := do
  let i ← CommandM.ofExcept (readImage (← CommandM.files) a.primary)
  CommandM.tell "Image" i.buildId
  CommandM.tell "Entry" (i.entry ++ " at 0x" ++ Text.hexWord i.entryOffset)
  CommandM.tell "Code" (Text.ofNat i.code.length ++ " bytes, " ++ Text.ofInt i.staticSize ++
    " static slots, " ++ Text.ofNat i.signatures.length ++ " signatures")
  CommandM.print (table heading (i.classes.map row))
  if i.initOrder ≠ [] then
    CommandM.tell "Init Order" ("[" ++ Text.join " " i.initOrder ++ "]")

end DumpCommand

end ClassLinker
