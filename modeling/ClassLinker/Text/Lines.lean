import ClassLinker.Text.Basic

/-!
The lines of a text. A newline ends a line, the last line may lack it, and one carriage return
before the end of a line is dropped. A line that does not fit the line buffer together with its
newline stops the reading: the lines before it are given, and that reading stopped is reported.
-/

namespace ClassLinker.Text

/-- The size of the line buffer: a line and its newline have at most this many bytes. -/
def lineLimit : Nat := 65536

/-- A line without the carriage return at its end. -/
def dropReturn (line : Text) : Text :=
  if line.getLast? = some (byte '\r') then line.dropLast else line

/-- The stretches of bytes that newlines end, and the bytes after the last newline unless there
are none. -/
def rawLines (t : Text) : List Text :=
  let parts := splitOn (byte '\n') t
  if parts.getLast? = some [] then parts.dropLast else parts

/-- The lines read from a text, and whether a line too long for the buffer stopped the reading. -/
structure Lines where
  lines : List Text
  tooLong : Bool
deriving DecidableEq, Repr

/-- Reads the lines of a text. -/
def readLines (t : Text) : Lines :=
  let fits := fun line : Text => line.length < lineLimit
  let raw := rawLines t
  { lines := (raw.takeWhile fits).map dropReturn, tooLong := raw.any fun line => !fits line }

/-- What is reported when a line is too long for the buffer. -/
def tooLongMessage : Text := "bufio.Scanner: token too long"

end ClassLinker.Text
