import ClassLinker.Image.Basic

/-!
The trace of an image: its source lines as a text, which maps the pcs that the runtime reports back
to methods and lines.
-/

namespace ClassLinker.Image

/-- The trace line of a source line. -/
def LineInfo.traceLine (l : LineInfo) : Text :=
  Text.ofInt l.pc ++ "  " ++ Text.ofInt l.line ++ "  " ++ l.method ++ "\n"

/-- The trace of an image: two lines of headings and a line for every source line. -/
def trace (i : Image) : Text :=
  (":: " : Text) ++ i.buildId ++ "\n" ++ ":: PC SourceLine Method\n" ++
    i.lines.flatMap LineInfo.traceLine

end ClassLinker.Image
