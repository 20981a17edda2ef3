import ClassLinker.Text.Basic

/-!
Paths as texts: names between slashes. These operations only look at the text of a path and know
nothing of the files it may lead to.
-/

namespace ClassLinker.Path

/-- The byte between the names of a path. -/
def slash : UInt8 := Text.byte '/'

/-- The name that stands for the folder it is in. -/
def here : Text := "."

/-- The name that stands for the folder above. -/
def up : Text := ".."

/-- A path is absolute when it starts at the root. -/
def isAbsolute (p : Text) : Bool := p.head? = some slash

/-- Takes names one after the other and goes back over one for each step up; the names taken are
kept latest first. Nothing is above the root, and a relative path keeps the steps that lead out of
it. -/
def reduce (rooted : Bool) : List Text → List Text → List Text
  | taken, [] => taken.reverse
  | taken, name :: names =>
    if name = [] || name = here then reduce rooted taken names
    else if name = up then
      match taken with
      | [] => if rooted then reduce rooted [] names else reduce rooted [up] names
      | last :: rest =>
        if last = up then reduce rooted (up :: taken) names else reduce rooted rest names
    else reduce rooted (name :: taken) names

/-- The shortest path with the same meaning. -/
def clean (p : Text) : Text :=
  let names := reduce (isAbsolute p) [] (Text.splitOn slash p)
  if isAbsolute p then slash :: Text.join [slash] names
  else if names = [] then here
  else Text.join [slash] names

/-- Puts paths one behind the other; empty ones do not count. -/
def join (parts : List Text) : Text :=
  match parts.filter (· ≠ []) with
  | [] => []
  | parts => clean (Text.join [slash] parts)

/-- A path without the name at its end. -/
def dropName (p : Text) : Text := (p.reverse.dropWhile (· ≠ slash)).reverse

/-- The folder that a path is in. -/
def folder (p : Text) : Text := clean (dropName p)

/-- The absolute form of a path in a working directory. -/
def absolute (workDir p : Text) : Text := if isAbsolute p then clean p else join [workDir, p]

end ClassLinker.Path
