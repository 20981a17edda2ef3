import ClassLinker.Files.Tree
import ClassLinker.Image.Build
import ClassLinker.Image.Header
import ClassLinker.Image.Trace

/-!
Writing an image and the files beside it. Everything is rendered before the first file is touched,
and the files are written one after the other; a file that cannot be written leaves those before it.
-/

namespace ClassLinker

/-- Where the image, its trace and its header go. An empty path stands for a file that is not
wanted. -/
structure OutputPaths where
  image : Text
  trace : Text
  header : Text
deriving DecidableEq, Repr

namespace OutputPaths

/-- The wanted files and their contents. -/
def render (paths : OutputPaths) (i : Image) : List (Text × Bytes) :=
  [(paths.image, i.encode), (paths.trace, i.trace), (paths.header, i.header)].filter fun file =>
    file.1 ≠ []

/-- Writes one file, into a folder that is made if it does not exist. -/
def writeFile (path : Text) (data : Bytes) : FileM Unit := do
  if Path.folder path ≠ Path.here then FileM.makeFolders (Path.folder path)
  FileM.write path data

/-- Writes the wanted files of an image. -/
def write (paths : OutputPaths) (i : Image) : FileM Unit :=
  (paths.render i).forM fun (path, data) => writeFile path data

end OutputPaths

end ClassLinker
