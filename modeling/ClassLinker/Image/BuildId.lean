import ClassLinker.Image.Codec
import ClassLinker.Sha1

/-!
Build ids. The id of an image is a name-based universally unique identifier made from the binary
form that the image has without an id, so equal images have equal ids.
-/

namespace ClassLinker.Image

/-- The identifier of the space in which the ids of images are names. -/
def idSpace : Bytes := [87, 175, 124, 213, 121, 40, 84, 17, 188, 25, 111, 136, 90, 118, 140, 189]

/-- The 16 bytes of a name-based identifier: a hash of which six bits say how it was made. -/
def nameId (space name : Bytes) : Bytes :=
  ((Sha1.hash (space ++ name)).take 16).zipIdx.map fun (b, i) =>
    if i = 6 then b &&& 0x0F ||| 0x50 else if i = 8 then b &&& 0x3F ||| 0x80 else b

/-- An identifier as it is shown: hexadecimal digits in five groups. -/
def idText (id : Bytes) : Text :=
  id.zipIdx.flatMap fun (b, i) =>
    (if i = 4 || i = 6 || i = 8 || i = 10 then "-" else "" : Text) ++
      Text.padLeft 2 '0' (Text.hex b.toNat)

/-- The id that belongs to the contents of an image. -/
def contentId (i : Image) : Text := idText (nameId idSpace { i with buildId := [] }.encode)

/-- The image with its id. -/
def withId (i : Image) : Image := { i with buildId := i.contentId }

end ClassLinker.Image
