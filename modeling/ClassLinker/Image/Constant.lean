import ClassLinker.Text.Basic

/-!
The names of the C constants in the generated header: one for the id of each class and one for the
link id of each method. Bytes that have a meaning in class and member names become underscores.
-/

namespace ClassLinker.Image

/-- The bytes that become underscores in the name of a C constant. -/
def punctuation : List UInt8 := Text.ofString "#/<>()[;."

/-- A text with its punctuation replaced by underscores. -/
def underscored (t : Text) : Text :=
  t.map fun b => if punctuation.contains b then Text.byte '_' else b

/-- The name of the C constant that holds the id of a class. -/
def classConstant (className : Text) : Text := "CLASS_ID_" ++ underscored className

/-- The name of the C constant that holds the link id of a member. -/
def linkConstant (className name descriptor : Text) : Text :=
  "LINK_ID_" ++ underscored (className ++ "#" ++ name ++ "#" ++ descriptor)

end ClassLinker.Image
