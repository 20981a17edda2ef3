import ClassLinker.Image.Basic
import ClassLinker.Image.Constant

/-!
The C header of an image: a constant for the id of every class and for the link id of every method,
and the declarations of the native functions.
-/

namespace ClassLinker.Image

/-- The definition of a C constant. -/
def definition (name : Text) (value : Int) : Text :=
  ("#define " : Text) ++ name ++ " " ++ Text.ofInt value ++ "\n"

/-- The definition of a class id. -/
def ClassInfo.idDefinition (c : ClassInfo) : Text := definition (classConstant c.name) c.id

/-- The definitions of the link ids of a class's methods. -/
def ClassInfo.linkDefinitions (c : ClassInfo) : Text :=
  c.methods.flatMap fun m => definition (linkConstant c.name m.name m.descriptor) m.linkId

/-- The declarations of the native functions, after a blank line if there are any. -/
def nativeDeclarations (i : Image) : Text :=
  if i.natives.isEmpty then []
  else ("\n" : Text) ++ i.natives.flatMap fun n => n.declaration ++ ("\n" : Text)

/-- The C header of an image. -/
def header (i : Image) : Text :=
  ("/* generated by jvmlink, image " : Text) ++ i.buildId ++ " */\n" ++
    "#ifndef JVMLINK_IDS_H\n#define JVMLINK_IDS_H\n\n" ++
    i.classes.flatMap ClassInfo.idDefinition ++ "\n" ++
    i.classes.flatMap ClassInfo.linkDefinitions ++ i.nativeDeclarations ++ "\n#endif\n"

end ClassLinker.Image
