import ClassLinker.Error

/-!
Native methods: the names and prototypes of the C functions that implement them.
-/

namespace ClassLinker

/-- A native method and its position in the table of native methods. -/
structure NativeBinding where
  index : Int
  className : Text
  method : Text
  descriptor : Text
  isStatic : Bool
deriving DecidableEq, Repr

namespace NativeBinding

/-- The name of the C function. -/
def symbol (b : NativeBinding) : Text :=
  "Java_" ++ Text.replaceByte (Text.byte '/') (Text.byte '_') b.className ++ "_" ++ b.method

/-- The C type of a value, given its descriptor or `V`. Values without a type of their own travel as
object references. -/
def cType (descriptor : Text) : Text :=
  if descriptor = ("I" : Text) then "jint"
  else if descriptor = ("J" : Text) then "jlong"
  else if descriptor = ("C" : Text) then "jchar"
  else if descriptor = ("Z" : Text) then "BOOL"
  else if descriptor = ("V" : Text) then "void"
  else if descriptor = ("Ljava/lang/String;" : Text) then "jstring"
  else "jobject"

/-- The declaration of the C function. -/
def declaration (b : NativeBinding) : Except Error Text :=
  match MethodType.read b.descriptor with
  | .error e => .error (.within ("native " ++ b.className ++ "." ++ b.method) (.descriptor e))
  | .ok type =>
    let receiver : Text := if b.isStatic then ", jclass" else ", jobject"
    .ok (("JNIEXPORT " : Text) ++ cType (MethodType.renderResult type.result) ++ " JNICALL " ++
      b.symbol ++ "(JNIEnv *" ++ receiver ++
      type.params.flatMap (fun p => (", " : Text) ++ cType p.render) ++ ");")

end NativeBinding

end ClassLinker
