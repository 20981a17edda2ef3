import ClassLinker.Descriptor.FieldType
import ClassLinker.Numeric

/-!
Method types and their descriptors: the parameter types between parentheses, then the result type
or `V` for a method without a result.
-/

namespace ClassLinker

/-- The parameter and result types of a method. -/
structure MethodType where
  params : List FieldType
  result : Option FieldType
deriving DecidableEq, Repr

namespace MethodType

/-- The descriptor of a result: `V` when there is none. -/
def renderResult : Option FieldType → Text
  | none => [Text.byte 'V']
  | some t => t.render

/-- The descriptor of a method type. -/
def render (m : MethodType) : Text :=
  Text.byte '(' :: (m.params.flatMap FieldType.render ++ Text.byte ')' :: renderResult m.result)

/-- Takes parameter types off the front of a text up to the closing parenthesis. Every type takes
at least one byte, so `fuel` above the length of the text never runs out. -/
def readParams : Nat → Text → Except DescriptorFault (List FieldType × Text)
  | 0, _ => .error .unclosedParameters
  | _ + 1, [] => .error .unclosedParameters
  | fuel + 1, b :: t =>
    if b = Text.byte ')' then .ok ([], t)
    else
      match FieldType.read (b :: t) with
      | .error fault => .error fault
      | .ok (param, rest) =>
        match readParams fuel rest with
        | .error fault => .error fault
        | .ok (params, rest) => .ok (param :: params, rest)

/-- Reads the result type that ends a descriptor. -/
def readResult (t : Text) : Except DescriptorFault (Option FieldType) :=
  if t = [Text.byte 'V'] then .ok none
  else
    match FieldType.read t with
    | .error fault => .error fault
    | .ok (type, []) => .ok (some type)
    | .ok (_, _ :: _) => .error .trailingData

/-- Reads what a method descriptor says, or what is wrong with it. -/
def readFault : Text → Except DescriptorFault MethodType
  | [] => .error .noParameterList
  | b :: t =>
    if b = Text.byte '(' then
      match readParams (t.length + 1) t with
      | .error fault => .error fault
      | .ok (params, rest) =>
        match readResult rest with
        | .error fault => .error fault
        | .ok result => .ok { params, result }
    else .error .noParameterList

/-- Reads a method descriptor. -/
def read (t : Text) : Except DescriptorError MethodType :=
  match readFault t with
  | .ok m => .ok m
  | .error fault => .error { text := t, fault }

/-- The local variables that the arguments of a method take, its receiver included. -/
def argSlots (m : MethodType) (isStatic : Bool) : Nat :=
  (if isStatic then 0 else 1) + total (m.params.map FieldType.size)

end MethodType

end ClassLinker
