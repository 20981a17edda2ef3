import ClassLinker.Numeric
import ClassLinker.Registry.Basic

/-!
Member lookup: a signature is looked up in a class, then in its superclasses from the nearest to the
root, and then in the interfaces of all of these, breadth first.
-/

namespace ClassLinker.Registry

/-- A class and its superclasses up to the root. A superclass is registered before its subclasses,
so `fuel` of at least the number of rows never runs out. -/
def chainFrom (r : Registry) : Nat → Nat → List (Nat × Class)
  | 0, _ => []
  | fuel + 1, row =>
    match r.classAt? row with
    | none => []
    | some c =>
      match r.superOf? c with
      | none => [(row, c)]
      | some parent => (row, c) :: chainFrom r fuel parent

/-- The superclass chain of a class, the class itself first. -/
def chain (r : Registry) (row : Nat) : List (Nat × Class) := r.chainFrom r.rows.size row

/-- The number of interface names that all classes list. -/
def interfaceCount (r : Registry) : Nat := total (r.rows.toList.map fun c => c.interfaces.length)

/-- Looks a signature up in queued interfaces and the interfaces they extend, each once. The names
seen so far are not looked at again, so no more names pass the queue than start in it and are listed
by all classes. -/
def searchInterfaces (r : Registry) (m : Member) : Nat → List Text → List Text →
    Except Error (Nat × Declaration)
  | 0, _, _ => .error (.unresolved m)
  | _ + 1, _, [] => .error (.unresolved m)
  | fuel + 1, seen, name :: queue =>
    if seen.contains name then searchInterfaces r m fuel seen queue
    else
      match r.find? name with
      | none => .error (.internal (.missingInterface m.className name))
      | some row =>
        match r.classAt? row with
        | none => .error (.internal (.missingInterface m.className name))
        | some c =>
          match c.declared? m.sig with
          | some d => .ok (row, d)
          | none => searchInterfaces r m fuel (name :: seen) (queue ++ c.interfaces)

/-- The declaration that a member name stands for, and the row of the class that declares it. -/
def findMember (r : Registry) (m : Member) : Except Error (Nat × Declaration) :=
  match r.find? m.className with
  | none => .error (.internal (.unregisteredLookup m.className))
  | some row =>
    let chain := r.chain row
    match chain.findSome? fun (row, c) => (c.declared? m.sig).map (row, ·) with
    | some found => .ok found
    | none =>
      let queue := chain.flatMap fun (_, c) => c.interfaces
      r.searchInterfaces m (queue.length + r.interfaceCount + 1) [] queue

end ClassLinker.Registry
