import ClassLinker.ClassDecl

/-!
Sources of classes. A source holds finitely many class declarations and answers each name with the
first declaration of that name, or with an error.

That a class is only ever answered under its own name is built into the type, since it holds for what
a link takes its classes from: a list of declarations, and a class path, which refuses a class file
that declares another name (`ClassPlace.load_source`). A single folder or archive does not check the
name; such a place is a `ClassPlace`, and `ClassPlace.loadClass` loads from it.
-/

namespace ClassLinker

/-- A source of class declarations. It answers a name with a declaration of that very name only. -/
structure Source where
  /-- The declarations, of which the first with a given name counts. -/
  decls : List ClassDecl
  /-- The error for a name that no declaration has. -/
  failure : Text → Error

namespace Source

/-- Looks a class up by its name. -/
def load (s : Source) (name : Text) : Except Error ClassDecl :=
  match s.decls.find? fun d => d.name = name with
  | some d => .ok d
  | none => .error (s.failure name)

/-- The error of a class that a place does not hold. -/
def missing (name place : Text) : Error := .within (name ++ " in " ++ place) .notFound

/-- The source that serves a list of declarations. Of two with one name the later counts. -/
def ofDecls (decls : List ClassDecl) : Source where
  decls := decls.reverse
  failure name := missing name "memory"

/-- A loaded declaration has the name it was asked for. -/
theorem name_of_load {s : Source} {name : Text} {d : ClassDecl} (h : s.load name = .ok d) :
    d.name = name := by
  unfold load at h
  split at h
  · rename_i found hfound
    cases h
    simpa using List.find?_some hfound
  · cases h

/-- A loaded declaration is one of the source's. -/
theorem mem_decls_of_load {s : Source} {name : Text} {d : ClassDecl} (h : s.load name = .ok d) :
    d ∈ s.decls := by
  unfold load at h
  split at h
  · rename_i found hfound
    cases h
    exact List.mem_of_find?_eq_some hfound
  · cases h

end Source

end ClassLinker
