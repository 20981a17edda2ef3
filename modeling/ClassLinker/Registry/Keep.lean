import ClassLinker.Registry.Basic

/-!
Keeping: marking the classes, members and references that the linked program needs. Marks are never
taken back, and a member or reference is kept only after its class.
-/

namespace ClassLinker.Registry

open RegistryM

/-- Keeps a class. The answer says whether it was not kept before. -/
def keepClass (row : Nat) : RegistryM Bool := do
  checkOpen .keepClass
  let c ← classAt row
  if c.kept then return false
  modify (·.modifyClass row fun c => { c with kept := true })
  return true

/-- Marks the member of a class with a given signature. -/
def markMember (c : Class) (sig : Signature) : Class :=
  if c.methods.any fun m => m.sig = sig then
    { c with methods := c.methods.map fun m => if m.sig = sig then { m with kept := true } else m }
  else
    { c with fields := c.fields.map fun f => if f.sig = sig then { f with kept := true } else f }

/-- Keeps the member that a class declares with a given signature. The answer says whether it was
not kept before. -/
def keepMember (row : Nat) (sig : Signature) : RegistryM Bool := do
  checkOpen .keepMember
  let c ← classAt row
  if !c.kept then inconsistent (.memberBeforeClass (c.member sig))
  if ((c.declared? sig).map Declaration.kept).getD false then return false
  modify (·.modifyClass row fun c => markMember c sig)
  return true

/-- Keeps a reference. The answer says whether it was not kept before. -/
def keepRef (a : RefAddr) : RegistryM Bool := do
  checkOpen .keepReference
  let ref ← refAt a
  let r ← get
  let ownerKept := (((r.byId? ref.owner).bind r.classAt?).map Class.kept).getD false
  if !ownerKept then inconsistent (.referenceBeforeClass ref.owner ref.slot)
  if ref.kept then return false
  modify (·.modifyRef a fun ref => { ref with kept := true })
  return true

/-- Records a class that the code of a method depends on. -/
def addClassDep (row : Nat) (sig : Signature) (a : RefAddr) (r : Registry) : Registry :=
  r.modifyMethod row sig fun m =>
    if m.classDeps.contains a then m else { m with classDeps := m.classDeps ++ [a] }

/-- Records a member that the code of a method refers to. -/
def addMemberDep (row : Nat) (sig : Signature) (a : RefAddr) (r : Registry) : Registry :=
  r.modifyMethod row sig fun m =>
    if m.memberDeps.contains a then m else { m with memberDeps := m.memberDeps ++ [a] }

/-- Records a literal that the code of a method loads. -/
def addLiteralDep (row : Nat) (sig : Signature) (a : RefAddr) (r : Registry) : Registry :=
  r.modifyMethod row sig fun m =>
    if m.literalDeps.contains a then m else { m with literalDeps := m.literalDeps ++ [a] }

/-- Records a primitive array type that the code of a method allocates. -/
def addArrayDep (row : Nat) (sig : Signature) (code : Int) (r : Registry) : Registry :=
  r.modifyMethod row sig fun m =>
    if m.arrayDeps.contains code then m else { m with arrayDeps := m.arrayDeps ++ [code] }

/-- Records a catalog entry that the instructions of a method may trigger. -/
def addBuiltin (row : Nat) (sig : Signature) (id : Int) (r : Registry) : Registry :=
  r.modifyMethod row sig fun m =>
    if m.builtins.contains id then m else { m with builtins := m.builtins ++ [id] }

end ClassLinker.Registry
