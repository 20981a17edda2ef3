import ClassLinker.ClassPath
import ClassLinker.Closure.Load

/-!
Loading from a single place. A folder or an archive answers a name with the class file it keeps
there, and that file may declare another name. The class is then registered under the name that it
declares, and the name it was asked for stays missing: loading ends without a class and without an
error, and an array of such a class is made all the same. Where every answer has the name that was
asked for, this is loading from a source.
-/

namespace ClassLinker.ClassPlace

open Closure LinkM

/-- Asks a place for a class. -/
def ask (p : ClassPlace) (name : Text) : LinkM (Except Error ClassDecl) := fun l =>
  .ok (p.load name) { l with asked := name :: l.asked }

/-- Loads a class and its missing supertypes, and registers each under the name that it declares.
`loading` holds the names that were asked for. A class that is registered takes the name it declares
out of it, so a name that a class of another name was found under stays. The answer is what `loading`
has become.

A place may name ever new supertypes, so loading need not end; `depth` bounds how many classes are
loaded inside each other. -/
def loadTree (p : ClassPlace) : Nat → List Text → Text → LinkM (List Text)
  | 0, _, _ => giveUp
  | depth + 1, loading, name => do
    if loading.contains name then fail (.loader name (.plain "cyclic inheritance"))
    match ← p.ask name with
    | .error e => fail (.loader name e)
    | .ok d =>
      let loading ← (supertypes d).foldlM (fun loading dep => do
        if (← registered? dep).isNone then p.loadTree depth loading dep else return loading)
        (name :: loading)
      register d
      return loading.erase d.name

/-- The row of a class, which is loaded or, for an array, made first when it is missing. There is
none when the class that was loaded has another name. -/
def loadFrom (p : ClassPlace) (depth : Nat) : Nat → Text → LinkM (Option Nat)
  | 0, _ => giveUp
  | fuel + 1, name => do
    match ← registered? name with
    | some row => return some row
    | none =>
      if name.head? = some (Text.byte '[') then
        discard (p.loadFrom depth fuel (← get).root)
        let r := (← get).registry
        let chain := arrayChain (fun t => (r.find? t).isSome) name
        chain.reverse.forM (registerArray (p.loadFrom depth fuel))
      else
        discard (p.loadTree depth [] name)
      registered? name

/-- The row of a class, which is loaded first when it is missing. -/
def loadClass (p : ClassPlace) (depth : Nat) (name : Text) : LinkM (Option Nat) :=
  p.loadFrom depth (name.length + 1) name

end ClassLinker.ClassPlace
