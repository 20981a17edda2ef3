import ClassLinker.Archive.Zip
import ClassLinker.Files.Tree
import ClassLinker.Source

/-!
Class paths. A class path lists places, folders of class files and archives, and a class is taken
from the first place that has it. A place answers with the class file it keeps under a name,
whatever name the class file itself declares; the search refuses a class that declares another name.
-/

namespace ClassLinker

/-- A place that is asked for classes by name. -/
structure ClassPlace where
  /-- The names under which the place may have a class of that very name. -/
  names : List Text
  load : Text → Except Error ClassDecl

namespace ClassPlace

/-- The ending of the names of class files. -/
def classEnding : Text := ".class"

/-- Reads a class file from what is left of an input; `fault` is what the input breaks off with when
it does not simply end. -/
def readClass (data : Bytes) (fault : Option Text) : Except ClassFileError ClassFile :=
  match ClassFile.read data, fault with
  | .error e, some text => .error (e.withInputFault text)
  | result, _ => result

/-- A list of declarations, of which the last with a given name counts. -/
def ofDecls (decls : List ClassDecl) : ClassPlace where
  names := decls.map ClassDecl.name
  load := (Source.ofDecls decls).load

/-- A folder, where the class `p/A` is in the file `p/A.class`. -/
def folder (t : FileTree) (root : Text) : ClassPlace where
  names := t.contents.filterMap fun data => ((ClassDecl.read data).toOption).map ClassDecl.name
  load name :=
    let path := Path.join [root, name ++ classEnding]
    let place : Text := "dir: parsing " ++ path
    match t.read path with
    | .ok data =>
      match readClass data none with
      | .ok cf => ClassDecl.ofClassFile cf
      | .error e => .error (.within place (.classFile e))
    | .error e =>
      match e.op with
      | .reading =>
        .error (.within place (.classFile (.within .magic (.input (.broken e.message)))))
      | _ =>
        .error (if e.fault = .notFound then Source.missing name root else .within place e.toError)

end ClassPlace

/-- An archive of class files: its data, and its entries by the names of their classes, the latest
entry first. -/
structure ClassArchive where
  data : Bytes
  classes : List (Text × ZipEntry)
deriving DecidableEq, Repr

namespace ClassArchive

/-- What the data of a module archive starts with; a plain archive follows. -/
def moduleMark : Bytes := [0x4A, 0x4D, 0x01, 0x00]

/-- The folder of a module archive that its classes are in. -/
def moduleFolder : Text := "classes/"

/-- The name of the class that an entry has, if it has one. -/
def className? (folder : Text) (entry : ZipEntry) : Option Text :=
  (Text.dropStart? folder entry.name).bind (Text.dropEnd? ClassPlace.classEnding)

/-- Opens the archive at a path. -/
def read (t : FileTree) (path : Text) : Except Error ClassArchive := do
  let data ← (t.read path).mapError fun e => .within ("archive: reading " ++ path) e.toError
  let (data, folder) :=
    match Text.dropStart? moduleMark data with
    | some rest => (rest, moduleFolder)
    | none => (data, [])
  let entries ← (Zip.entries data).mapError fun fault =>
    .within ("archive: opening zip " ++ path) (.plain fault.message)
  let classes := entries.filterMap fun entry =>
    (className? folder entry).map fun name => (name, entry)
  return { data, classes := classes.reverse }

/-- Loads a class from an archive that was opened at `path`. -/
def load (a : ClassArchive) (path name : Text) : Except Error ClassDecl :=
  match a.classes.lookup name with
  | none => .error (Source.missing name path)
  | some entry =>
    match Zip.contents a.data entry with
    | .error fault =>
      .error (.within ("archive: opening " ++ entry.name ++ " in " ++ path) (.plain fault.message))
    | .ok contents =>
      match ClassPlace.readClass contents.bytes (contents.fault.map ZipFault.message) with
      | .ok cf => ClassDecl.ofClassFile cf
      | .error e =>
        .error (.within ("archive: parsing " ++ name ++ " in " ++ path) (.classFile e))

end ClassArchive

namespace ClassPlace

/-- An archive. One that cannot be opened answers every name with the reason. -/
def archive (t : FileTree) (path : Text) : ClassPlace :=
  match ClassArchive.read t path with
  | .ok a => { names := a.classes.map Prod.fst, load := a.load path }
  | .error e => { names := [], load := fun _ => .error e }

/-- The endings of the names of archives. -/
def archiveEndings : List Text := [".jar", ".zip", ".jmod"]

/-- The place that an entry of a class path names. -/
def ofEntry (t : FileTree) (path : Text) : Except Error ClassPlace :=
  let place : Text := "classpath entry " ++ path
  match t.find .looking path with
  | .error e => .error (.within place e.toError)
  | .ok .folder => .ok (folder t path)
  | .ok (.file _) =>
    if archiveEndings.any fun ending => ending.isSuffixOf path then .ok (archive t path)
    else .error (.within place (.plain "not a directory, jar or jmod"))

/-- Looks for a class in places one after the other. -/
def search : List ClassPlace → Text → Except Error ClassDecl
  | [], name => .error (.within name .notFound)
  | place :: places, name =>
    match place.load name with
    | .ok d =>
      if d.name = name then .ok d
      else .error (.plain ("class file for " ++ name ++ " declares " ++ d.name))
    | .error e => if e.isNotFound then search places name else .error e

/-- The source that searches places. -/
def source (places : List ClassPlace) : Source where
  decls := (places.flatMap names).filterMap fun name => (search places name).toOption
  failure name :=
    match search places name with
    | .error e => e
    | .ok _ => .within name .notFound

/-- A place is complete when every class that it has under its own name is listed. -/
def Complete (p : ClassPlace) : Prop :=
  ∀ name d, p.load name = .ok d → d.name = name → name ∈ p.names

/-- A class that is found has the name it was looked for. -/
theorem name_of_search {places : List ClassPlace} {name : Text} {d : ClassDecl}
    (h : search places name = .ok d) : d.name = name := by
  fun_induction search places name <;> simp_all

/-- A class that is found is listed by one of the places. -/
theorem mem_names_of_search {places : List ClassPlace} {name : Text} {d : ClassDecl}
    (hc : ∀ p ∈ places, p.Complete) (h : search places name = .ok d) :
    name ∈ places.flatMap names := by
  fun_induction search places name with
  | case1 => cases h
  | case2 place places found hload =>
    have := hc place (by simp) _ found hload rfl
    simp only [List.flatMap_cons, List.mem_append]
    exact .inl this
  | case3 => cases h
  | case4 _ _ _ _ _ _ ih =>
    have := ih (fun p hp => hc p (by simp [hp])) h
    simp only [List.flatMap_cons, List.mem_append]
    exact .inr this
  | case5 => cases h

/-- The source of complete places answers as the search does. -/
theorem load_source {places : List ClassPlace} (hc : ∀ p ∈ places, p.Complete) (name : Text) :
    (source places).load name = search places name := by
  unfold Source.load source
  cases hs : search places name with
  | error e =>
    have hnone : List.find? (fun d : ClassDecl => d.name = name)
        ((places.flatMap names).filterMap fun n => (search places n).toOption) = none := by
      simp only [List.find?_eq_none, List.mem_filterMap, decide_eq_true_eq]
      rintro d ⟨n, _, hd⟩ hname
      cases hn : search places n with
      | error => simp [hn, Except.toOption] at hd
      | ok d' =>
        simp only [hn, Except.toOption, Option.some.injEq] at hd
        subst hd
        rw [name_of_search hn] at hname
        subst hname
        rw [hs] at hn
        cases hn
    simp [hnone, hs]
  | ok d =>
    have hmem := mem_names_of_search hc hs
    cases hf : List.find? (fun d : ClassDecl => d.name = name)
        ((places.flatMap names).filterMap fun n => (search places n).toOption) with
    | none =>
      simp only [List.find?_eq_none, List.mem_filterMap, decide_eq_true_eq] at hf
      exact absurd (name_of_search hs) (hf d ⟨name, hmem, by simp [hs, Except.toOption]⟩)
    | some d' =>
      have hname := List.find?_some hf
      obtain ⟨n, _, hn⟩ := List.mem_filterMap.1 (List.mem_of_find?_eq_some hf)
      cases hn' : search places n with
      | error => simp [hn', Except.toOption] at hn
      | ok d'' =>
        simp only [hn', Except.toOption, Option.some.injEq] at hn
        subst hn
        have := name_of_search hn'
        simp only [decide_eq_true_eq] at hname
        rw [hname] at this
        subst this
        simpa [hs] using hn'.symm

/-- Declarations are listed by their names. -/
theorem complete_ofDecls (decls : List ClassDecl) : (ofDecls decls).Complete := by
  intro name d hload hname
  have := Source.mem_decls_of_load hload
  simp only [Source.ofDecls, List.mem_reverse] at this
  exact List.mem_map.2 ⟨d, this, hname⟩

/-- A folder lists what its class files declare. -/
theorem name_mem_names_of_folder {t : FileTree} {root name : Text} {d : ClassDecl}
    (hload : (folder t root).load name = .ok d) : d.name ∈ (folder t root).names := by
  simp only [folder] at hload ⊢
  split at hload
  · rename_i data hread
    split at hload
    · rename_i cf hcf
      have hdecl : ClassDecl.read data = .ok d := by
        have hfile : ClassFile.read data = .ok cf := by
          unfold readClass at hcf
          split at hcf <;> simp_all
        rw [ClassDecl.read, hfile]
        exact hload
      refine List.mem_filterMap.2 ⟨data, FileTree.mem_contents_of_read hread, ?_⟩
      simp [hdecl, Except.toOption]
    · cases hload
  · split at hload
    · cases hload
    · cases hload

/-- A folder lists all classes of the tree. -/
theorem complete_folder (t : FileTree) (root : Text) : (folder t root).Complete := by
  rintro name d hload rfl
  exact name_mem_names_of_folder hload

/-- An archive lists its entries. -/
theorem complete_archive (t : FileTree) (path : Text) : (archive t path).Complete := by
  intro name d hload hname
  unfold archive at hload ⊢
  split at hload
  · rename_i a _
    simp only [ClassArchive.load] at hload
    split at hload
    · cases hload
    · rename_i entry hentry
      obtain ⟨before, after, heq, _⟩ := List.lookup_eq_some_iff.1 hentry
      simp [heq]
  · cases hload

end ClassPlace

end ClassLinker
