import ClassLinker.Proofs.Image.Build
import ClassLinker.Proofs.Program.Classes

/-! The native table of an image. Every entry is that of a native method of a class of the image, and
its declaration is one of the C function that its symbol names. A symbol flattens the names of the class
and the method into one identifier and leaves out the descriptor, so two methods share a function when
their names flatten alike: where no name has an underscore, exactly the overloads of a class do. -/

namespace ClassLinker

/-! ### Symbols -/

namespace Text

/-- The underscore, which takes the place of what a C identifier cannot hold. -/
abbrev underscore : UInt8 := byte '_'

/-- Replacing a byte by one that a text does not have loses nothing. -/
theorem replaceByte_inj {old new : UInt8} {s t : Text} (hs : new ∉ s) (ht : new ∉ t)
    (h : replaceByte old new s = replaceByte old new t) : s = t := by
  unfold replaceByte at h
  induction s generalizing t with
  | nil => exact (List.map_eq_nil_iff.mp h.symm).symm
  | cons a s ih =>
      cases t with
      | nil => cases h
      | cons b t =>
          obtain ⟨ha, hs⟩ : new ≠ a ∧ new ∉ s := by simpa using hs
          obtain ⟨hb, ht⟩ : new ≠ b ∧ new ∉ t := by simpa using ht
          rw [List.map_cons, List.map_cons, List.cons.injEq] at h
          rw [ih hs ht h.2]
          have hhead := h.1
          split at hhead
          · rename_i hold
            split at hhead
            · rename_i hold'
              rw [hold, hold']
            · exact absurd hhead hb
          · split at hhead
            · exact absurd hhead.symm ha
            · rw [hhead]

/-- A text is cut at the last occurrence of a byte in one way. -/
theorem append_cons_inj {b : UInt8} {s s' t t' : Text} (ht : b ∉ t) (ht' : b ∉ t') :
    s ++ b :: t = s' ++ b :: t' ↔ s = s' ∧ t = t' := by
  refine ⟨fun h => ?_, fun ⟨hs, ht⟩ => by rw [hs, ht]⟩
  rcases List.append_eq_append_iff.mp h with ⟨u, rfl, hu⟩ | ⟨u, rfl, hu⟩
  · cases u with
    | nil =>
        cases hu
        exact ⟨(List.append_nil s).symm, rfl⟩
    | cons a u =>
        cases hu
        exact absurd (List.mem_append_right u List.mem_cons_self) ht
  · cases u with
    | nil =>
        cases hu
        exact ⟨List.append_nil s', rfl⟩
    | cons a u =>
        cases hu
        exact absurd (List.mem_append_right u List.mem_cons_self) ht'

end Text

namespace NativeBinding

/-- The identifier that the names of a class and a method are flattened to. -/
def flatName (className method : Text) : Text :=
  Text.replaceByte (Text.byte '/') Text.underscore className ++ Text.underscore :: method

theorem symbol_eq (b : NativeBinding) : b.symbol = "Java_" ++ flatName b.className b.method := by
  have hseparator : ("_" : Text) = [Text.underscore] := by decide
  rw [symbol, flatName, hseparator, List.append_assoc, List.append_assoc]
  rfl

/-- Names without underscores are kept apart. -/
theorem flatName_inj {c m c' m' : Text} (hc : Text.underscore ∉ c) (hm : Text.underscore ∉ m)
    (hc' : Text.underscore ∉ c') (hm' : Text.underscore ∉ m') :
    flatName c m = flatName c' m' ↔ c = c' ∧ m = m' := by
  rw [flatName, flatName, Text.append_cons_inj hm hm']
  exact and_congr_left fun _ => ⟨Text.replaceByte_inj hc hc', fun h => h ▸ rfl⟩

/-- A declaration is one of the function that the symbol names. -/
theorem exists_declaration {b : NativeBinding} {t : Text} (h : b.declaration = .ok t) :
    ∃ result params, t = ("JNIEXPORT " : Text) ++ result ++ " JNICALL " ++ b.symbol ++
      "(JNIEnv *" ++ params ++ ");" := by
  unfold declaration at h
  split at h
  · cases h
  · rename_i type _
    cases h
    refine ⟨cType (MethodType.renderResult type.result),
      (if b.isStatic then (", jclass" : Text) else ", jobject") ++
        type.params.flatMap (fun p => (", " : Text) ++ cType p.render), ?_⟩
    simp only [List.append_assoc]

end NativeBinding

namespace Image

/-! ### Entries -/

/-- A native method as an image describes it. -/
def nativeBinding (c : ClassInfo) (m : MethodInfo) : NativeBinding :=
  ⟨m.nativeIndex, c.name, m.name, m.descriptor, m.isStatic⟩

/-- A native table entry is that of a method of a class. -/
structure NativeInfo.Binds (n : NativeInfo) (c : ClassInfo) (m : MethodInfo) : Prop where
  index_eq : n.index = m.nativeIndex
  classId_eq : n.classId = c.id
  linkId_eq : n.linkId = m.linkId
  symbol_eq : n.symbol = (nativeBinding c m).symbol
  declaration_eq : (nativeBinding c m).declaration = .ok n.declaration

theorem nativeInfo_binds {r : Registry} {c : Class} {m : Method} {info : ClassInfo}
    (hdesc : info.Describes r c) {n : NativeInfo}
    (hn : n ∈ (nativeInfo c m).toOption.getD []) : n.Binds info (methodInfo m) := by
  have hbinding : nativeBinding info (methodInfo m) =
      ⟨idOr m.nativeIndex, c.name, m.sig.name, m.sig.descriptor, m.isStatic⟩ := by
    rw [nativeBinding, hdesc.name_eq]
    rfl
  unfold nativeInfo at hn
  split at hn
  · dsimp only at hn
    split at hn
    · cases hn
    · rename_i t hdeclared
      cases List.mem_singleton.mp hn
      exact ⟨rfl, hdesc.id_eq.symm, rfl, by rw [hbinding], by rw [hbinding]; exact hdeclared⟩
  · cases hn

/-- The native table entries of some methods of classes. -/
def nativeEntries (methods : List (Class × Method)) : List NativeInfo :=
  methods.flatMap fun p => (nativeInfo p.1 p.2).toOption.getD []

theorem addMethod_natives {r : Registry} {c : Class} {m : Method} {image image' : Image}
    (hok : addMethod r c image m = .ok image') :
    image'.natives = image.natives ++ nativeEntries [(c, m)] := by
  obtain ⟨natives, hnatives, hcases⟩ := addMethod_ok hok
  have hentries : nativeEntries [(c, m)] = natives := by
    rw [nativeEntries, List.flatMap_singleton, hnatives]
    rfl
  rw [hentries]
  rcases hcases with ⟨-, rfl⟩ | ⟨handlers, -, -, -, rfl⟩
  · rfl
  · rfl

/-- The native table of an image has the entries of the methods of the registry, sorted by index. -/
theorem natives_of_build {plan : Plan} {image : Image} (hbuild : build plan = .ok image) :
    image.natives = (nativeEntries (methodsOf (plan.registry.classes.map Prod.snd))).mergeSort
      fun a b => a.index ≤ b.index := by
  obtain ⟨-, raw, builtins, hclasses, -, rfl⟩ := build_eq_ok.mp hbuild
  have hall : raw.natives = nativeEntries (methodsOf (plan.registry.classes.map Prod.snd)) := by
    refine foldlM_addClass_accumulates (P := fun _ methods i => i.natives = nativeEntries methods)
      rfl ?_ (fun h _ => h) hclasses
    intro _ methods c m i i' hmethods hm
    rw [addMethod_natives hm, hmethods, nativeEntries, nativeEntries, nativeEntries,
      List.flatMap_append]
  show raw.natives.mergeSort _ = _
  rw [hall]

theorem mem_natives_of_build {plan : Plan} {image : Image} (hbuild : build plan = .ok image)
    {n : NativeInfo} :
    n ∈ image.natives ↔ n ∈ nativeEntries (methodsOf (plan.registry.classes.map Prod.snd)) := by
  rw [natives_of_build hbuild]
  exact (List.mergeSort_perm _ _).mem_iff

/-- The native table of an image has entries of methods of its classes only, each with a declaration
of the function that its symbol names. Two entries share a symbol when and only when the names of
their classes and methods flatten to one identifier; if none of these names has an underscore, they
have the same class name and the same method name. -/
theorem natives_symbols (plan : Plan) (image : Image) (hbuild : build plan = .ok image) :
    (∀ n ∈ image.natives, (∃ c ∈ image.classes, ∃ m ∈ c.methods, n.Binds c m) ∧
      ∃ result params, n.declaration = ("JNIEXPORT " : Text) ++ result ++ " JNICALL " ++ n.symbol ++
        "(JNIEnv *" ++ params ++ ");") ∧
    ∀ (n n' : NativeInfo) (c c' : ClassInfo) (m m' : MethodInfo), n.Binds c m → n'.Binds c' m' →
      (n.symbol = n'.symbol ↔
        NativeBinding.flatName c.name m.name = NativeBinding.flatName c'.name m'.name) ∧
      ((∀ name ∈ [c.name, m.name, c'.name, m'.name], Text.underscore ∉ name) →
        (n.symbol = n'.symbol ↔ c.name = c'.name ∧ m.name = m'.name)) := by
  refine ⟨fun n hn => ?_, fun n n' c c' m m' h h' => ?_⟩
  · obtain ⟨⟨c, m⟩, hp, hn⟩ := List.mem_flatMap.mp ((mem_natives_of_build hbuild).mp hn)
    obtain ⟨row, hc, hm⟩ := mem_methodsOf.mp hp
    obtain ⟨info, hinfo, hdesc⟩ := forall₂_mem_left (build_ok hbuild).infos hc
    have hbinds := nativeInfo_binds hdesc hn
    refine ⟨⟨info, hinfo, methodInfo m, (hdesc.methods _).mpr ⟨m, hm, rfl⟩, hbinds⟩, ?_⟩
    rw [hbinds.symbol_eq]
    exact NativeBinding.exists_declaration hbinds.declaration_eq
  · have hsymbols : n.symbol = n'.symbol ↔
        NativeBinding.flatName c.name m.name = NativeBinding.flatName c'.name m'.name := by
      rw [h.symbol_eq, h'.symbol_eq, NativeBinding.symbol_eq, NativeBinding.symbol_eq,
        List.append_cancel_left_eq]
      rfl
    refine ⟨hsymbols, fun hnames => hsymbols.trans ?_⟩
    exact NativeBinding.flatName_inj (hnames _ (by simp)) (hnames _ (by simp)) (hnames _ (by simp))
      (hnames _ (by simp))

end Image

namespace Program

open Image

/-- A native method of one parameter, or of none, that returns nothing. -/
def nativeMethod (name descriptor : Text) : MethodDecl :=
  { MethodDecl.simple name true [] with descriptor, isNative := true, isAbstract := false }

/-- A program with two classes whose names differ in a slash and an underscore, each with a native
method `f`, and with two native methods `g` that take an instance of these classes. -/
def flatSource : Source := .ofDecls [
  .bareRoot,
  .simple false "a/b" RuntimeSeeds.defaultRoot [] [nativeMethod "f" "()V"] [],
  .simple false "a_b" RuntimeSeeds.defaultRoot [] [nativeMethod "f" "()V"] [],
  .simple false "Main" RuntimeSeeds.defaultRoot []
    [.simple "main" true [0xB1], nativeMethod "g" "(La/b;)V", nativeMethod "g" "(La_b;)V"] []]

/-- Options that keep all methods of the program. -/
def flatOptions : LinkOptions :=
  { bareOptions with required := [⟨"a/b", "f", "()V"⟩, ⟨"a_b", "f", "()V"⟩,
    ⟨"Main", "g", "(La/b;)V"⟩, ⟨"Main", "g", "(La_b;)V"⟩] }

/-- The program is linked and its image is built. It has four native methods, of which two of one
class share a symbol, and so do two of two classes. -/
theorem exists_flatImage : ∃ p image, link flatSource flatOptions = .ok p ∧
    p.image = .ok image ∧ image.natives.length = 4 ∧
    (∃ n ∈ image.natives, ∃ n' ∈ image.natives,
      n.classId = n'.classId ∧ n.linkId ≠ n'.linkId ∧ n.symbol = n'.symbol) ∧
    ∃ n ∈ image.natives, ∃ n' ∈ image.natives, n.classId ≠ n'.classId ∧ n.symbol = n'.symbol := by
  obtain ⟨p, image, hlink, himage, hcheck⟩ := exists_image_of_check flatSource flatOptions
    (fun p _ => (fun entries : List NativeInfo => decide (entries.length = 4 ∧
      (∃ n ∈ entries, ∃ n' ∈ entries,
        n.classId = n'.classId ∧ n.linkId ≠ n'.linkId ∧ n.symbol = n'.symbol) ∧
      ∃ n ∈ entries, ∃ n' ∈ entries, n.classId ≠ n'.classId ∧ n.symbol = n'.symbol))
        (nativeEntries (methodsOf (p.plan.registry.classes.map Prod.snd))) = true)
    (by decide +kernel)
  simp only [decide_eq_true_eq] at hcheck
  obtain ⟨hlength, hshared⟩ := hcheck
  refine ⟨p, image, hlink, himage, ?_, ?_⟩
  · rw [natives_of_build himage, List.length_mergeSort, hlength]
  · simpa only [mem_natives_of_build himage] using hshared

theorem natives_symbols_flat : ∃ p image, link flatSource flatOptions = .ok p ∧
    build p.plan = .ok image ∧ image.natives.length = 4 ∧
    (∀ n ∈ image.natives, ∃ c ∈ image.classes, ∃ m ∈ c.methods, n.Binds c m) ∧
    ∃ n ∈ image.natives, ∃ n' ∈ image.natives, n.classId ≠ n'.classId ∧
      ∃ c m c' m', n.Binds c m ∧ n'.Binds c' m' ∧
        NativeBinding.flatName c.name m.name = NativeBinding.flatName c'.name m'.name := by
  obtain ⟨p, image, hlink, himage, hlength, -, n, hn, n', hn', hclass, hsymbol⟩ := exists_flatImage
  obtain ⟨hentries, hsymbols⟩ := natives_symbols p.plan image himage
  obtain ⟨c, -, m, -, hbinds⟩ := (hentries n hn).1
  obtain ⟨c', -, m', -, hbinds'⟩ := (hentries n' hn').1
  exact ⟨p, image, hlink, himage, hlength, fun n hn => (hentries n hn).1, n, hn, n', hn', hclass,
    c, m, c', m', hbinds, hbinds', (hsymbols n n' c c' m m' hbinds hbinds').1.mp hsymbol⟩

/-- Two methods of one class share a symbol, and so do methods of two classes. -/
theorem natives_shared : ∃ p image, link flatSource flatOptions = .ok p ∧ p.image = .ok image ∧
    (∃ n ∈ image.natives, ∃ n' ∈ image.natives,
      n.classId = n'.classId ∧ n.linkId ≠ n'.linkId ∧ n.symbol = n'.symbol) ∧
    ∃ n ∈ image.natives, ∃ n' ∈ image.natives, n.classId ≠ n'.classId ∧ n.symbol = n'.symbol := by
  obtain ⟨p, image, hlink, himage, -, hshared⟩ := exists_flatImage
  exact ⟨p, image, hlink, himage, hshared⟩

end Program

end ClassLinker
