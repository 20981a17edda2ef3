import ClassLinker.Image.Header
import ClassLinker.Proofs.Image.Closed
import ClassLinker.Proofs.Image.Natives

/-! The constants in the header of an image. Each has a name made from one of a class or of a method by
putting underscores for what a C identifier cannot hold, so names that differ only there make one
constant. It is defined with two values when and only when two classes, or two methods of different
signatures, have such names. -/

namespace ClassLinker

namespace Image

/-! ### Names -/

/-- The bytes that are underscores in the name of a constant. -/
def flattened : List UInt8 := Text.underscore :: punctuation

/-- Two texts differ only where both have bytes that become underscores. -/
def FlatAlike : Text → Text → Prop :=
  List.Forall₂ fun a b => a = b ∨ a ∈ flattened ∧ b ∈ flattened

theorem underscored_byte_iff {a b : UInt8} :
    (if punctuation.contains a then Text.byte '_' else a) =
        (if punctuation.contains b then Text.byte '_' else b) ↔
      a = b ∨ a ∈ flattened ∧ b ∈ flattened := by
  have hunderscore : Text.byte '_' ∉ punctuation := by decide
  simp only [List.contains_iff_mem, flattened, List.mem_cons]
  constructor
  · intro h
    split at h
    · rename_i ha
      split at h
      · rename_i hb
        exact .inr ⟨.inr ha, .inr hb⟩
      · exact .inr ⟨.inr ha, .inl h.symm⟩
    · split at h
      · rename_i hb
        exact .inr ⟨.inl h, .inr hb⟩
      · exact .inl h
  · have hflat : ∀ {a}, a = Text.byte '_' ∨ a ∈ punctuation →
        (if a ∈ punctuation then Text.byte '_' else a) = Text.byte '_' := by
      rintro a (rfl | ha)
      · exact if_neg hunderscore
      · exact if_pos ha
    rintro (rfl | ⟨ha, hb⟩)
    · rfl
    · exact (hflat ha).trans (hflat hb).symm

theorem underscored_eq_iff {s t : Text} : underscored s = underscored t ↔ FlatAlike s t := by
  rw [underscored, underscored, FlatAlike, ← List.forall₂_eq_eq_eq, List.forall₂_map_left_iff,
    List.forall₂_map_right_iff]
  simp only [underscored_byte_iff]

/-- The name of a method with that of its class, as its constant has it. -/
def ClassInfo.fullName (c : ClassInfo) (m : MethodInfo) : Text :=
  c.name ++ "#" ++ m.name ++ "#" ++ m.descriptor

theorem classConstant_eq_iff {name name' : Text} :
    classConstant name = classConstant name' ↔ FlatAlike name name' := by
  rw [classConstant, classConstant, List.append_cancel_left_eq, underscored_eq_iff]

theorem linkConstant_eq_iff {c c' : ClassInfo} {m m' : MethodInfo} :
    linkConstant c.name m.name m.descriptor = linkConstant c'.name m'.name m'.descriptor ↔
      FlatAlike (c.fullName m) (c'.fullName m') := by
  rw [linkConstant, linkConstant, List.append_cancel_left_eq, underscored_eq_iff]
  rfl

theorem classConstant_ne_linkConstant (name className method descriptor : Text) :
    classConstant name ≠ linkConstant className method descriptor := by
  have hclass : ("CLASS_ID_" : Text).head? = some (Text.byte 'C') := by decide
  have hlink : ("LINK_ID_" : Text).head? = some (Text.byte 'L') := by decide
  intro h
  have hhead := congrArg List.head? h
  rw [classConstant, linkConstant, List.head?_append, List.head?_append, hclass, hlink] at hhead
  exact absurd (Option.some.inj hhead) (by decide)

/-! ### The header -/

/-- The constants for the ids of the classes, with their values. -/
def classConstants (i : Image) : List (Text × Int) :=
  i.classes.map fun c => (classConstant c.name, (c.id : Int))

/-- The constants for the link ids of the methods, with their values. -/
def linkConstants (i : Image) : List (Text × Int) :=
  i.classes.flatMap fun c => c.methods.map fun m =>
    (linkConstant c.name m.name m.descriptor, m.linkId)

/-- All constants that the header defines, with their values. -/
def constants (i : Image) : List (Text × Int) := i.classConstants ++ i.linkConstants

/-- The definitions of some constants. -/
def definitions (constants : List (Text × Int)) : Text :=
  constants.flatMap fun d => definition d.1 d.2

theorem header_eq (i : Image) : i.header =
    ("/* generated by jvmlink, image " : Text) ++ i.buildId ++ " */\n" ++
      "#ifndef JVMLINK_IDS_H\n#define JVMLINK_IDS_H\n\n" ++ definitions i.classConstants ++ "\n" ++
      definitions i.linkConstants ++ i.nativeDeclarations ++ "\n#endif\n" := by
  have hclasses : definitions i.classConstants = i.classes.flatMap ClassInfo.idDefinition :=
    List.flatMap_map _ _ _
  have hlinks : definitions i.linkConstants = i.classes.flatMap ClassInfo.linkDefinitions := by
    rw [definitions, linkConstants, List.flatMap_assoc]
    exact congrArg (List.flatMap · i.classes) (funext fun c => List.flatMap_map _ _ _)
  rw [header, hclasses, hlinks]

/-- A constant is defined with two values. -/
def Ambiguous (i : Image) : Prop :=
  ∃ d ∈ i.constants, ∃ d' ∈ i.constants, d.1 = d'.1 ∧ d.2 ≠ d'.2

/-- Two classes of different ids have names that make one constant. -/
def ClassesClash (i : Image) : Prop :=
  ∃ c ∈ i.classes, ∃ c' ∈ i.classes, c.id ≠ c'.id ∧ FlatAlike c.name c'.name

/-- Two methods of different link ids have names that make one constant. -/
def MethodsClash (i : Image) : Prop :=
  ∃ c ∈ i.classes, ∃ m ∈ c.methods, ∃ c' ∈ i.classes, ∃ m' ∈ c'.methods,
    m.linkId ≠ m'.linkId ∧ FlatAlike (c.fullName m) (c'.fullName m')

theorem mem_linkConstants {i : Image} {d : Text × Int} : d ∈ i.linkConstants ↔
    ∃ c ∈ i.classes, ∃ m ∈ c.methods,
      (linkConstant c.name m.name m.descriptor, m.linkId) = d := by
  simp only [linkConstants, List.mem_flatMap, List.mem_map]

/-- A constant for a class and one for a method are never the same. -/
theorem constants_apart {i : Image} {d d' : Text × Int} (hd : d ∈ i.classConstants)
    (hd' : d' ∈ i.linkConstants) : d.1 ≠ d'.1 := by
  obtain ⟨c, -, rfl⟩ := List.mem_map.mp hd
  obtain ⟨c', -, m', -, rfl⟩ := mem_linkConstants.mp hd'
  exact classConstant_ne_linkConstant _ _ _ _

/-- The header is ambiguous when and only when two classes or two methods clash. -/
theorem ambiguous_iff (i : Image) : i.Ambiguous ↔ i.ClassesClash ∨ i.MethodsClash := by
  constructor
  · rintro ⟨d, hd, d', hd', hname, hvalue⟩
    rcases List.mem_append.mp hd with hd | hd <;> rcases List.mem_append.mp hd' with hd' | hd'
    · obtain ⟨c, hc, rfl⟩ := List.mem_map.mp hd
      obtain ⟨c', hc', rfl⟩ := List.mem_map.mp hd'
      exact .inl ⟨c, hc, c', hc', hvalue, classConstant_eq_iff.mp hname⟩
    · exact absurd hname (constants_apart hd hd')
    · exact absurd hname.symm (constants_apart hd' hd)
    · obtain ⟨c, hc, m, hm, rfl⟩ := mem_linkConstants.mp hd
      obtain ⟨c', hc', m', hm', rfl⟩ := mem_linkConstants.mp hd'
      exact .inr ⟨c, hc, m, hm, c', hc', m', hm', hvalue, linkConstant_eq_iff.mp hname⟩
  · rintro (⟨c, hc, c', hc', hid, halike⟩ | ⟨c, hc, m, hm, c', hc', m', hm', hid, halike⟩)
    · exact ⟨_, List.mem_append_left _ (List.mem_map.mpr ⟨c, hc, rfl⟩),
        _, List.mem_append_left _ (List.mem_map.mpr ⟨c', hc', rfl⟩),
        classConstant_eq_iff.mpr halike, hid⟩
    · exact ⟨_, List.mem_append_right _ (mem_linkConstants.mpr ⟨c, hc, m, hm, rfl⟩),
        _, List.mem_append_right _ (mem_linkConstants.mpr ⟨c', hc', m', hm', rfl⟩),
        linkConstant_eq_iff.mpr halike, hid⟩

end Image

namespace Program

open Image Registry

/-! ### Ids -/

section Built

variable {s : Source} {o : LinkOptions} {p : Program} {l : Linker} {c : Class}
  {deps : List RefAddr} {r₁ : Registry} {image : Image} {row : Nat} {c₂ : Class}

theorem Built.find_name (h : p.Built s o l c deps r₁) (hrow : row ∈ p.registry.live)
    (hc₂ : p.registry.classAt? row = some c₂) : p.registry.find? c₂.name = some row := by
  obtain ⟨c₀, c₁, hc₀, -, -, hlaid, hcompacted⟩ := h.exists_origin hrow hc₂
  rw [hcompacted.name_eq, hlaid.name_eq, h.find?_eq]
  exact h.tidy.find_self hc₀

/-- A method of the program has the place of its signature for a link id. -/
theorem Built.exists_signature (h : p.Built s o l c deps r₁) (hrow : row ∈ p.registry.live)
    (hc₂ : p.registry.classAt? row = some c₂) {m : Method} (hm : m ∈ c₂.methods) :
    ∃ n, m.linkId = some n ∧ p.registry.signatures[n]? = some m.sig := by
  obtain ⟨c₀, c₁, -, hc₁, hkept, -, hcompacted⟩ := h.exists_origin hrow hc₂
  obtain ⟨m₁, hm₁, hrelocates⟩ := forall₂_mem_right hcompacted.methods hm
  obtain ⟨hm₁, hkept₁⟩ := List.mem_filter.mp hm₁
  rw [h.linkedTo.laid.keptRows_eq] at hkept
  rw [h.compactedTo.signatures_eq, hrelocates.frame]
  exact (h.linkedTo.numbered hkept hc₁).methods m₁ hm₁ hkept₁

/-- Classes of an image have one id when and only when they have one name. -/
theorem Built.id_eq_iff (h : p.Built s o l c deps r₁) (hb : BuiltFrom p.plan image)
    {info info' : ClassInfo} (hinfo : info ∈ image.classes) (hinfo' : info' ∈ image.classes) :
    info.id = info'.id ↔ info.name = info'.name := by
  obtain ⟨row, c₂, hrow, hc₂, hdesc⟩ := hb.exists_class hinfo
  obtain ⟨row', c₂', hrow', hc₂', hdesc'⟩ := hb.exists_class hinfo'
  rw [hdesc.id_eq, hdesc'.id_eq, hdesc.name_eq, hdesc'.name_eq, h.id_eq hrow hc₂,
    h.id_eq hrow' hc₂', Int.natCast_inj]
  constructor
  · rintro rfl
    cases hc₂.symm.trans hc₂'
    rfl
  · intro hname
    have hfind := h.find_name hrow hc₂
    rw [hname, h.find_name hrow' hc₂'] at hfind
    exact (Option.some.inj hfind).symm

/-- Methods of an image have one link id when and only when they have one signature. -/
theorem Built.linkId_eq_iff (h : p.Built s o l c deps r₁) (hb : BuiltFrom p.plan image)
    {info info' : ClassInfo} (hinfo : info ∈ image.classes) (hinfo' : info' ∈ image.classes)
    {m m' : MethodInfo} (hm : m ∈ info.methods) (hm' : m' ∈ info'.methods) :
    m.linkId = m'.linkId ↔ m.name = m'.name ∧ m.descriptor = m'.descriptor := by
  obtain ⟨row, c₂, hrow, hc₂, hdesc⟩ := hb.exists_class hinfo
  obtain ⟨row', c₂', hrow', hc₂', hdesc'⟩ := hb.exists_class hinfo'
  obtain ⟨m₀, hm₀, rfl⟩ := (hdesc.methods m).mp hm
  obtain ⟨m₀', hm₀', rfl⟩ := (hdesc'.methods m').mp hm'
  obtain ⟨n, hn, hsig⟩ := h.exists_signature hrow hc₂ hm₀
  obtain ⟨n', hn', hsig'⟩ := h.exists_signature hrow' hc₂' hm₀'
  have hnodup : p.registry.signatures.Nodup := h.compactedTo.signatures_eq ▸ h.linkedTo.nodup
  have hplace : n = n' ↔ m₀.sig = m₀'.sig := by
    constructor
    · rintro rfl
      exact Option.some.inj (hsig.symm.trans hsig')
    · intro heq
      rw [heq] at hsig
      exact (List.getElem?_inj (List.getElem?_eq_some_iff.mp hsig).1 hnodup).mp
        (hsig.trans hsig'.symm)
  have hparts : m₀.sig = m₀'.sig ↔
      m₀.sig.name = m₀'.sig.name ∧ m₀.sig.descriptor = m₀'.sig.descriptor := by
    cases m₀.sig
    cases m₀'.sig
    rw [Signature.mk.injEq]
  show idOr m₀.linkId = idOr m₀'.linkId ↔ _
  rw [hn, hn']
  exact (Int.natCast_inj.trans hplace).trans hparts

end Built

/-- The header of an image is made of the definitions of its constants. A constant is defined with two
values when and only when two classes of different ids, or two methods of different link ids, have
names that differ only where both have bytes that become underscores; those of classes and those of
methods are never the same. In the image of a linked program
classes of different ids have different names, and methods of different link ids have different
signatures. -/
theorem header_constants (plan : Plan) (image : Image) (hbuild : build plan = .ok image) :
    image.header = ("/* generated by jvmlink, image " : Text) ++ image.buildId ++ " */\n" ++
      "#ifndef JVMLINK_IDS_H\n#define JVMLINK_IDS_H\n\n" ++ definitions image.classConstants ++
      "\n" ++ definitions image.linkConstants ++ image.nativeDeclarations ++ "\n#endif\n" ∧
    (image.Ambiguous ↔ image.ClassesClash ∨ image.MethodsClash) ∧
    (∀ d ∈ image.classConstants, ∀ d' ∈ image.linkConstants, d.1 ≠ d'.1) ∧
    ∀ s o p, link s o = .ok p → plan = p.plan →
      (∀ c ∈ image.classes, ∀ c' ∈ image.classes, c.id = c'.id ↔ c.name = c'.name) ∧
      ∀ c ∈ image.classes, ∀ m ∈ c.methods, ∀ c' ∈ image.classes, ∀ m' ∈ c'.methods,
        m.linkId = m'.linkId ↔ m.name = m'.name ∧ m.descriptor = m'.descriptor := by
  refine ⟨header_eq image, ambiguous_iff image, fun d hd d' hd' => constants_apart hd hd',
    fun s o p hlink hplan => ?_⟩
  obtain ⟨l, c, deps, r₁, h⟩ := link_ok hlink
  have hb : BuiltFrom p.plan image := hplan ▸ build_ok hbuild
  exact ⟨fun c hc c' hc' => h.id_eq_iff hb hc hc',
    fun c hc m hm c' hc' m' hm' => h.linkId_eq_iff hb hc hc' hm hm'⟩

/-- Two classes and two methods of the program have names that make one constant. -/
theorem exists_flatConstants : ∃ p image, link flatSource flatOptions = .ok p ∧
    p.image = .ok image ∧
    (∃ c ∈ image.classes, ∃ c' ∈ image.classes, c.id ≠ c'.id ∧
      classConstant c.name = classConstant c'.name) ∧
    ∃ c ∈ image.classes, ∃ m ∈ c.methods, ∃ c' ∈ image.classes, ∃ m' ∈ c'.methods,
      m.linkId ≠ m'.linkId ∧ linkConstant c.name m.name m.descriptor =
        linkConstant c'.name m'.name m'.descriptor := by
  obtain ⟨p, image, hlink, himage, ⟨q, hq, q', hq', hid, hname⟩, r, hr, m, hm, m', hm', hlinkId,
      hfull⟩ := exists_image_of_check flatSource flatOptions
    (fun p _ => (∃ q ∈ p.plan.registry.classes, ∃ q' ∈ p.plan.registry.classes,
        q.2.id ≠ q'.2.id ∧ classConstant q.2.name = classConstant q'.2.name) ∧
      ∃ q ∈ p.plan.registry.classes, ∃ m ∈ q.2.methods, ∃ m' ∈ q.2.methods,
        idOr m.linkId ≠ idOr m'.linkId ∧ linkConstant q.2.name m.sig.name m.sig.descriptor =
          linkConstant q.2.name m'.sig.name m'.sig.descriptor) (by decide +kernel)
  have hinfos := (build_ok himage).infos
  obtain ⟨c, hc, hdesc⟩ := forall₂_mem_left hinfos hq
  obtain ⟨c', hc', hdesc'⟩ := forall₂_mem_left hinfos hq'
  obtain ⟨d, hd, hdescd⟩ := forall₂_mem_left hinfos hr
  refine ⟨p, image, hlink, himage, ⟨c, hc, c', hc', ?_, ?_⟩,
    d, hd, methodInfo m, (hdescd.methods _).mpr ⟨m, hm, rfl⟩,
    d, hd, methodInfo m', (hdescd.methods _).mpr ⟨m', hm', rfl⟩, hlinkId, ?_⟩
  · rw [hdesc.id_eq, hdesc'.id_eq]
    exact fun heq => hid (Int.natCast_inj.mp heq)
  · rw [hdesc.name_eq, hdesc'.name_eq]
    exact hname
  · rw [hdescd.name_eq]
    exact hfull

theorem header_constants_flat : ∃ p image, link flatSource flatOptions = .ok p ∧
    build p.plan = .ok image ∧ image.Ambiguous := by
  obtain ⟨p, image, hlink, himage, ⟨c, hc, c', hc', hid, hname⟩, -⟩ := exists_flatConstants
  obtain ⟨-, hambiguous, -⟩ := header_constants p.plan image himage
  exact ⟨p, image, hlink, himage,
    hambiguous.mpr (.inl ⟨c, hc, c', hc', hid, classConstant_eq_iff.mp hname⟩)⟩

/-- Two constants for classes of different names have one name and different values, and so do two
constants for methods of different link ids. -/
theorem header_clashes : ∃ p image, link flatSource flatOptions = .ok p ∧ p.image = .ok image ∧
    (∃ d ∈ image.classConstants, ∃ d' ∈ image.classConstants, d.1 = d'.1 ∧ d.2 ≠ d'.2) ∧
    ∃ d ∈ image.linkConstants, ∃ d' ∈ image.linkConstants, d.1 = d'.1 ∧ d.2 ≠ d'.2 := by
  obtain ⟨p, image, hlink, himage, ⟨c, hc, c', hc', hid, hname⟩,
    b, hb, m, hm, b', hb', m', hm', hlinkId, hfull⟩ := exists_flatConstants
  exact ⟨p, image, hlink, himage,
    ⟨_, List.mem_map.mpr ⟨c, hc, rfl⟩, _, List.mem_map.mpr ⟨c', hc', rfl⟩, hname, hid⟩,
    _, mem_linkConstants.mpr ⟨b, hb, m, hm, rfl⟩,
    _, mem_linkConstants.mpr ⟨b', hb', m', hm', rfl⟩, hfull, hlinkId⟩

end Program

end ClassLinker
