import ClassLinker.Proofs.Image.Build
import ClassLinker.Proofs.Program.Code

/-! The image of a linked program is closed: every id, slot, offset and link id in it leads to
something that is in the image. -/

namespace ClassLinker

open Registry InitOrder Closure

namespace Image

/-- The image has a class with an id. -/
def HasClass (image : Image) (id : Int) : Prop := ∃ c ∈ image.classes, c.id = id

/-- A link id is that of a signature, and the class with an id lists a member under it. -/
def Lists (image : Image) (id link : Int) : Prop :=
  0 ≤ link ∧ link < image.signatures.length ∧ ∃ c ∈ image.classes, c.id = id ∧
    (link ∈ c.methods.map MethodInfo.linkId ∨ link ∈ c.fields.map FieldInfo.linkId)

/-- The code of a method. -/
def codeOf (image : Image) (m : MethodInfo) : Bytes :=
  (image.code.drop m.codeOffset.toNat).take m.codeLength.toNat

/-- What an instruction in the code of a class refers to is in the image. -/
structure InstructionClosed (image : Image) (c : ClassInfo) (i : Instruction) : Prop where
  member : Opcode.operand i.op = .memberSlot → ∃ slot link, i.slot? = some slot ∧
    c.memberRefs[slot]? = some link ∧ image.HasClass link.target ∧
    image.Lists link.declaring link.linkId
  cls : Opcode.operand i.op = .classSlot → ∃ slot : Nat, i.slot? = some slot ∧
    (c.classRefs.map ClassLink.slot).count (slot : Int) = 1
  constant : Opcode.operand i.op = .constantSlot → ∃ slot : Nat, i.slot? = some slot ∧
    (c.classRefs.map ClassLink.slot ++ c.literals.map LiteralSlot.slot).count (slot : Int) = 1
  array : Opcode.operand i.op = .arrayType → ∃ type, i.arrayType? = some type ∧
    ∃ a ∈ image.classes, a.kind = ClassKind.primitiveArray.text ∧ a.elementType = type.toNat

/-- What a class and its code refer to is in the image, and its supertypes and the class of its
elements come before it. -/
structure ClassClosed (image : Image) (c : ClassInfo) : Prop where
  super_iff : c.super = -1 ↔ c.id = 0
  super_lt : c.super ≠ -1 → 0 ≤ c.super ∧ c.super < c.id
  interface_lt : ∀ id ∈ c.interfaces, 0 ≤ id ∧ id < c.id
  element_lt : c.kind = ClassKind.objectArray.text → 0 ≤ c.element ∧ c.element < c.id
  classRefs : ∀ ref ∈ c.classRefs, image.HasClass ref.target
  code : ∀ m ∈ c.methods, 0 ≤ m.codeOffset →
    m.codeOffset + m.codeLength ≤ image.code.length ∧
    (Code.decode (image.codeOf m)).ending = .complete ∧
    ∀ i ∈ (Code.decode (image.codeOf m)).instrs, image.InstructionClosed c i

/-- Whatever the image refers to is in it: a class has its place as its id, a native table entry its
place as its index, and a catalog entry has its class and, if it is one of a member, lists it. -/
structure Closed (image : Image) : Prop where
  ids : ∀ (i : Nat) (c : ClassInfo), image.classes[i]? = some c → c.id = i
  classes : ∀ c ∈ image.classes, image.ClassClosed c
  handlers : ∀ h ∈ image.handlers, image.HasClass h.classId ∧
    (h.catchId = -1 ∨ image.HasClass h.catchId)
  natives : ∀ (k : Nat) (n : NativeInfo), image.natives[k]? = some n → n.index = k
  builtins : ∀ b ∈ image.builtins, image.HasClass b.classId ∧
    ∃ e ∈ Builtin.catalog, e.name = b.name ∧
      if e.isMember then image.Lists b.classId b.linkId else b.linkId = -1

/-! ### Classes -/

section

variable {s : Source} {o : LinkOptions} {p : Program} {l : Linker} {c : Class}
  {deps : List RefAddr} {r₁ : Registry} {image : Image} {row : Nat} {c₂ : Class}

/-- A class of the program is described in the image. -/
theorem BuiltFrom.exists_info (hb : BuiltFrom p.plan image) (hrow : row ∈ p.registry.live)
    (hc₂ : p.registry.classAt? row = some c₂) :
    ∃ info ∈ image.classes, info.Describes p.registry c₂ :=
  forall₂_mem_left hb.infos (mem_classes.mpr ⟨hrow, hc₂⟩ : (row, c₂) ∈ p.registry.classes)

theorem BuiltFrom.exists_class (hb : BuiltFrom p.plan image) {info : ClassInfo}
    (hinfo : info ∈ image.classes) : ∃ row c₂, row ∈ p.registry.live ∧
      p.registry.classAt? row = some c₂ ∧ info.Describes p.registry c₂ := by
  obtain ⟨⟨row, c₂⟩, hmem, hdesc⟩ := forall₂_mem_right hb.infos hinfo
  obtain ⟨hrow, hc₂⟩ := mem_classes.mp hmem
  exact ⟨row, c₂, hrow, hc₂, hdesc⟩

theorem BuiltFrom.hasClass (hb : BuiltFrom p.plan image) (hrow : row ∈ p.registry.live)
    (hc₂ : p.registry.classAt? row = some c₂) : image.HasClass c₂.id := by
  obtain ⟨info, hinfo, hdesc⟩ := hb.exists_info hrow hc₂
  exact ⟨info, hinfo, hdesc.id_eq⟩

/-- What a class declares with a link id, its description lists. -/
theorem BuiltFrom.lists (hb : BuiltFrom p.plan image) (hrow : row ∈ p.registry.live)
    (hc₂ : p.registry.classAt? row = some c₂) {sig : Signature} {d : Declaration} {link : Nat}
    (hd : c₂.declared? sig = some d) (hlink : d.linkId = some link)
    (hlt : link < p.registry.signatures.length) : image.Lists c₂.id link := by
  obtain ⟨info, hinfo, hdesc⟩ := hb.exists_info hrow hc₂
  refine ⟨Int.natCast_nonneg link, ?_, info, hinfo, hdesc.id_eq, ?_⟩
  · have hlength := congrArg List.length hb.signatures_eq
    rw [List.length_map] at hlength
    rw [hlength]
    exact Int.ofNat_lt.mpr hlt
  · rcases Class.mem_of_declared? hd with ⟨m, hm, rfl, -⟩ | ⟨f, hf, rfl, -⟩
    · refine .inl (List.mem_map.mpr ⟨methodInfo m, (hdesc.methods _).mpr ⟨m, hm, rfl⟩, ?_⟩)
      rw [methodInfo, show m.linkId = some link from hlink]
      rfl
    · rw [hdesc.fields_eq, List.map_map]
      refine .inr (List.mem_map.mpr ⟨f, hf, ?_⟩)
      rw [Function.comp, fieldInfo, show f.linkId = some link from hlink]
      rfl

theorem id_of_place (h : p.Built s o l c deps r₁) (hb : BuiltFrom p.plan image) {i : Nat}
    {info : ClassInfo} (hi : image.classes[i]? = some info) : info.id = i := by
  obtain ⟨⟨row, c₂⟩, hclass, hdesc⟩ := forall₂_getElem?_right hb.infos hi
  have hclass : p.registry.classes[i]? = some (row, c₂) := hclass
  rw [getElem?_classes fun row hrow => h.exists_class hrow] at hclass
  obtain ⟨row', hrow', hclass⟩ := Option.bind_eq_some_iff.mp hclass
  obtain ⟨c₂', hc₂', hpair⟩ := Option.map_eq_some_iff.mp hclass
  cases hpair
  rw [hdesc.id_eq, h.compactedTo.id_eq h.wellFormed hrow' hc₂']

/-- The supertypes of a class come before it. -/
theorem super_closed (h : p.Built s o l c deps r₁) (hrow : row ∈ p.registry.live)
    (hc₂ : p.registry.classAt? row = some c₂) {info : ClassInfo}
    (hdesc : info.Describes p.registry c₂) :
    (info.super = -1 ↔ info.id = 0) ∧ (info.super ≠ -1 → 0 ≤ info.super ∧ info.super < info.id) := by
  rw [hdesc.super_eq, hdesc.id_eq, h.id_eq hrow hc₂, superOf?]
  rcases h.super_cases hrow hc₂ with ⟨hzero, hsuper⟩ | ⟨hne, hsuper, q, hq, hlt⟩
  · rw [if_pos hsuper, hzero]
    exact ⟨⟨fun _ => rfl, fun _ => rfl⟩, fun hother => absurd rfl hother⟩
  · obtain ⟨-, cq, hcq, hid⟩ := h.exists_of_find? hq
    rw [if_neg hsuper, h.find?_eq, hq, Option.bind_some, hcq, Option.map_some, hid]
    simp only [idOr]
    omega

theorem interface_closed (h : p.Built s o l c deps r₁) (hrow : row ∈ p.registry.live)
    (hc₂ : p.registry.classAt? row = some c₂) {info : ClassInfo}
    (hdesc : info.Describes p.registry c₂) {id : Int} (hid : id ∈ info.interfaces) :
    0 ≤ id ∧ id < info.id := by
  rw [hdesc.interfaces_eq] at hid
  obtain ⟨name, hname, hid⟩ := List.mem_filterMap.mp hid
  obtain ⟨q, hq, hlt⟩ := h.interface_lt hrow hc₂ hname
  obtain ⟨-, cq, hcq, hidq⟩ := h.exists_of_find? hq
  rw [classId?, h.find?_eq, hq, Option.bind_some, hcq, Option.map_some, hidq] at hid
  cases hid
  rw [hdesc.id_eq, h.id_eq hrow hc₂]
  exact ⟨Int.natCast_nonneg q, Int.ofNat_lt.mpr hlt⟩

theorem element_closed (h : p.Built s o l c deps r₁) (hrow : row ∈ p.registry.live)
    (hc₂ : p.registry.classAt? row = some c₂) {info : ClassInfo}
    (hdesc : info.Describes p.registry c₂) (hkind : info.kind = ClassKind.objectArray.text) :
    0 ≤ info.element ∧ info.element < info.id := by
  rw [hdesc.kind_eq] at hkind
  rcases h.kind_cases hrow hc₂ with hother | hother | hother | ⟨hobject, q, hq, hlt⟩
  · rw [hother] at hkind
    exact absurd hkind (by decide)
  · rw [hother] at hkind
    exact absurd hkind (by decide)
  · rw [hother] at hkind
    exact absurd hkind (by decide)
  · have helement := hdesc.element
    obtain ⟨-, cq, hcq, hidq⟩ := h.exists_of_find? hq
    rw [elementId, if_pos hobject, classId?, h.find?_eq, hq, Option.bind_some, hcq,
      Option.map_some, hidq] at helement
    rw [hdesc.id_eq, h.id_eq hrow hc₂, ← Except.ok.inj helement]
    exact ⟨Int.natCast_nonneg q, Int.ofNat_lt.mpr hlt⟩

theorem target_closed (h : p.Built s o l c deps r₁) (hb : BuiltFrom p.plan image)
    (hrow : row ∈ p.registry.live) (hc₂ : p.registry.classAt? row = some c₂) {pos : Nat}
    {ref : Reference} {name : Text} {target : Option Nat} (hmem : (pos, ref) ∈ c₂.references)
    (hbody : ref.body = .classRef name target) : image.HasClass (idOr target) := by
  obtain ⟨row', ct, hrow', hct, rfl⟩ := h.exists_target hrow hc₂ hmem hbody
  exact hb.hasClass hrow' hct

/-! ### Code -/

/-- What the final code of a class refers to is in the image. -/
theorem instruction_closed (h : p.Built s o l c deps r₁) (hnames : s.NoArrays)
    (hb : BuiltFrom p.plan image) (hrow : row ∈ p.registry.live)
    (hc₂ : p.registry.classAt? row = some c₂) {info : ClassInfo}
    (hdesc : info.Describes p.registry c₂) {i : Instruction} (hi : i.Backed l.Has c₂)
    (hmember : Opcode.operand i.op = .memberSlot → ∃ index, i.slot? = some index ∧
      index < c₂.table.length ∧ p.registry.EntryLinked c₂ index) :
    image.InstructionClosed info i := by
  obtain ⟨c₀, c₁, -, -, -, -, hcompacted⟩ := h.exists_origin hrow hc₂
  have hslots := h.slots_nodup hrow hc₂
  refine ⟨fun hop => ?_, fun hop => ?_, fun hop => ?_, fun hop => ?_⟩
  · obtain ⟨index, hindex, -, hlinked⟩ := hmember hop
    obtain ⟨entry, m, target, declaring, link, rowt, ct, rowd, co, d, hentry, hbody, hrowt, hct,
      hidt, hrowd, hco, hidd, hd, hlink, hlt⟩ := hlinked
    have hget := getElem?_memberLinks (fun pos hpos => hcompacted.exists_of_table hpos) hentry hbody
    rw [← hdesc.memberRefs_eq] at hget
    exact ⟨index, _, hindex, hget, hidt ▸ hb.hasClass hrowt hct,
      hidd ▸ hb.lists hrowd hco hd hlink hlt⟩
  · obtain ⟨slot, hslot, hkeeps⟩ := hi.classSlot hop
    refine ⟨slot, hslot, ?_⟩
    rw [hdesc.classRefs_eq, classLinks_slots]
    exact List.count_eq_one_of_mem (Class.slotsOf_nodup hslots _) hkeeps.mem_slotsOf
  · obtain ⟨slot, hslot, hkeeps⟩ := hi.constantSlot hop
    refine ⟨slot, hslot, ?_⟩
    rw [hdesc.classRefs_eq, hdesc.literals_eq, classLinks_slots, literalSlots_slots]
    refine List.count_eq_one_of_mem (Class.slotsOf_append_nodup hslots (by decide)) ?_
    exact List.mem_append.mpr (hkeeps.imp Class.KeepsAt.mem_slotsOf Class.KeepsAt.mem_slotsOf)
  · obtain ⟨type, t, htype, hcode, hhas⟩ := hi.arrayType hop
    obtain ⟨rowa, ca, hrowa, hca, hkind, helement⟩ := h.exists_primitiveArray hnames hhas
    obtain ⟨a, ha, hdesca⟩ := hb.exists_info hrowa hca
    refine ⟨type, htype, a, ha, ?_, ?_⟩
    · rw [hdesca.kind_eq, hkind]
    · rw [hdesca.elementType_eq, helement, hcode]

/-- The code of a method stands in the image and is closed. -/
theorem code_closed (h : p.Built s o l c deps r₁) (hnames : s.NoArrays)
    (hb : BuiltFrom p.plan image) (hrow : row ∈ p.registry.live)
    (hc₂ : p.registry.classAt? row = some c₂) {info : ClassInfo}
    (hdesc : info.Describes p.registry c₂) {m : MethodInfo} (hm : m ∈ info.methods)
    (hoffset : 0 ≤ m.codeOffset) :
    m.codeOffset + m.codeLength ≤ image.code.length ∧
      (Code.decode (image.codeOf m)).ending = .complete ∧
      ∀ i ∈ (Code.decode (image.codeOf m)).instrs, image.InstructionClosed info i := by
  obtain ⟨m₂, hm₂, rfl⟩ := (hdesc.methods m).mp hm
  have hstart : (methodInfo m₂).codeOffset = idOr m₂.codeOffset := rfl
  have hlength : (methodInfo m₂).codeLength = m₂.code.length := rfl
  have hplaced : m₂.codeOffset ≠ none := by
    intro hnone
    rw [hstart, hnone, idOr] at hoffset
    omega
  have hcode := (h.compactedTo.placed h.placed).codePlaced hrow hc₂ m₂ hm₂ hplaced
  obtain ⟨before, after, hbefore, hall⟩ := hb.code (mem_classes.mpr ⟨hrow, hc₂⟩) hm₂ hcode
  obtain ⟨hcomplete, hbacked⟩ := h.code_backed hrow hc₂ hm₂ hcode
  have hslice : image.codeOf (methodInfo m₂) = m₂.code := by
    rw [codeOf, hstart, hlength, hbefore, hall, List.append_assoc, idOr, Int.toNat_natCast,
      Int.toNat_natCast, List.drop_left, List.take_left]
  refine ⟨?_, hslice ▸ hcomplete, fun i hi => ?_⟩
  · rw [hstart, hlength, hbefore, hall, idOr, List.length_append, List.length_append]
    omega
  · rw [hslice] at hi
    obtain ⟨hi, hmember⟩ := hbacked i hi
    exact instruction_closed h hnames hb hrow hc₂ hdesc hi hmember

/-- The class that a handler catches is in the image. -/
theorem catch_closed (h : p.Built s o l c deps r₁) (hb : BuiltFrom p.plan image) {m : Method}
    {handler : Handler} {id : Int} (hok : catchId p.registry c₂ m handler = .ok id) :
    id = -1 ∨ image.HasClass id := by
  unfold catchId at hok
  split at hok
  · cases hok
    exact .inl rfl
  · split at hok
    case h_2 => cases hok
    case h_1 name target hbody =>
        cases hok
        obtain ⟨ref, href, hbody⟩ := Option.map_eq_some_iff.mp hbody
        obtain ⟨a, ha, href⟩ := Option.bind_eq_some_iff.mp href
        obtain ⟨ca, hca, -, hslot⟩ := exists_of_refAddr? ha
        obtain ⟨ca', hca', hpool⟩ := refAt?_eq_some.mp href
        cases hca.symm.trans hca'
        have hlive : a.row ∈ p.registry.live := by
          rw [h.compactedTo.live_eq]
          by_contra hdead
          rw [h.compactedTo.forgotten hdead hca] at hslot
          cases hslot
        obtain ⟨c₀, c₁, -, -, -, -, hcompacted⟩ := h.exists_origin hlive hca
        obtain ⟨ref', hmem⟩ := hcompacted.exists_of_slot hslot
        cases hpool.symm.trans (Class.mem_references.mp hmem).2
        exact .inr (target_closed h hb hlive hca hmem hbody)

/-! ### Native methods and catalog entries -/

theorem kept_of_mem_methods (h : p.Built s o l c deps r₁) (hrow : row ∈ p.registry.live)
    (hc₂ : p.registry.classAt? row = some c₂) {m : Method} (hm : m ∈ c₂.methods) :
    m.kept = true := by
  obtain ⟨c₀, c₁, -, -, -, -, hcompacted⟩ := h.exists_origin hrow hc₂
  obtain ⟨m₁, hm₁, hrelocates⟩ := forall₂_mem_right hcompacted.methods hm
  rw [hrelocates.frame]
  exact (List.mem_filter.mp hm₁).2

/-- The native methods of the program, class by class, have consecutive indices. -/
theorem native_indices (h : p.Built s o l c deps r₁) : ∃ n,
    (((methodsOf (p.registry.classes.map Prod.snd)).filter fun q => q.2.kind = .native).map
      fun q => idOr q.2.nativeIndex) = (List.range n).map Int.ofNat := by
  obtain ⟨n, hn⟩ := (h.compactedTo.placed h.placed).natives
  refine ⟨n, ?_⟩
  have hmethods : ((methodsOf (p.registry.classes.map Prod.snd)).filter fun q =>
      q.2.kind = .native).map (fun q => idOr q.2.nativeIndex) =
        (p.registry.classes.map Prod.snd).flatMap fun c =>
          (c.methods.filter fun m => m.kind = .native).map fun m => idOr m.nativeIndex := by
    rw [methodsOf, List.filter_flatMap, List.map_flatMap]
    refine List.flatMap_congr fun c _ => ?_
    rw [List.filter_map, List.map_map]
    rfl
  have hrows : (List.range n).map Int.ofNat =
      (p.registry.live.flatMap p.registry.nativesAt).map idOr := by
    rw [hn, List.map_map]
    rfl
  rw [hmethods, flatMap_classes, hrows, List.map_flatMap]
  refine List.flatMap_congr fun row hrow => ?_
  obtain ⟨c₂, hc₂⟩ := h.exists_class hrow
  rw [nativesAt, hc₂, Option.map_some, Option.map_some, Option.getD_some, Option.getD_some,
    Class.nativeIndices, List.map_map]
  refine congrArg _ (List.filter_congr fun m hm => ?_)
  rw [kept_of_mem_methods h hrow hc₂ hm, Bool.true_and]

theorem natives_closed (h : p.Built s o l c deps r₁) (hb : BuiltFrom p.plan image) {k : Nat}
    {entry : NativeInfo} (hk : image.natives[k]? = some entry) : entry.index = k := by
  obtain ⟨natives, hsorted, hindices⟩ := hb.natives_eq
  obtain ⟨n, hn⟩ := native_indices h
  have hindices : natives.map NativeInfo.index = (List.range n).map Int.ofNat := hindices.trans hn
  -- The table is in order before it is sorted.
  have hpairwise : natives.Pairwise fun a b => decide (a.index ≤ b.index) = true := by
    have hrange : (natives.map NativeInfo.index).Pairwise (· ≤ ·) := by
      rw [hindices, List.pairwise_map]
      exact List.pairwise_lt_range.imp fun hlt => Int.ofNat_le.mpr (Nat.le_of_lt hlt)
    exact (List.pairwise_map.mp hrange).imp fun hle => decide_eq_true hle
  rw [hsorted, List.mergeSort_of_pairwise hpairwise] at hk
  have hget : (natives.map NativeInfo.index)[k]? = some entry.index := by
    rw [List.getElem?_map, hk, Option.map_some]
  rw [hindices, List.getElem?_map] at hget
  obtain ⟨k', hk', hindex⟩ := Option.map_eq_some_iff.mp hget
  obtain ⟨hlt, hsame⟩ := List.getElem?_eq_some_iff.mp hk'
  rw [List.getElem_range] at hsame
  rw [← hindex, ← hsame]
  rfl

/-- A member of a class of the program has a link id. -/
theorem exists_linkId (h : p.Built s o l c deps r₁) (hrow : row ∈ p.registry.live)
    (hc₂ : p.registry.classAt? row = some c₂) {sig : Signature} {d : Declaration}
    (hd : c₂.declared? sig = some d) :
    ∃ link, d.linkId = some link ∧ link < p.registry.signatures.length := by
  obtain ⟨c₀, c₁, -, hc₁, hkept, -, hcompacted⟩ := h.exists_origin hrow hc₂
  have hrel := hcompacted.declared?_rel (h.wellFormed.signatures_nodup hc₁) sig
  rw [hd] at hrel
  obtain ⟨d₁, hd₁, hreld⟩ := rel_some_right hrel
  obtain ⟨hd₁, hkept₁⟩ := Option.filter_eq_some_iff.mp hd₁
  rw [h.linkedTo.laid.keptRows_eq] at hkept
  obtain ⟨link, hlink, hsig⟩ := (h.linkedTo.numbered hkept hc₁).linkId hd₁ hkept₁
  refine ⟨link, hreld.linkId_eq.trans hlink, ?_⟩
  rw [h.compactedTo.signatures_eq]
  exact (List.getElem?_eq_some_iff.mp hsig).1

theorem builtin_closed (h : p.Built s o l c deps r₁) (hb : BuiltFrom p.plan image) {e : Builtin}
    {link : BuiltinLink} (hok : builtinLink p.registry e = .ok link) :
    image.HasClass link.classId ∧ e.name = link.name ∧
      if e.isMember then image.Lists link.classId link.linkId else link.linkId = -1 := by
  unfold builtinLink at hok
  split at hok
  case h_1 => cases hok
  case h_2 cb hcb =>
      obtain ⟨row, hfind, hcb⟩ := Option.bind_eq_some_iff.mp hcb
      rw [h.find?_eq] at hfind
      have hrow := (h.exists_of_find? hfind).1
      have hclass := hb.hasClass hrow hcb
      split at hok
      case isFalse hmember =>
          cases hok
          exact ⟨hclass, rfl, by rw [if_neg hmember]⟩
      case isTrue hmember =>
          split at hok
          case h_1 => cases hok
          case h_2 d hd =>
              cases hok
              obtain ⟨n, hn, hlt⟩ := exists_linkId h hrow hcb hd
              refine ⟨hclass, rfl, ?_⟩
              rw [if_pos hmember, hn]
              exact hb.lists hrow hcb hd hn hlt

end

end Image

namespace Program

open Image

/-- The image of a linked program has no reference that leads out of it. -/
theorem image_closed (s : Source) (hnames : s.NoArrays) (o : LinkOptions) (p : Program)
    (image : Image) (hlink : link s o = .ok p) (himage : p.image = .ok image) : image.Closed := by
  obtain ⟨l, c, deps, r₁, h⟩ := link_ok hlink
  have hb := build_ok himage
  refine ⟨fun i info hi => id_of_place h hb hi, fun info hinfo => ?_, fun info hinfo => ?_,
    fun k entry hk => natives_closed h hb hk, fun link hlink => ?_⟩
  · obtain ⟨row, c₂, hrow, hc₂, hdesc⟩ := hb.exists_class hinfo
    obtain ⟨hroot, hsuper⟩ := super_closed h hrow hc₂ hdesc
    refine ⟨hroot, hsuper, fun id hid => interface_closed h hrow hc₂ hdesc hid,
      element_closed h hrow hc₂ hdesc, fun ref href => ?_,
      fun m hm hoffset => code_closed h hnames hb hrow hc₂ hdesc hm hoffset⟩
    rw [hdesc.classRefs_eq] at href
    obtain ⟨pos, ref, name, target, hmem, hbody, rfl⟩ := mem_classLinks.mp href
    exact target_closed h hb hrow hc₂ hmem hbody
  · obtain ⟨row, c₂, m, handler, hmem, -, -, hclass, hcatch⟩ := hb.handlers info hinfo
    obtain ⟨hrow, hc₂⟩ := mem_classes.mp hmem
    exact ⟨hclass ▸ hb.hasClass hrow hc₂, catch_closed h hb hcatch⟩
  · obtain ⟨e, he, hok⟩ := hb.builtins link hlink
    obtain ⟨hclass, hname, hmember⟩ := builtin_closed h hb hok
    exact ⟨hclass, e, he, hname, hmember⟩

/-- A program whose code makes an array, tests for a class and loads a constant, with a native method
and an exception handler. -/
def variedSource : Source := .ofDecls [
  .bareRoot,
  .simple false "A" RuntimeSeeds.defaultRoot []
    [.simple "run" true [0x12, 0x01, 0x57, 0xB1]] [⟨1, .constant 3 (some (.int 7))⟩],
  .simple false "B" "A" []
    [{ MethodDecl.simple "run" true [0x01, 0xC1, 0x00, 0x01, 0x57, 0xB1] with
       handlers := [⟨0, 4, 5, 1⟩] }] [⟨1, .classRef "A"⟩],
  .simple false "C" RuntimeSeeds.defaultRoot []
    [.simple "run" true [0x04, 0xBC, 0x0A, 0x57, 0xB1],
     { MethodDecl.simple "peek" true [] with isNative := true, isAbstract := false }] [],
  .simple false "java/lang/OutOfMemoryError" RuntimeSeeds.defaultRoot []
    [.simple "<init>" false [0xB1],
     { MethodDecl.simple "getInstance" true [0x01, 0xB0] with
       descriptor := "()Ljava/lang/OutOfMemoryError;" }] [],
  .simple false "java/lang/NegativeArraySizeException" RuntimeSeeds.defaultRoot []
    [.simple "<init>" false [0xB1]] [],
  .simple false "Main" RuntimeSeeds.defaultRoot [] [.simple "main" true [0xB1]] []]

/-- Options that keep the methods of the program. -/
def variedOptions : LinkOptions :=
  { bareOptions with
    required := [⟨"A", "run", "()V"⟩, ⟨"B", "run", "()V"⟩, ⟨"C", "run", "()V"⟩,
      ⟨"C", "peek", "()V"⟩] }

theorem variedSource_noArrays : variedSource.NoArrays := by
  intro name d hload
  have hmem := Source.mem_decls_of_load hload
  have hname := Source.name_of_load hload
  have hall : ∀ d ∈ variedSource.decls, d.name.head? ≠ some (Text.byte '[') := by decide +kernel
  exact hname ▸ hall d hmem

theorem image_closed_varied : ∃ p image, link variedSource variedOptions = .ok p ∧
    p.image = .ok image ∧ image.classes.length = 8 ∧ image.natives.length = 1 ∧
    image.handlers.map HandlerInfo.catchId = [2] ∧ image.builtins.length = 5 ∧ image.Closed := by
  obtain ⟨p, image, hlink, himage, hclasses, hnatives, hhandlers, hbuiltins⟩ :=
    exists_image_of_check variedSource variedOptions
      (fun _ image => image.classes.length = 8 ∧ image.natives.length = 1 ∧
        image.handlers.map HandlerInfo.catchId = [2] ∧ image.builtins.length = 5) (by decide +kernel)
  exact ⟨p, image, hlink, himage, hclasses, hnatives, hhandlers, hbuiltins,
    image_closed _ variedSource_noArrays _ p image hlink himage⟩

end Program

end ClassLinker
