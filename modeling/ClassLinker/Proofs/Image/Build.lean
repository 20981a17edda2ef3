import ClassLinker.Image.Build
import ClassLinker.Proofs.InitOrder.Order
import ClassLinker.Proofs.Registry.Survivors

/-! What an image is built from. Its classes describe those of the registry, in their order, with
each class reference and each literal under the slot that it has there; the code of every method
stands in the code of the image at the offset of the method; and every native table entry and every
handler comes from a method. -/

namespace ClassLinker

theorem forall₂_getElem?_right {α β : Type} {R : α → β → Prop} {xs : List α} {ys : List β}
    (h : List.Forall₂ R xs ys) {i : Nat} {y : β} (hy : ys[i]? = some y) :
    ∃ x, xs[i]? = some x ∧ R x y := by
  induction h generalizing i with
  | nil => cases hy
  | @cons x y' xs ys hxy _ ih =>
      cases i with
      | zero =>
          cases hy
          exact ⟨x, rfl, hxy⟩
      | succ i => exact ih hy

section Except

variable {ε α β : Type}

theorem except_mapM_ok {f : α → Except ε β} {xs : List α} {ys : List β}
    (hok : xs.mapM f = .ok ys) : List.Forall₂ (fun x y => f x = .ok y) xs ys := by
  induction xs generalizing ys with
  | nil =>
      cases hok
      exact .nil
  | cons x xs ih =>
      rw [List.mapM_cons, except_bind_ok] at hok
      obtain ⟨y, hy, hok⟩ := hok
      obtain ⟨rest, hrest, hok⟩ := except_bind_ok.mp hok
      cases hok
      exact .cons hy (ih hrest)

end Except

/-- The slots of the references of a class to things of one sort. -/
def Class.slotsOf (c : Class) (sort : RefSort) : List Int :=
  (c.references.filter fun p => p.2.body.sort = sort).map fun p => p.2.slot

namespace Class

variable {c : Class} {slot : Int} {sort sort' : RefSort}

theorem mem_slotsOf : slot ∈ c.slotsOf sort ↔
    ∃ p ∈ c.references, p.2.body.sort = sort ∧ p.2.slot = slot := by
  simp [slotsOf, and_assoc]

theorem KeepsAt.mem_slotsOf (h : c.KeepsAt slot sort) : slot ∈ c.slotsOf sort := by
  obtain ⟨pos, ref, hmem, -, hslot, hsort⟩ := h
  exact Class.mem_slotsOf.mpr ⟨(pos, ref), hmem, hsort, hslot⟩

theorem slotsOf_nodup (h : (c.references.map fun p => p.2.slot).Nodup) (sort : RefSort) :
    (c.slotsOf sort).Nodup := h.sublist (List.filter_sublist.map _)

/-- Where no two references share a slot, those of different sorts do not. -/
theorem slotsOf_append_nodup (h : (c.references.map fun p => p.2.slot).Nodup)
    (hne : sort ≠ sort') : (c.slotsOf sort ++ c.slotsOf sort').Nodup := by
  refine List.nodup_append.mpr ⟨slotsOf_nodup h sort, slotsOf_nodup h sort', ?_⟩
  rintro slot hslot _ hslot' rfl
  obtain ⟨p, hp, hsort, hslot⟩ := mem_slotsOf.mp hslot
  obtain ⟨q, hq, hsort', hslot'⟩ := mem_slotsOf.mp hslot'
  cases List.inj_on_of_nodup_map h hp hq (hslot.trans hslot'.symm)
  exact hne (hsort.symm.trans hsort')

end Class

namespace Image

/-! ### Classes -/

theorem classLinks_slots (c : Class) : (classLinks c).map ClassLink.slot = c.slotsOf .cls := by
  unfold classLinks Class.slotsOf
  induction c.references with
  | nil => rfl
  | cons p refs ih => cases hbody : p.2.body <;> simpa [hbody, RefBody.sort] using ih

theorem slot_literalSlot (slot : Int) (v : Literal) : (literalSlot slot v).slot = slot := by
  cases v <;> rfl

theorem literalSlots_slots (c : Class) :
    (literalSlots c).map LiteralSlot.slot = c.slotsOf .literal := by
  unfold literalSlots Class.slotsOf
  induction c.references with
  | nil => rfl
  | cons p refs ih =>
      cases hbody : p.2.body <;> simpa [hbody, RefBody.sort, slot_literalSlot] using ih

theorem mem_classLinks {c : Class} {link : ClassLink} : link ∈ classLinks c ↔
    ∃ pos ref name target, (pos, ref) ∈ c.references ∧ ref.body = .classRef name target ∧
      link = ⟨ref.slot, idOr target⟩ := by
  simp only [classLinks, List.mem_filterMap, Prod.exists]
  constructor
  · rintro ⟨pos, ref, hmem, hlink⟩
    split at hlink
    case h_1 name target hbody =>
        exact ⟨pos, ref, name, target, hmem, hbody, (Option.some.inj hlink).symm⟩
    case h_2 => cases hlink
  · rintro ⟨pos, ref, name, target, hmem, hbody, rfl⟩
    exact ⟨pos, ref, hmem, by rw [hbody]⟩

/-- The member link at a place is made from the entry there. -/
theorem getElem?_memberLinks {c : Class} (htable : ∀ pos ∈ c.table, ∃ ref m target declaring link i,
      c.pool[pos]? = some ref ∧ ref.body = .memberRef m target declaring link i) {index : Nat}
    {entry : Reference} {m : Member} {target declaring link i : Option Nat}
    (hentry : c.entry? index = some entry)
    (hbody : entry.body = .memberRef m target declaring link i) :
    (memberLinks c)[index]? = some ⟨idOr target, idOr declaring, idOr link⟩ := by
  obtain ⟨pos, hpos, hpool⟩ := Option.bind_eq_some_iff.mp hentry
  rw [memberLinks, getElem?_filterMap_of_isSome, hpos, Option.bind_some, hpool, Option.map_some,
    hbody]
  intro pos hmem
  obtain ⟨ref, m, target, declaring, link, i, hpool, hbody⟩ := htable pos hmem
  rw [hpool, Option.map_some, hbody]
  rfl

/-- What the description of a class says. -/
structure ClassInfo.Describes (r : Registry) (c : Class) (info : ClassInfo) : Prop where
  id_eq : info.id = c.id
  name_eq : info.name = c.name
  kind_eq : info.kind = c.kind.text
  super_eq : info.super = idOr (((r.superOf? c).bind r.classAt?).map Class.id)
  interfaces_eq : info.interfaces =
    c.interfaces.filterMap fun name => (classId? r name).map Int.ofNat
  element : elementId r c = .ok info.element
  elementType_eq : info.elementType = c.elementType
  memberRefs_eq : info.memberRefs = memberLinks c
  methods_perm : info.methods.Perm (c.methods.map methodInfo)
  fields_eq : info.fields = c.fields.map fieldInfo
  classRefs_eq : info.classRefs = classLinks c
  literals_eq : info.literals = literalSlots c

theorem classInfo_ok {r : Registry} {c : Class} {info : ClassInfo}
    (hok : classInfo r c = .ok info) : info.Describes r c := by
  unfold classInfo at hok
  obtain ⟨element, helement, hok⟩ := except_bind_ok.mp hok
  cases hok
  exact ⟨rfl, rfl, rfl, rfl, rfl, helement, rfl, rfl, List.mergeSort_perm _ _, rfl, rfl, rfl⟩

theorem ClassInfo.Describes.methods {r : Registry} {c : Class} {info : ClassInfo}
    (h : info.Describes r c) (m : MethodInfo) :
    m ∈ info.methods ↔ ∃ m₀ ∈ c.methods, methodInfo m₀ = m :=
  h.methods_perm.mem_iff.trans List.mem_map

/-! ### Methods -/

/-- The part of an image that some classes and some of the methods of classes went into. -/
structure Assembled (r : Registry) (classes : List Class) (methods : List (Class × Method))
    (image : Image) : Prop where
  infos : List.Forall₂ (fun c info => classInfo r c = .ok info) classes image.classes
  signatures_eq : image.signatures = r.signatures.map Signature.text
  natives_eq : image.natives.map NativeInfo.index =
    (methods.filter fun p => p.2.kind = .native).map fun p => idOr p.2.nativeIndex
  code : ∀ p ∈ methods, p.2.hasCode = true → ∃ before after,
    p.2.codeOffset = some before.length ∧ image.code = before ++ p.2.code ++ after
  handlers : ∀ info ∈ image.handlers, ∃ p ∈ methods, ∃ h ∈ p.2.handlers,
    info.classId = p.1.id ∧ catchId r p.1 p.2 h = .ok info.catchId

theorem nativeInfo_index {c : Class} {m : Method} {natives : List NativeInfo}
    (hok : nativeInfo c m = .ok natives) : natives.map NativeInfo.index =
      ([(c, m)].filter fun p => p.2.kind = .native).map fun p => idOr p.2.nativeIndex := by
  unfold nativeInfo at hok
  split at hok
  case isTrue hnative =>
      rw [List.filter_cons_of_pos (by simpa using hnative)]
      simp only at hok
      split at hok
      · cases hok
      · cases hok
        rfl
  case isFalse hnative =>
      cases hok
      rw [List.filter_cons_of_neg (by simpa using hnative)]
      rfl

theorem eq_some_of_idOr {id : Option Nat} {n : Nat} (h : idOr id = n) : id = some n := by
  cases id with
  | none =>
      rw [idOr] at h
      omega
  | some k => rw [Int.ofNat_inj.mp h]

/-- What adding a method does to an image. The pcs of its lines and its handlers count from where the
code of the image ended. -/
theorem addMethod_ok {r : Registry} {c : Class} {m : Method} {image image' : Image}
    (hok : addMethod r c image m = .ok image') :
    ∃ natives, nativeInfo c m = .ok natives ∧
      ((m.hasCode = false ∧ image' = { image with natives := image.natives ++ natives }) ∨
        ∃ handlers, m.hasCode = true ∧ m.codeOffset = some image.code.length ∧
          List.Forall₂ (fun h info => ∃ id, catchId r c m h = .ok id ∧
            info = ⟨c.id, wordAdd (idOr m.codeOffset) h.start, wordAdd (idOr m.codeOffset) h.stop,
              wordAdd (idOr m.codeOffset) h.target, id⟩) m.handlers handlers ∧
          image' = { image with
            natives := image.natives ++ natives
            code := image.code ++ m.code
            lines := image.lines ++ m.lines.map fun mark =>
              ⟨wordAdd (idOr m.codeOffset) mark.pc, mark.line, (c.member m.sig).text⟩
            handlers := image.handlers ++ handlers }) := by
  unfold addMethod at hok
  obtain ⟨natives, hnatives, hok⟩ := except_bind_ok.mp hok
  refine ⟨natives, hnatives, ?_⟩
  cases hcode : m.hasCode with
  | false =>
      simp only [hcode, Bool.not_false, if_true] at hok
      cases hok
      exact .inl ⟨rfl, rfl⟩
  | true =>
      simp only [hcode, Bool.not_true, Bool.false_eq_true, if_false] at hok
      split at hok
      · cases hok
      case isFalse hoffset =>
          obtain ⟨handlers, hhandlers, hok⟩ := except_bind_ok.mp hok
          cases hok
          refine .inr ⟨handlers, rfl, eq_some_of_idOr (not_not.mp hoffset), ?_, rfl⟩
          refine (except_mapM_ok hhandlers).imp fun h info hinfo => ?_
          obtain ⟨id, hid, hinfo⟩ := except_bind_ok.mp hinfo
          cases hinfo
          exact ⟨id, hid, rfl⟩

/-- A class is described, and its methods are added one after the other. -/
theorem addClass_eq_ok {r : Registry} {c : Class} {image image' : Image} :
    addClass r image c = .ok image' ↔ ∃ info raw, classInfo r c = .ok info ∧
      c.methods.foldlM (addMethod r c) image = .ok raw ∧
      { raw with classes := raw.classes ++ [info] } = image' := by
  unfold addClass
  simp only [except_bind_ok, pure, Except.pure, Except.ok.injEq, exists_and_left]

/-- The methods of some classes, each with its class. -/
def methodsOf (classes : List Class) : List (Class × Method) :=
  classes.flatMap fun c => c.methods.map (c, ·)

/-- What holds before any class is added, and is carried on by each method that is added and by the
description of each class, holds of all classes and their methods in the end. -/
theorem foldlM_addClass_accumulates {r : Registry}
    {P : List Class → List (Class × Method) → Image → Prop} {classes : List Class}
    {image image' : Image} (hstart : P [] [] image)
    (hmethod : ∀ {done methods c m image image'}, P done methods image →
      addMethod r c image m = .ok image' → P done (methods ++ [(c, m)]) image')
    (hclass : ∀ {done methods c image info}, P done methods image → classInfo r c = .ok info →
      P (done ++ [c]) methods { image with classes := image.classes ++ [info] })
    (hok : classes.foldlM (addClass r) image = .ok image') :
    P classes (methodsOf classes) image' := by
  refine foldlM_accumulates (P := fun done image => P done (methodsOf done) image) hstart ?_ hok
  intro done c image image' _ hdone hc
  obtain ⟨info, raw, hinfo, hmethods, rfl⟩ := addClass_eq_ok.mp hc
  refine hclass ?_ hinfo
  rw [methodsOf, List.flatMap_append, List.flatMap_singleton]
  refine foldlM_accumulates (P := fun ms image => P done (methodsOf done ++ ms.map (c, ·)) image)
    (by simpa using hdone) ?_ hmethods
  intro ms m image image' _ hms hm
  rw [List.map_append, ← List.append_assoc]
  exact hmethod hms hm

namespace Assembled

variable {r : Registry} {classes : List Class} {methods : List (Class × Method)}
  {image image' : Image} {c : Class}

/-- One more method. -/
theorem addMethod (h : Assembled r classes methods image) {m : Method}
    (hok : Image.addMethod r c image m = .ok image') :
    Assembled r classes (methods ++ [(c, m)]) image' := by
  obtain ⟨natives, hnatives, hcases⟩ := addMethod_ok hok
  have hindices : (image.natives ++ natives).map NativeInfo.index =
      ((methods ++ [(c, m)]).filter fun p => p.2.kind = .native).map
        fun p => idOr p.2.nativeIndex := by
    rw [List.map_append, h.natives_eq, nativeInfo_index hnatives, List.filter_append,
      List.map_append]
  have hold : ∀ {info}, info ∈ image.handlers → ∃ p ∈ methods ++ [(c, m)], ∃ h ∈ p.2.handlers,
      info.classId = p.1.id ∧ catchId r p.1 p.2 h = .ok info.catchId := by
    intro info hinfo
    obtain ⟨p, hp, hrest⟩ := h.handlers info hinfo
    exact ⟨p, List.mem_append_left _ hp, hrest⟩
  rcases hcases with ⟨hcode, rfl⟩ | ⟨handlers, -, hoffset, hhandlers, rfl⟩
  · refine ⟨h.infos, h.signatures_eq, hindices, fun p hp hpcode => ?_, fun _ hinfo => hold hinfo⟩
    rcases List.mem_append.mp hp with hp | hp
    · exact h.code p hp hpcode
    · rw [List.mem_singleton.mp hp, hcode] at hpcode
      cases hpcode
  · refine ⟨h.infos, h.signatures_eq, hindices, fun p hp hpcode => ?_, fun info hinfo => ?_⟩
    · rcases List.mem_append.mp hp with hp | hp
      · obtain ⟨before, after, hplace, hcode⟩ := h.code p hp hpcode
        refine ⟨before, after ++ m.code, hplace, ?_⟩
        show image.code ++ m.code = _
        rw [hcode, List.append_assoc]
      · cases List.mem_singleton.mp hp
        exact ⟨image.code, [], hoffset, (List.append_nil _).symm⟩
    · rcases List.mem_append.mp hinfo with hinfo | hinfo
      · exact hold hinfo
      · obtain ⟨h, hh, id, hid, rfl⟩ := forall₂_mem_right hhandlers hinfo
        exact ⟨(c, m), List.mem_append_right _ (List.mem_singleton_self _), h, hh, rfl, hid⟩

end Assembled

/-! ### Plans -/

/-- The image of a plan before any class is in it. -/
def Plan.bare (plan : Plan) : Image where
  entry := plan.main.text
  entryOffset := plan.entryOffset
  staticSize := plan.registry.staticSize
  signatures := plan.registry.signatures.map Signature.text
  initOrder := plan.initOrder

/-- Where the runtime finds the catalog entry with an id. -/
def builtinAt (r : Registry) (id : Int) : Except Failure BuiltinLink :=
  match Builtin.lookup? id with
  | none => throw .fault
  | some e => builtinLink r e

/-- The classes of a plan are added one after the other, its catalog entries are found, and lines and
native table entries are sorted. -/
theorem build_eq_ok {plan : Plan} {image : Image} : build plan = .ok image ↔
    plan.registry.closed = true ∧ ∃ raw builtins,
      (plan.registry.classes.map Prod.snd).foldlM (addClass plan.registry) plan.bare = .ok raw ∧
      plan.builtins.mapM (builtinAt plan.registry) = .ok builtins ∧
      withId { raw with
        lines := raw.lines.mergeSort fun a b => a.pc ≤ b.pc
        natives := raw.natives.mergeSort fun a b => a.index ≤ b.index
        builtins } = image := by
  unfold build
  cases hclosed : plan.registry.closed with
  | false => simp [hclosed, bind, Except.bind, throw, throwThe, MonadExceptOf.throw]
  | true =>
      simp only [hclosed, Bool.not_true, Bool.false_eq_true, if_false, except_bind_ok, true_and,
        pure, Except.pure, Except.ok.injEq, exists_and_left]
      rfl

/-- All classes of a plan went into the image with their methods. -/
theorem Assembled.of_foldlM {plan : Plan} {raw : Image}
    (hok : (plan.registry.classes.map Prod.snd).foldlM (Image.addClass plan.registry) plan.bare =
      .ok raw) : Assembled plan.registry (plan.registry.classes.map Prod.snd)
        (methodsOf (plan.registry.classes.map Prod.snd)) raw := by
  refine foldlM_addClass_accumulates (P := Assembled plan.registry) ?_ (fun h hm => h.addMethod hm) ?_
    hok
  · exact ⟨.nil, rfl, rfl, fun p hp => absurd hp List.not_mem_nil,
      fun info hinfo => absurd hinfo List.not_mem_nil⟩
  · intro done methods c image info h hinfo
    exact { h with infos := List.rel_append h.infos (.cons hinfo .nil) }

/-- What the image of a plan holds. -/
structure BuiltFrom (plan : Plan) (image : Image) : Prop where
  infos : List.Forall₂ (fun p info => ClassInfo.Describes plan.registry p.2 info)
    plan.registry.classes image.classes
  signatures_eq : image.signatures = plan.registry.signatures.map Signature.text
  natives_eq : ∃ natives : List NativeInfo,
    image.natives = natives.mergeSort (fun a b => a.index ≤ b.index) ∧
    natives.map NativeInfo.index =
      ((methodsOf (plan.registry.classes.map Prod.snd)).filter fun p => p.2.kind = .native).map
        fun p => idOr p.2.nativeIndex
  code : ∀ {row c m}, (row, c) ∈ plan.registry.classes → m ∈ c.methods → m.hasCode = true →
    ∃ before after, m.codeOffset = some before.length ∧ image.code = before ++ m.code ++ after
  handlers : ∀ info ∈ image.handlers, ∃ row c m h, (row, c) ∈ plan.registry.classes ∧
    m ∈ c.methods ∧ h ∈ m.handlers ∧ info.classId = c.id ∧
    catchId plan.registry c m h = .ok info.catchId
  builtins : ∀ link ∈ image.builtins, ∃ e ∈ Builtin.catalog,
    builtinLink plan.registry e = .ok link

theorem mem_catalog_of_lookup? {id : Int} {e : Builtin} (h : Builtin.lookup? id = some e) :
    e ∈ Builtin.catalog := by
  unfold Builtin.lookup? at h
  split at h
  · cases h
  · exact List.mem_of_getElem? h

theorem mem_methodsOf {classes : List (Nat × Class)} {c : Class} {m : Method} :
    (c, m) ∈ methodsOf (classes.map Prod.snd) ↔ ∃ row, (row, c) ∈ classes ∧ m ∈ c.methods := by
  simp only [methodsOf, List.mem_flatMap, List.mem_map]
  constructor
  · rintro ⟨c', ⟨⟨row, c''⟩, hmem, rfl⟩, m', hm', heq⟩
    cases heq
    exact ⟨row, hmem, hm'⟩
  · rintro ⟨row, hmem, hm⟩
    exact ⟨c, ⟨(row, c), hmem, rfl⟩, m, hm, rfl⟩

theorem build_ok {plan : Plan} {image : Image} (hok : build plan = .ok image) :
    BuiltFrom plan image := by
  obtain ⟨-, raw, builtins, hclasses, hbuiltins, rfl⟩ := build_eq_ok.mp hok
  have hraw := Assembled.of_foldlM hclasses
  have hinfos := List.forall₂_map_left_iff.mp hraw.infos
  refine ⟨hinfos.imp fun p info hinfo => classInfo_ok hinfo, hraw.signatures_eq,
    ⟨raw.natives, rfl, hraw.natives_eq⟩, ?_, ?_, ?_⟩
  · intro row c m hc hm hcode
    exact hraw.code (c, m) (mem_methodsOf.mpr ⟨row, hc, hm⟩) hcode
  · intro info hinfo
    obtain ⟨⟨c, m⟩, hmem, h, hh, hmade⟩ := hraw.handlers info hinfo
    obtain ⟨row, hc, hm⟩ := mem_methodsOf.mp hmem
    exact ⟨row, c, m, h, hc, hm, hh, hmade⟩
  · intro link hlink
    obtain ⟨id, -, hid⟩ := forall₂_mem_right (except_mapM_ok hbuiltins) hlink
    unfold builtinAt at hid
    split at hid
    · cases hid
    · rename_i e he
      exact ⟨e, mem_catalog_of_lookup? he, hid⟩

end Image

/-- What is checked of the program that a link makes and of its image holds of them. -/
theorem Program.exists_image_of_check (s : Source) (o : LinkOptions) (P : Program → Image → Prop)
    [∀ p image, Decidable (P p image)]
    (hcheck : (match link s o with
      | .ok p =>
          match p.image with
          | .ok image => decide (P p image)
          | .error _ => false
      | .error _ => false) = true) :
    ∃ p image, link s o = .ok p ∧ p.image = .ok image ∧ P p image := by
  cases hlink : link s o with
  | error e => simp [hlink] at hcheck
  | ok p =>
      cases himage : p.image with
      | error e => simp [hlink, himage] at hcheck
      | ok image =>
          simp only [hlink, himage, decide_eq_true_eq] at hcheck
          exact ⟨p, image, rfl, himage, hcheck⟩

end ClassLinker
