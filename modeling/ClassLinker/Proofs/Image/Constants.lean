import ClassLinker.Proofs.Image.Closed
import ClassLinker.Proofs.Image.Codec
import ClassLinker.Proofs.Program.Constants

/-! The constants of an image that is read back. Under the slot of every instruction that loads a
literal, the class of its method has a constant of the kind and with the value of the pool entry. Of
the floats, one that is no number may become another such pattern, and the negative zero becomes the
positive one. -/

namespace ClassLinker

open Registry Closure

/-- What becomes of a 64-bit float: one that is no number is none afterwards, the negative zero is
the positive one, and every other is the same to the bit. -/
def FloatBits.Survives (bits bits' : UInt64) : Prop :=
  if isNan bits = true then isNan bits' = true
  else if bits = 0x8000000000000000 then bits' = 0
  else bits' = bits

theorem FloatBits.survives_reread (bits : UInt64) : Survives bits (reread bits) := by
  unfold Survives
  cases hzero : isZero bits with
  | true =>
      have hsize : bits.toNat % 0x8000000000000000 = 0 := of_decide_eq_true hzero
      have hnan : isNan bits = false := by
        rw [isNan, hsize]
        rfl
      rw [reread_of_isZero hzero, hnan, if_neg Bool.false_ne_true]
      split
      case isTrue => rfl
      case isFalse hpositive =>
          -- Only two patterns stand for zero.
          have hlt := bits.toNat_lt
          have hne : bits.toNat ≠ 0x8000000000000000 := fun heq =>
            hpositive (UInt64.toNat_inj.mp heq)
          exact UInt64.toNat_inj.mp (by simp; omega)
  | false =>
      rw [reread_of_not_isZero hzero, settleNan]
      cases hnan : isNan bits with
      | true => exact isNan_quietNan
      | false =>
          have hnegative : bits ≠ 0x8000000000000000 := by
            rintro rfl
            cases hzero
          rw [if_neg Bool.false_ne_true, if_neg hnegative, if_neg Bool.false_ne_true]

/-- A constant has the kind and the value of a literal. -/
def Literal.HeldBy (v : Literal) (e : Image.LiteralSlot) : Prop :=
  e.kind = v.kind.text ∧
    match v with
    | .int n => e.int = n
    | .long n => e.int = n
    | .float bits => FloatBits.Survives (FloatBits.widen .single bits.toNat) e.float
    | .double bits => FloatBits.Survives bits e.float
    | .string text => e.text = text

namespace Image

theorem heldBy_reread (slot : Int) (v : Literal) : v.HeldBy (literalSlot slot v).reread := by
  cases v with
  | int n => exact ⟨rfl, rfl⟩
  | long n => exact ⟨rfl, rfl⟩
  | float bits => exact ⟨rfl, FloatBits.survives_reread _⟩
  | double bits => exact ⟨rfl, FloatBits.survives_reread _⟩
  | string text => exact ⟨rfl, rfl⟩

theorem find?_of_nodup {α β : Type} [DecidableEq β] {key : α → β} {xs : List α}
    (hnodup : (xs.map key).Nodup) {x : α} (hx : x ∈ xs) :
    xs.find? (fun y => key y = key x) = some x := by
  cases hfind : xs.find? fun y => key y = key x with
  | none => exact absurd (List.find?_eq_none.mp hfind x hx) (by simp)
  | some y =>
      have hkey : key y = key x := by simpa using List.find?_some hfind
      exact congrArg some (List.inj_on_of_nodup_map hnodup (List.mem_of_find?_eq_some hfind) hx hkey)

/-- A literal that is kept at a slot is found there when the class is read back. -/
theorem find?_literal {r : Registry} {c : Class} {info : ClassInfo} (hdesc : info.Describes r c)
    (hslots : (c.references.map fun p => p.2.slot).Nodup) {slot : Int} {v : Literal}
    (hkeeps : c.KeepsLiteral slot v) :
    info.reread.literals.find? (fun e => e.slot = slot) = some (literalSlot slot v).reread := by
  obtain ⟨pos, ref, hmem, -, hslot, hbody⟩ := hkeeps
  have hlisted : literalSlot slot v ∈ info.literals := by
    rw [hdesc.literals_eq]
    refine List.mem_filterMap.mpr ⟨(pos, ref), hmem, ?_⟩
    simp only [hbody, hslot]
  have hnodup : (info.literals.map LiteralSlot.slot).Nodup := by
    rw [hdesc.literals_eq, literalSlots_slots]
    exact Class.slotsOf_nodup hslots .literal
  have hfind := find?_of_nodup hnodup hlisted
  rw [slot_literalSlot] at hfind
  show (info.literals.map LiteralSlot.reread).find? _ = _
  rw [List.find?_map]
  show (info.literals.find? fun e => e.slot = slot).map _ = _
  rw [hfind, Option.map_some]

end Image

/-- A program that loads a text that class files may hold and that is not UTF-8: the one character
NUL, which they write in two bytes. -/
def nulSource : Source := .ofDecls [
  .bareRoot,
  .simple false "java/lang/String" RuntimeSeeds.defaultRoot [] [] [],
  .simple false "A" RuntimeSeeds.defaultRoot [] [.simple "run" true [0x12, 0x01, 0x57, 0xB1]]
    [⟨1, .ofLiteral (.string [0xC0, 0x80])⟩],
  .simple false "Main" RuntimeSeeds.defaultRoot [] [.simple "main" true [0xB1]] []]

/-- Options that keep the method that loads the text. -/
def nulOptions : LinkOptions :=
  { Program.bareOptions with required := [⟨"A", "run", "()V"⟩] }

namespace Program

open Image

/-- The program with odd floats has an image that can be read back. -/
theorem floatSource_image : ∃ p image, link floatSource floatOptions = .ok p ∧
    p.image = .ok image ∧ image.Fits none ∧ (∀ t ∈ image.texts, t.isUtf8 = true) ∧
    (∃ q ∈ p.registry.classes, q.2.name = Text.ofString "A" ∧ ∃ m ∈ q.2.methods,
      ∃ i ∈ (Code.decode m.rawCode).instrs,
        Opcode.operand i.op = .constantSlot ∧ i.slot? = some 1) ∧
    ∃ c ∈ image.classes, c.name = Text.ofString "B" ∧
      c.literals = [literalSlot 1 (.double 0x8000000000000000)] := by
  obtain ⟨p, image, hlink, himage, hcheck⟩ := exists_image_of_check floatSource floatOptions
    (fun p image => decide (image.withoutMethods.Fits none ∧
      (∀ q ∈ p.plan.registry.classes, MethodsFit none q.2) ∧
      (∀ t ∈ image.withoutMethods.texts, t.isUtf8 = true) ∧
      (∀ q ∈ p.plan.registry.classes, ∀ m ∈ q.2.methods, ∀ t ∈ (methodInfo m).texts,
        t.isUtf8 = true) ∧
      (∃ q ∈ p.registry.classes, q.2.name = Text.ofString "A" ∧ ∃ m ∈ q.2.methods,
        ∃ i ∈ (Code.decode m.rawCode).instrs,
          Opcode.operand i.op = .constantSlot ∧ i.slot? = some 1) ∧
      ∃ c ∈ image.classes, c.name = Text.ofString "B" ∧
        c.literals = [literalSlot 1 (.double 0x8000000000000000)]) = true) (by decide +kernel)
  obtain ⟨hbare, hmethods, htexts, hnames, hloads, hholds⟩ := of_decide_eq_true hcheck
  exact ⟨p, image, hlink, himage, fits_of_build himage hbare hmethods,
    isUtf8_of_build himage htexts hnames, hloads, hholds⟩

/-- The program with the text has an image, which holds the text. -/
theorem nulSource_image : ∃ p image, link nulSource nulOptions = .ok p ∧ p.image = .ok image ∧
    image.Fits none ∧ ∃ t ∈ image.texts, t.isUtf8 = false := by
  obtain ⟨p, image, hlink, himage, hbare, hmethods, c, hc, e, he, hbad⟩ :=
    exists_image_of_check nulSource nulOptions
      (fun p image => image.withoutMethods.Fits none ∧
        (∀ q ∈ p.plan.registry.classes, MethodsFit none q.2) ∧
        ∃ c ∈ image.classes, ∃ e ∈ c.literals, e.text.isUtf8 = false) (by decide +kernel)
  refine ⟨p, image, hlink, himage, fits_of_build himage hbare hmethods, e.text, ?_, hbad⟩
  have htext : e.text ∈ c.texts := by
    refine List.mem_append_right _ (List.mem_flatMap.mpr ⟨e, he, ?_⟩)
    exact List.mem_cons_of_mem _ (List.mem_singleton_self _)
  have hclasses : e.text ∈ image.classes.flatMap ClassInfo.texts :=
    List.mem_flatMap.mpr ⟨c, hc, htext⟩
  simp only [texts, List.mem_append, hclasses, true_or, or_true]

/-- The description of a class stands at its id. -/
theorem exists_info_at {s : Source} {o : LinkOptions} {p : Program} {l : Linker} {cl : Class}
    {deps : List RefAddr} {r₁ : Registry} (h : p.Built s o l cl deps r₁) {image : Image}
    (hb : BuiltFrom p.plan image) {row : Nat} {c : Class} (hrow : row ∈ p.registry.live)
    (hc : p.registry.classAt? row = some c) :
    ∃ info, image.classes[c.id]? = some info ∧ info.Describes p.registry c := by
  have hplace : p.registry.classes[c.id]? = some (row, c) := by
    have hlive : p.registry.live[row]? = some row := by
      rw [h.live_eq] at hrow ⊢
      exact List.getElem?_range (List.mem_range.mp hrow)
    rw [getElem?_classes fun row hrow => h.exists_class hrow, h.id_eq hrow hc, hlive,
      Option.bind_some, hc, Option.map_some]
  exact forall₂_getElem?_right hb.infos.flip hplace

/-- The constants of a linked program survive being written and read back. The image can be read when
every text in it is UTF-8; then, for every class and every instruction of a method of it, as declared
or in the final code, that loads a pool entry with a literal, the class has a constant at the slot of
the entry, with its kind and its value. -/
theorem constants_survive (s : Source) (o : LinkOptions) (p : Program) (image : Image)
    (hlink : link s o = .ok p) (himage : p.image = .ok image) (limit : Option Nat)
    (hfits : image.Fits limit) (hutf8 : ∀ t ∈ image.texts, t.isUtf8 = true) :
    ∃ decoded, decodeWithin? limit image.encode = some decoded ∧
      ∀ row c m i (slot : Nat) kind value d, (row, c) ∈ p.registry.classes → m ∈ c.methods →
        i ∈ (Code.decode m.rawCode).instrs ∨ i ∈ (Code.decode m.code).instrs →
        Opcode.operand i.op = .constantSlot → i.slot? = some slot →
        s.load c.name = .ok d → ⟨slot, .constant kind value⟩ ∈ d.pool →
        ∃ v info e, value = some v ∧ PoolItem.literalKind? kind = some v.kind ∧
          decoded.classes[c.id]? = some info ∧ info.name = c.name ∧
          info.literals.find? (fun e => e.slot = (slot : Int)) = some e ∧ v.HeldBy e := by
  obtain ⟨l, cl, deps, r₁, h⟩ := link_ok hlink
  refine ⟨image.reread, ?_, ?_⟩
  · have hall : allUtf8 image.texts = true := List.all_eq_true.mpr hutf8
    rw [decodeWithin?_encode hfits, hall]
    rfl
  · intro row c m i slot kind value d hmem hm hi hop hslot hload hp
    obtain ⟨hrow, hc⟩ := mem_classes.mp hmem
    have hraw := hi.elim id fun hfinal => h.declared_of_constant hrow hc hm hfinal hop
    obtain ⟨v, hvalue, hkind, hkeeps⟩ := h.literal_kept hrow hc hm hraw hop hslot hload hp
    obtain ⟨info, hplace, hdesc⟩ := exists_info_at h (build_ok himage) hrow hc
    have hslots := h.slots_nodup hrow hc
    refine ⟨v, info.reread, _, hvalue, hkind, ?_, hdesc.name_eq, find?_literal hdesc hslots hkeeps,
      heldBy_reread slot v⟩
    show (image.classes.map ClassInfo.reread)[c.id]? = _
    rw [List.getElem?_map, hplace, Option.map_some]

theorem constants_survive_floats : ∃ (p : Program) (image decoded : Image) (c : Class)
    (info : ClassInfo) (e : LiteralSlot),
    link floatSource floatOptions = .ok p ∧ p.image = .ok image ∧
      decodeWithin? none image.encode = some decoded ∧ c.name = Text.ofString "A" ∧
      decoded.classes[c.id]? = some info ∧ info.name = c.name ∧
      info.literals.find? (fun e => e.slot = 1) = some e ∧ e.kind = LiteralKind.float.text ∧
      FloatBits.isNan e.float = true := by
  obtain ⟨p, image, hlink, himage, hfits, hutf8, ⟨⟨row, c⟩, hmem, hname, m, hm, i, hi, hop, hslot⟩, -⟩ :=
    floatSource_image
  obtain ⟨decoded, hdecoded, hall⟩ := constants_survive _ _ p image hlink himage none hfits hutf8
  obtain ⟨d, hload, hp⟩ : ∃ d, floatSource.load (Text.ofString "A") = .ok d ∧
      ⟨(1 : Nat), .ofLiteral (.float 0xFFA00001)⟩ ∈ d.pool := ⟨_, rfl, List.mem_singleton_self _⟩
  obtain ⟨v, info, e, hv, -, hplace, hinfo, hfind, hkind, hvalue⟩ :=
    hall row c m i 1 _ _ d hmem hm (.inl hi) hop hslot (hname ▸ hload) hp
  cases hv
  refine ⟨p, image, decoded, c, info, e, hlink, himage, hdecoded, hname, hplace, hinfo, hfind, hkind,
    ?_⟩
  have hnan : FloatBits.isNan (FloatBits.widen .single (0xFFA00001 : UInt32).toNat) = true := by
    decide
  simpa only [FloatBits.Survives, hnan, if_true] using hvalue

/-- Two programs whose constants do not survive: the image of the one with a text that is not UTF-8
cannot be read back, and where the other one loads the negative zero its image, read back, has the
positive one. -/
theorem constants_lost :
    (∃ p image, link nulSource nulOptions = .ok p ∧ p.image = .ok image ∧ image.Fits none ∧
      decodeWithin? none image.encode = none) ∧
    ∃ p image decoded, link floatSource floatOptions = .ok p ∧ p.image = .ok image ∧
      image.Fits none ∧ decodeWithin? none image.encode = some decoded ∧
      ∃ c ∈ decoded.classes, c.name = Text.ofString "B" ∧
        c.literals = [literalSlot 1 (.double 0)] := by
  constructor
  · obtain ⟨p, image, hlink, himage, hfits, t, ht, hbad⟩ := nulSource_image
    refine ⟨p, image, hlink, himage, hfits, ?_⟩
    have hall : allUtf8 image.texts = false := List.all_eq_false.mpr ⟨t, ht, by simp [hbad]⟩
    rw [decodeWithin?_encode hfits, hall]
    rfl
  · obtain ⟨p, image, hlink, himage, hfits, hutf8, -, c, hc, hname, hliterals⟩ := floatSource_image
    have hall : allUtf8 image.texts = true := List.all_eq_true.mpr hutf8
    refine ⟨p, image, image.reread, hlink, himage, hfits, ?_, c.reread,
      List.mem_map_of_mem hc, hname, ?_⟩
    · rw [decodeWithin?_encode hfits, hall]
      rfl
    · show c.literals.map LiteralSlot.reread = _
      rw [hliterals]
      decide

end Program

end ClassLinker
