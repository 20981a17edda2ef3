import ClassLinker.Image.Build
import ClassLinker.Proofs.Cbor.ReadBack
import ClassLinker.Proofs.Image.Build
import ClassLinker.Proofs.Program.Link

/-!
The binary form of images, read back. Reading succeeds exactly when every text is UTF-8, and gives
the image that was written, up to the floats: a zero is not written, so that of either sign is read
as the positive one, and every pattern of no number is read as one. The image that is read has the
same binary form and the same id.
-/

namespace ClassLinker

namespace FloatBits

/-- A float as it is read back from an image: a zero of either sign is not written and is read as
the positive one, every pattern of no number is read as one, and all other floats are kept. -/
def reread (bits : UInt64) : UInt64 := if isZero bits then 0 else settleNan bits

theorem reread_of_isZero {bits : UInt64} (h : isZero bits = true) : reread bits = 0 := if_pos h

theorem reread_of_not_isZero {bits : UInt64} (h : isZero bits = false) :
    reread bits = settleNan bits := by
  rw [reread, h]
  rfl

theorem isZero_settleNan (bits : UInt64) : isZero (settleNan bits) = isZero bits := by
  unfold settleNan
  split
  case isTrue hnan =>
    have hsize : isZero bits = false := by
      simp only [isNan, isZero, decide_eq_true_eq, decide_eq_false_iff_not] at hnan ⊢
      omega
    rw [hsize]
    decide
  case isFalse => rfl

theorem isZero_reread (bits : UInt64) : isZero (reread bits) = isZero bits := by
  cases h : isZero bits with
  | true => rw [reread_of_isZero h]; decide
  | false => rw [reread_of_not_isZero h, isZero_settleNan, h]

theorem settleNan_reread (bits : UInt64) : settleNan (reread bits) = reread bits := by
  cases h : isZero bits with
  | true => rw [reread_of_isZero h]; decide
  | false => rw [reread_of_not_isZero h, settleNan_idem]

end FloatBits

namespace Image

open Cbor FloatBits

/-! ### What a record holds -/

/-- Whether a number is a signed one of 64 bits. -/
def IsWord (n : Int) : Prop := -0x8000000000000000 ≤ n ∧ n < 0x8000000000000000

instance (n : Int) : Decidable (IsWord n) := inferInstanceAs (Decidable (_ ∧ _))

namespace MemberLink

/-- The numbers of an entry of a member reference table. -/
def words (l : MemberLink) : List Int := [l.target, l.declaring, l.linkId]

end MemberLink

namespace MethodInfo

/-- The numbers of a method. -/
def words (m : MethodInfo) : List Int :=
  [m.linkId, m.codeOffset, m.codeLength, m.maxLocals, m.argSlots, m.nativeIndex]

/-- The texts of a method. -/
def texts (m : MethodInfo) : List Text := [m.name, m.descriptor]

end MethodInfo

namespace FieldInfo

/-- The numbers of a field. -/
def words (f : FieldInfo) : List Int := [f.linkId, f.address, f.size]

/-- The texts of a field. -/
def texts (f : FieldInfo) : List Text := [f.name, f.descriptor]

end FieldInfo

namespace ClassLink

/-- The numbers of a class reference. -/
def words (l : ClassLink) : List Int := [l.slot, l.target]

end ClassLink

namespace LiteralSlot

/-- The numbers of a literal. -/
def words (l : LiteralSlot) : List Int := [l.slot, l.int]

/-- The texts of a literal. -/
def texts (l : LiteralSlot) : List Text := [l.kind, l.text]

/-- A literal as it is read back. -/
def reread (l : LiteralSlot) : LiteralSlot := { l with float := FloatBits.reread l.float }

end LiteralSlot

namespace ClassInfo

/-- The numbers of a class and of what it lists. -/
def words (c : ClassInfo) : List Int :=
  [c.id, c.super, c.instanceSize, c.element, c.elementType] ++ c.interfaces ++
    c.memberRefs.flatMap MemberLink.words ++ c.methods.flatMap MethodInfo.words ++
    c.fields.flatMap FieldInfo.words ++ c.classRefs.flatMap ClassLink.words ++
    c.literals.flatMap LiteralSlot.words

/-- The texts of a class and of what it lists. -/
def texts (c : ClassInfo) : List Text :=
  [c.name, c.kind] ++ c.methods.flatMap MethodInfo.texts ++ c.fields.flatMap FieldInfo.texts ++
    c.literals.flatMap LiteralSlot.texts

/-- The lengths of the lists of a class. -/
def lengths (c : ClassInfo) : List Nat :=
  [c.interfaces.length, c.memberRefs.length, c.methods.length, c.fields.length,
    c.classRefs.length, c.literals.length]

/-- A class as it is read back. -/
def reread (c : ClassInfo) : ClassInfo := { c with literals := c.literals.map LiteralSlot.reread }

end ClassInfo

namespace HandlerInfo

/-- The numbers of an exception handler. -/
def words (h : HandlerInfo) : List Int := [h.classId, h.start, h.stop, h.target, h.catchId]

end HandlerInfo

namespace LineInfo

/-- The numbers of a source line. -/
def words (l : LineInfo) : List Int := [l.pc, l.line]

/-- The texts of a source line. -/
def texts (l : LineInfo) : List Text := [l.method]

end LineInfo

namespace BuiltinLink

/-- The numbers of a catalog entry. -/
def words (l : BuiltinLink) : List Int := [l.classId, l.linkId]

/-- The texts of a catalog entry. -/
def texts (l : BuiltinLink) : List Text := [l.name]

end BuiltinLink

namespace NativeInfo

/-- The numbers of a native method. -/
def words (n : NativeInfo) : List Int := [n.index, n.classId, n.linkId]

/-- The texts of a native method. -/
def texts (n : NativeInfo) : List Text := [n.symbol, n.declaration]

end NativeInfo

/-- The numbers of an image. -/
def words (i : Image) : List Int :=
  [i.entryOffset, i.staticSize] ++ i.classes.flatMap ClassInfo.words ++
    i.handlers.flatMap HandlerInfo.words ++ i.lines.flatMap LineInfo.words ++
    i.builtins.flatMap BuiltinLink.words ++ i.natives.flatMap NativeInfo.words

/-- The texts of an image. -/
def texts (i : Image) : List Text :=
  [i.buildId, i.entry] ++ i.signatures ++ i.classes.flatMap ClassInfo.texts ++
    i.lines.flatMap LineInfo.texts ++ i.builtins.flatMap BuiltinLink.texts ++
    i.natives.flatMap NativeInfo.texts ++ i.initOrder

/-- The lengths of the lists of an image. -/
def lengths (i : Image) : List Nat :=
  [i.signatures.length, i.classes.length, i.handlers.length, i.lines.length, i.builtins.length,
    i.natives.length, i.initOrder.length] ++ i.classes.flatMap ClassInfo.lengths

/-- An image as it is read back. -/
def reread (i : Image) : Image := { i with classes := i.classes.map ClassInfo.reread }

/-- The greatest number of fields of a record. -/
def recordSize : Nat := 13

/-- Numbers and lengths of an image fit into 64 bits, and a reader's limit allows its lists and its
records. Without a limit every image of 64-bit words fits. -/
structure Fits (limit : Option Nat) (i : Image) : Prop where
  words : ∀ n ∈ i.words, IsWord n
  texts : ∀ t ∈ i.texts, t.length < headBound
  code : i.code.length < headBound
  lengths : ∀ n ∈ i.lengths, n < headBound ∧ exceeds limit n = false
  records : exceeds limit recordSize = false

instance (limit : Option Nat) (i : Image) : Decidable (i.Fits limit) :=
  decidable_of_iff ((∀ n ∈ i.words, IsWord n) ∧ (∀ t ∈ i.texts, t.length < headBound) ∧
      i.code.length < headBound ∧
      (∀ n ∈ i.lengths, n < headBound ∧ exceeds limit n = false) ∧
      exceeds limit recordSize = false)
    ⟨fun ⟨hwords, htexts, hcode, hlengths, hrecords⟩ =>
      ⟨hwords, htexts, hcode, hlengths, hrecords⟩,
    fun h => ⟨h.words, h.texts, h.code, h.lengths, h.records⟩⟩

/-! ### The fields of a record -/

/-- The field of a record that is not written when it is empty. -/
def optionalField (isEmpty : Bool) (key : Nat) (value : Cbor.Item) : Record :=
  if isEmpty then [] else [(.number key, value)]

section Fields

variable {key n : Nat} {value : Cbor.Item} {entries : List Cbor.Item} {r : Record} {isEmpty : Bool}
  {α : Type} {empty : α} {read : Cbor.Item → Option α}

@[simp] theorem readEntries_always : readEntries (always key value) = some [(.number key, value)] :=
  rfl

@[simp] theorem readEntries_always_append : readEntries (always key value ++ entries) =
    (readEntries entries).map ((.number key, value) :: ·) := by
  show (readEntries entries >>= fun rest => some ((Key.number key, value) :: rest)) = _
  cases readEntries entries <;> rfl

@[simp] theorem readEntries_optional : readEntries (optional isEmpty key value) =
    some (optionalField isEmpty key value) := by
  cases isEmpty <;> rfl

@[simp] theorem readEntries_optional_append : readEntries (optional isEmpty key value ++ entries) =
    (readEntries entries).map (optionalField isEmpty key value ++ ·) := by
  cases isEmpty with
  | false => exact readEntries_always_append
  | true =>
    show readEntries entries = (readEntries entries).map fun r => [] ++ r
    cases readEntries entries <;> rfl

@[simp] theorem field_nil : field [] n empty read = some empty := rfl

/-- A field is the first one with its number. -/
@[simp] theorem field_cons {k : Int} : field ((.number k, value) :: r) n empty read =
    if k = n then read value else field r n empty read := by
  by_cases h : k = n <;> simp [field, Key.isField, h]

@[simp] theorem field_optional_append : field (optionalField isEmpty key value ++ r) n empty read =
    if isEmpty = false ∧ key = n then read value else field r n empty read := by
  cases isEmpty <;> simp [optionalField]

@[simp] theorem field_optional : field (optionalField isEmpty key value) n empty read =
    if isEmpty = false ∧ key = n then read value else some empty := by
  cases isEmpty <;> simp [optionalField]

end Fields

/-! ### Values -/

/-- A value if a condition holds. -/
def provided {α : Type} (p : Bool) (a : α) : Option α := if p then some a else none

section Provided

variable {α β : Type} {p q : Bool} {a : α} {g : α → β}

@[simp] theorem provided_bind_some :
    ((provided p a).bind fun x => some (g x)) = provided p (g a) := by
  cases p <;> rfl

@[simp] theorem provided_bind_provided :
    ((provided p a).bind fun x => provided q (g x)) = provided (p && q) (g a) := by
  cases p <;> rfl

end Provided

theorem readInt_ofInt {n : Int} (h : IsWord n) : readInt (.ofInt n) = some n := by
  obtain ⟨hlow, hhigh⟩ := h
  cases n with
  | ofNat n => simp [readInt, Cbor.Item.ofInt, orElse, contentOf, integerOf?] at *; omega
  | negSucc n =>
    have hneg : n < 0x8000000000000000 := by omega
    simp only [readInt, Cbor.Item.ofInt, orElse, contentOf, integerOf?, hneg, if_true, 
      Option.ite_none_right_eq_some, Option.some.injEq]
    omega

theorem readText_ofText (t : Text) : readText (.ofText t) = provided t.isUtf8 t := by
  simp [readText, Cbor.Item.ofText, orElse, contentOf, provided]

theorem readBool_ofBool (b : Bool) : readBool (.ofBool b) = some b := by
  cases b <;> rfl

theorem readBytes_nullable (data : Bytes) :
    readBytes (nullable (.bytes data) data) = some data := by
  cases data <;> rfl

section Lists

variable {α : Type} {item : α → Cbor.Item} {read : Cbor.Item → Option α} {valid : α → Bool}
  {xs : List α}

/-- A list is read if each element is valid. -/
theorem readList_listItem (h : ∀ x ∈ xs, read (item x) = provided (valid x) x) :
    readList read (listItem item xs) = provided (xs.all valid) xs := by
  have hmap : (xs.map item).mapM read = provided (xs.all valid) xs := by
    induction xs with
    | nil => rfl
    | cons x xs ih =>
      rw [List.map_cons, List.mapM_cons, h x List.mem_cons_self,
        ih fun y hy => h y (List.mem_cons_of_mem _ hy), List.all_cons]
      cases valid x <;> cases xs.all valid <;> rfl
  exact hmap

/-- A list that is left out when it is empty is read if each element is valid. -/
theorem readList_optional (h : ∀ x ∈ xs, read (item x) = provided (valid x) x) :
    (if xs.isEmpty = false then readList read (listItem item xs) else some []) =
      provided (xs.all valid) xs := by
  cases xs with
  | nil => rfl
  | cons x xs => exact readList_listItem h

/-- A list of what is always read is read when it was left out because it is empty. -/
theorem readList_optional_some (h : ∀ x ∈ xs, read (item x) = some x) :
    (if xs.isEmpty = false then readList read (listItem item xs) else some []) = some xs := by
  have hall : _ = provided (xs.all fun _ => true) xs := readList_optional h
  rwa [List.all_eq_true.mpr fun _ _ => rfl] at hall

/-- A list that is written as null when it is empty is read if each element is valid. -/
theorem readList_nullable (h : ∀ x ∈ xs, read (item x) = provided (valid x) x) :
    readList read (nullable (listItem item xs) xs) = provided (xs.all valid) xs := by
  cases xs with
  | nil => rfl
  | cons x xs => exact readList_listItem h

end Lists

/-- The condition under which a record can be read: its texts are UTF-8. -/
def allUtf8 (texts : List Text) : Bool := texts.all Text.isUtf8

/-! ### Records -/

@[simp] theorem readRecord_map {α : Type} {empty : α} {read : Record → Option α}
    {entries : List Cbor.Item} :
    readRecord empty read (.map entries) = (readEntries entries).bind read := rfl

theorem MemberLink.read_item {l : MemberLink} (h : ∀ n ∈ l.words, IsWord n) :
    MemberLink.read l.item = some l := by
  simp only [words, List.forall_mem_cons] at h
  simp [MemberLink.read, MemberLink.item, readInt_ofInt, h]

theorem MethodInfo.read_item {m : MethodInfo} (h : ∀ n ∈ m.words, IsWord n) :
    MethodInfo.read m.item = provided (allUtf8 m.texts) m := by
  simp only [words, List.forall_mem_cons] at h
  simp [MethodInfo.read, MethodInfo.item, readInt_ofInt, readText_ofText, readBool_ofBool, allUtf8,
    texts, h]

theorem FieldInfo.read_item {f : FieldInfo} (h : ∀ n ∈ f.words, IsWord n) :
    FieldInfo.read f.item = provided (allUtf8 f.texts) f := by
  simp only [words, List.forall_mem_cons] at h
  simp [FieldInfo.read, FieldInfo.item, readInt_ofInt, readText_ofText, readBool_ofBool, allUtf8,
    texts, h]

theorem ClassLink.read_item {l : ClassLink} (h : ∀ n ∈ l.words, IsWord n) :
    ClassLink.read l.item = some l := by
  simp only [words, List.forall_mem_cons] at h
  simp [ClassLink.read, ClassLink.item, readInt_ofInt, h]

/-- Reading a literal gives back the fields that were left out because they are empty. -/
theorem LiteralSlot.read_item {l : LiteralSlot} (h : ∀ n ∈ l.words, IsWord n)
    (hfloat : isZero l.float = true → l.float = 0) :
    LiteralSlot.read l.item = provided (allUtf8 l.texts) l := by
  simp only [words, List.forall_mem_cons] at h
  have hint : (if l.int = 0 then some 0 else some l.int) = some l.int := by
    split <;> simp_all
  have hbits : (if isZero l.float = false then readFloat (.float l.float) else some 0) =
      some l.float := by
    cases hzero : isZero l.float with
    | false => rfl
    | true => exact congrArg some (hfloat hzero).symm
  have htext : (if l.text = [] then some [] else provided l.text.isUtf8 l.text) =
      provided l.text.isUtf8 l.text := by
    split
    case isTrue hempty => rw [hempty]; rfl
    case isFalse => rfl
  simp [LiteralSlot.read, LiteralSlot.item, readInt_ofInt, readText_ofText, allUtf8, texts, h, hint,
    hbits, htext]

/-- Reading a class gives back the lists that were left out because they are empty. -/
theorem ClassInfo.read_item {c : ClassInfo} (h : ∀ n ∈ c.words, IsWord n)
    (hfloat : ∀ l ∈ c.literals, isZero l.float = true → l.float = 0) :
    ClassInfo.read c.item = provided (allUtf8 c.texts) c := by
  simp only [words, List.forall_mem_append, List.forall_mem_flatMap, List.forall_mem_cons] at h
  obtain ⟨⟨⟨⟨⟨⟨⟨hid, hsuper, hsize, helement, htype, -⟩, hinterfaces⟩, hrefs⟩, hmethods⟩, hfields⟩,
    hclasses⟩, hliterals⟩ := h
  have htype : (if decide (c.elementType = 0) = false then readInt (.ofInt c.elementType)
      else some 0) = some c.elementType := by
    by_cases hzero : c.elementType = 0 <;> simp [hzero, readInt_ofInt htype]
  have hinterfaces := readList_optional_some fun n hn => readInt_ofInt (hinterfaces n hn)
  have hrefs := readList_optional_some fun l hl => MemberLink.read_item (hrefs l hl)
  have hmethods := readList_optional fun m hm => MethodInfo.read_item (hmethods m hm)
  have hfields := readList_optional fun f hf => FieldInfo.read_item (hfields f hf)
  have hclasses := readList_optional_some fun l hl => ClassLink.read_item (hclasses l hl)
  have hliterals := readList_optional
    fun l hl => LiteralSlot.read_item (hliterals l hl) (hfloat l hl)
  rw [ClassInfo.read, ClassInfo.item, readRecord_map]
  simp only [List.append_assoc, readEntries_always_append, readEntries_optional_append,
    readEntries_optional, Option.map_some, Option.bind_some]
  simp only [field_cons, field_optional_append, field_optional, Nat.cast_ofNat, Nat.cast_one,
    Int.reduceEq, Nat.reduceEqDiff, and_true, and_false, reduceIte]
  simp only [readInt_ofInt hid, readInt_ofInt hsuper, readInt_ofInt hsize, readInt_ofInt helement,
    htype, readText_ofText, hinterfaces, hrefs, hmethods, hfields, hclasses, hliterals,
    Option.bind_eq_bind, Option.bind_some, Option.pure_def, provided_bind_some,
    provided_bind_provided]
  simp only [allUtf8, texts, List.all_append, List.all_flatMap, List.all_cons, List.all_nil,
    Bool.and_true, Bool.and_assoc]

theorem HandlerInfo.read_item {i : HandlerInfo} (h : ∀ n ∈ i.words, IsWord n) :
    HandlerInfo.read i.item = some i := by
  simp only [words, List.forall_mem_cons] at h
  simp [HandlerInfo.read, HandlerInfo.item, readInt_ofInt, h]

theorem LineInfo.read_item {l : LineInfo} (h : ∀ n ∈ l.words, IsWord n) :
    LineInfo.read l.item = provided (allUtf8 l.texts) l := by
  simp only [words, List.forall_mem_cons] at h
  simp [LineInfo.read, LineInfo.item, readInt_ofInt, readText_ofText, allUtf8, texts, h]

theorem BuiltinLink.read_item {l : BuiltinLink} (h : ∀ n ∈ l.words, IsWord n) :
    BuiltinLink.read l.item = provided (allUtf8 l.texts) l := by
  simp only [words, List.forall_mem_cons] at h
  simp [BuiltinLink.read, BuiltinLink.item, readInt_ofInt, readText_ofText, allUtf8, texts, h]

theorem NativeInfo.read_item {i : NativeInfo} (h : ∀ n ∈ i.words, IsWord n) :
    NativeInfo.read i.item = provided (allUtf8 i.texts) i := by
  simp only [words, List.forall_mem_cons] at h
  simp [NativeInfo.read, NativeInfo.item, readInt_ofInt, readText_ofText, allUtf8, texts, h]

/-- An image is read back from its item exactly if its texts are UTF-8, provided that its zeros are
positive ones. -/
theorem ofItem?_item {i : Image} (h : ∀ n ∈ i.words, IsWord n)
    (hfloat : ∀ c ∈ i.classes, ∀ l ∈ c.literals, isZero l.float = true → l.float = 0) :
    ofItem? i.item = provided (allUtf8 i.texts) i := by
  simp only [words, List.forall_mem_append, List.forall_mem_flatMap, List.forall_mem_cons] at h
  obtain ⟨⟨⟨⟨⟨⟨hentry, hsize, -⟩, hclasses⟩, hhandlers⟩, hlines⟩, hbuiltins⟩, hnatives⟩ := h
  have hsignatures := readList_nullable fun t (_ : t ∈ i.signatures) => readText_ofText t
  have hclasses := readList_nullable fun c hc => ClassInfo.read_item (hclasses c hc) (hfloat c hc)
  have hhandlers := readList_optional_some fun x hx => HandlerInfo.read_item (hhandlers x hx)
  have hlines := readList_optional fun l hl => LineInfo.read_item (hlines l hl)
  have hbuiltins := readList_optional fun l hl => BuiltinLink.read_item (hbuiltins l hl)
  have hnatives := readList_optional fun x hx => NativeInfo.read_item (hnatives x hx)
  have horder := readList_optional fun t (_ : t ∈ i.initOrder) => readText_ofText t
  rw [ofItem?, item, readRecord_map]
  simp only [List.append_assoc, readEntries_always_append, readEntries_optional_append,
    readEntries_optional, Option.map_some, Option.bind_some]
  simp only [field_cons, field_optional_append, field_optional, Nat.cast_ofNat, Nat.cast_one,
    Int.reduceEq, Nat.reduceEqDiff, and_true, and_false, reduceIte]
  simp only [readInt_ofInt hentry, readInt_ofInt hsize, readText_ofText, readBytes_nullable,
    hsignatures, hclasses, hhandlers, hlines, hbuiltins, hnatives, horder,
    Option.bind_eq_bind, Option.bind_some, Option.pure_def, provided_bind_some,
    provided_bind_provided]
  simp only [allUtf8, texts, List.all_append, List.all_flatMap, List.all_cons, List.all_nil,
    Bool.and_true, Bool.and_assoc]

/-! ### Items that can be read -/

section Readable

variable {limit : Option Nat} {depth key : Nat} {keys : List Nat} {value : Cbor.Item}
  {entries : List Cbor.Item}

/-- What does not exceed a limit does so no more if it is less. -/
theorem exceeds_of_le {m n : Nat} (h : exceeds limit n = false) (hle : m ≤ n) :
    exceeds limit m = false := by
  cases limit with
  | none => rfl
  | some most =>
    simp only [exceeds, decide_eq_false_iff_not] at h ⊢
    omega

theorem readable_ofInt {n : Int} (h : IsWord n) : (Cbor.Item.ofInt n).Readable limit depth := by
  obtain ⟨hlow, hhigh⟩ := h
  cases n with
  | ofNat n =>
    have hn : (n : Int) < 0x8000000000000000 := hhigh
    exact .unsigned (by simp only [headBound]; omega)
  | negSucc n => exact .negative (by simp only [headBound]; omega)

theorem readable_ofText {t : Text} (h : t.length < headBound) :
    (Cbor.Item.ofText t).Readable limit depth := .text h

theorem readable_ofBool (b : Bool) : (Cbor.Item.ofBool b).Readable limit depth := by
  cases b <;> exact .simple (by decide)

/-- Some fields of a record, under the given keys, that can be read if the keys can. -/
structure FieldsReadable (limit : Option Nat) (depth : Nat) (keys : List Nat)
    (entries : List Cbor.Item) : Prop where
  even : entries.length % 2 = 0
  length_le : entries.length ≤ 2 * keys.length
  readable : (∀ key ∈ keys, key < headBound) → ∀ item ∈ entries, item.Readable limit depth

namespace FieldsReadable

theorem first (h : value.Readable limit depth) :
    FieldsReadable limit depth [key] (always key value) := by
  refine ⟨by simp [always], by simp [always], fun hkeys item hitem => ?_⟩
  simp only [always, List.mem_cons, List.not_mem_nil, or_false] at hitem
  rcases hitem with rfl | rfl
  · exact .unsigned (hkeys key List.mem_cons_self)
  · exact h

theorem snoc (hrest : FieldsReadable limit depth keys entries) (h : value.Readable limit depth) :
    FieldsReadable limit depth (key :: keys) (entries ++ always key value) := by
  have hlast : FieldsReadable limit depth [key] (always key value) := first h
  refine ⟨?_, ?_, fun hkeys item hitem => ?_⟩
  · rw [List.length_append, Nat.add_mod, hrest.even, hlast.even]
  · have := hrest.length_le
    have : (always key value).length ≤ 2 * 1 := hlast.length_le
    rw [List.length_append, List.length_cons]
    omega
  · obtain ⟨hkey, hkeys⟩ := List.forall_mem_cons.mp hkeys
    rcases List.mem_append.mp hitem with hitem | hitem
    · exact hrest.readable hkeys item hitem
    · exact hlast.readable (List.forall_mem_singleton.mpr hkey) item hitem

theorem snoc_optional (hrest : FieldsReadable limit depth keys entries) {isEmpty : Bool}
    (h : value.Readable limit depth) :
    FieldsReadable limit depth (key :: keys) (entries ++ optional isEmpty key value) := by
  cases isEmpty with
  | false => exact hrest.snoc h
  | true =>
    have hsame : entries ++ optional true key value = entries := List.append_nil _
    rw [hsame]
    refine ⟨hrest.even, ?_, fun hkeys => hrest.readable (List.forall_mem_cons.mp hkeys).2⟩
    have := hrest.length_le
    rw [List.length_cons]
    omega

/-- A record of fields that can be read can be read. -/
theorem record (h : FieldsReadable limit (depth + 1) keys entries)
    (hkeys : keys.length ≤ recordSize ∧ ∀ key ∈ keys, key < headBound) (hdepth : depth < maxDepth)
    (hlimit : exceeds limit recordSize = false) : (Cbor.Item.map entries).Readable limit depth := by
  have hpairs : entries.length / 2 ≤ recordSize := by
    have := h.length_le
    omega
  refine .map hdepth h.even (Nat.lt_of_le_of_lt hpairs (by decide)) ?_ (h.readable hkeys.2)
  exact exceeds_of_le hlimit hpairs

end FieldsReadable

section Lists

variable {α : Type} {item : α → Cbor.Item} {xs : List α}

theorem readable_listItem (hdepth : depth < maxDepth)
    (hlen : xs.length < headBound ∧ exceeds limit xs.length = false)
    (h : ∀ x ∈ xs, (item x).Readable limit (depth + 1)) :
    (listItem item xs).Readable limit depth := by
  refine .array hdepth (by simpa using hlen.1) (by simpa using hlen.2) fun i hi => ?_
  obtain ⟨x, hx, rfl⟩ := List.mem_map.mp hi
  exact h x hx

theorem readable_nullable (h : value.Readable limit depth) :
    (nullable value xs).Readable limit depth := by
  cases xs with
  | nil => exact .simple (by decide)
  | cons x xs => exact h

end Lists

variable (hdepth : depth < maxDepth) (hlimit : exceeds limit recordSize = false)

include hdepth hlimit

theorem MemberLink.readable {l : MemberLink} (h : ∀ n ∈ l.words, IsWord n) :
    l.item.Readable limit depth := by
  simp only [words, List.forall_mem_cons] at h
  exact (FieldsReadable.first (readable_ofInt h.1))
    |>.snoc (readable_ofInt h.2.1)
    |>.snoc (readable_ofInt h.2.2.1) |>.record (by decide) hdepth hlimit

theorem MethodInfo.readable {m : MethodInfo} (h : ∀ n ∈ m.words, IsWord n)
    (ht : ∀ t ∈ m.texts, t.length < headBound) : m.item.Readable limit depth := by
  simp only [words, texts, List.forall_mem_cons] at h ht
  obtain ⟨hlink, hoffset, hlength, hlocals, hslots, hnative, -⟩ := h
  exact (FieldsReadable.first (readable_ofInt hlink))
    |>.snoc (readable_ofText ht.1)
    |>.snoc (readable_ofText ht.2.1) |>.snoc (readable_ofBool _)
    |>.snoc (readable_ofInt hoffset) |>.snoc (readable_ofInt hlength)
    |>.snoc (readable_ofInt hlocals) |>.snoc (readable_ofInt hslots)
    |>.snoc (readable_ofInt hnative) |>.record (by decide) hdepth hlimit

theorem FieldInfo.readable {f : FieldInfo} (h : ∀ n ∈ f.words, IsWord n)
    (ht : ∀ t ∈ f.texts, t.length < headBound) : f.item.Readable limit depth := by
  simp only [words, texts, List.forall_mem_cons] at h ht
  obtain ⟨hlink, haddress, hsize, -⟩ := h
  exact (FieldsReadable.first (readable_ofInt hlink))
    |>.snoc (readable_ofText ht.1)
    |>.snoc (readable_ofText ht.2.1) |>.snoc (readable_ofBool _)
    |>.snoc (readable_ofInt haddress) |>.snoc (readable_ofInt hsize) |>.record (by decide) hdepth hlimit

theorem ClassLink.readable {l : ClassLink} (h : ∀ n ∈ l.words, IsWord n) :
    l.item.Readable limit depth := by
  simp only [words, List.forall_mem_cons] at h
  exact (FieldsReadable.first (readable_ofInt h.1))
    |>.snoc (readable_ofInt h.2.1)
    |>.record (by decide) hdepth hlimit

theorem LiteralSlot.readable {l : LiteralSlot} (h : ∀ n ∈ l.words, IsWord n)
    (ht : ∀ t ∈ l.texts, t.length < headBound) (hfloat : settleNan l.float = l.float) :
    l.item.Readable limit depth := by
  simp only [words, texts, List.forall_mem_cons] at h ht
  exact (FieldsReadable.first (readable_ofInt h.1))
    |>.snoc (readable_ofText ht.1)
    |>.snoc_optional (readable_ofInt h.2.1) |>.snoc_optional (.float hfloat)
    |>.snoc_optional (readable_ofText ht.2.1) |>.record (by decide) hdepth hlimit

theorem HandlerInfo.readable {i : HandlerInfo} (h : ∀ n ∈ i.words, IsWord n) :
    i.item.Readable limit depth := by
  simp only [words, List.forall_mem_cons] at h
  obtain ⟨hclass, hstart, hstop, htarget, hcatch, -⟩ := h
  exact (FieldsReadable.first (readable_ofInt hclass))
    |>.snoc (readable_ofInt hstart)
    |>.snoc (readable_ofInt hstop) |>.snoc (readable_ofInt htarget)
    |>.snoc (readable_ofInt hcatch) |>.record (by decide) hdepth hlimit

theorem LineInfo.readable {l : LineInfo} (h : ∀ n ∈ l.words, IsWord n)
    (ht : ∀ t ∈ l.texts, t.length < headBound) : l.item.Readable limit depth := by
  simp only [words, texts, List.forall_mem_cons] at h ht
  exact (FieldsReadable.first (readable_ofInt h.1))
    |>.snoc (readable_ofInt h.2.1)
    |>.snoc (readable_ofText ht.1) |>.record (by decide) hdepth hlimit

theorem BuiltinLink.readable {l : BuiltinLink} (h : ∀ n ∈ l.words, IsWord n)
    (ht : ∀ t ∈ l.texts, t.length < headBound) : l.item.Readable limit depth := by
  simp only [words, texts, List.forall_mem_cons] at h ht
  exact (FieldsReadable.first (readable_ofText ht.1))
    |>.snoc (readable_ofInt h.1)
    |>.snoc (readable_ofInt h.2.1) |>.record (by decide) hdepth hlimit

theorem NativeInfo.readable {i : NativeInfo} (h : ∀ n ∈ i.words, IsWord n)
    (ht : ∀ t ∈ i.texts, t.length < headBound) : i.item.Readable limit depth := by
  simp only [words, texts, List.forall_mem_cons] at h ht
  exact (FieldsReadable.first (readable_ofInt h.1))
    |>.snoc (readable_ofInt h.2.1)
    |>.snoc (readable_ofInt h.2.2.1) |>.snoc (readable_ofText ht.1)
    |>.snoc (readable_ofText ht.2.1) |>.record (by decide) hdepth hlimit

theorem ClassInfo.readable {c : ClassInfo} (hinner : depth + 2 < maxDepth)
    (h : ∀ n ∈ c.words, IsWord n) (ht : ∀ t ∈ c.texts, t.length < headBound)
    (hlen : ∀ n ∈ c.lengths, n < headBound ∧ exceeds limit n = false)
    (hfloat : ∀ l ∈ c.literals, settleNan l.float = l.float) : c.item.Readable limit depth := by
  simp only [words, texts, lengths, List.forall_mem_append, List.forall_mem_flatMap,
    List.forall_mem_cons] at h ht hlen
  obtain ⟨⟨⟨⟨⟨⟨⟨hid, hsuper, hsize, helement, htype, -⟩, hinterfaces⟩, hrefs⟩, hmethods⟩, hfields⟩,
    hclasses⟩, hliterals⟩ := h
  obtain ⟨⟨⟨⟨hname, hkind, -⟩, htmethods⟩, htfields⟩, htliterals⟩ := ht
  obtain ⟨hlinterfaces, hlrefs, hlmethods, hlfields, hlclasses, hlliterals, -⟩ := hlen
  have hlist : depth + 1 < maxDepth := by omega
  exact (FieldsReadable.first (readable_ofInt hid))
    |>.snoc (readable_ofText hname)
    |>.snoc (readable_ofText hkind)
    |>.snoc (readable_ofInt hsuper)
    |>.snoc_optional (readable_listItem hlist hlinterfaces fun n hn =>
      readable_ofInt (hinterfaces n hn))
    |>.snoc (readable_ofInt hsize)
    |>.snoc (readable_ofInt helement)
    |>.snoc_optional (readable_ofInt htype)
    |>.snoc_optional (readable_listItem hlist hlrefs fun l hl =>
      MemberLink.readable hinner hlimit (hrefs l hl))
    |>.snoc_optional (readable_listItem hlist hlmethods fun m hm =>
      MethodInfo.readable hinner hlimit (hmethods m hm) (htmethods m hm))
    |>.snoc_optional (readable_listItem hlist hlfields fun f hf =>
      FieldInfo.readable hinner hlimit (hfields f hf) (htfields f hf))
    |>.snoc_optional (readable_listItem hlist hlclasses fun l hl =>
      ClassLink.readable hinner hlimit (hclasses l hl))
    |>.snoc_optional (readable_listItem hlist hlliterals fun l hl =>
      LiteralSlot.readable hinner hlimit (hliterals l hl) (htliterals l hl) (hfloat l hl))
    |>.record (by decide) hdepth hlimit

end Readable

/-- The item of an image that fits can be read, provided that its floats are as they are read. -/
theorem Fits.readable {limit : Option Nat} {i : Image} (h : i.Fits limit)
    (hfloat : ∀ c ∈ i.classes, ∀ l ∈ c.literals, settleNan l.float = l.float) :
    i.item.Readable limit 0 := by
  obtain ⟨h, ht, hcode, hlen, hlimit⟩ := h
  simp only [Image.words, Image.texts, Image.lengths, List.forall_mem_append,
    List.forall_mem_flatMap, List.forall_mem_cons] at h ht hlen
  obtain ⟨⟨⟨⟨⟨⟨hentry, hsize, -⟩, hclasses⟩, hhandlers⟩, hlines⟩, hbuiltins⟩, hnatives⟩ := h
  obtain ⟨⟨⟨⟨⟨⟨⟨htid, htentry, -⟩, htsignatures⟩, htclasses⟩, htlines⟩, htbuiltins⟩, htnatives⟩,
    htorder⟩ := ht
  obtain ⟨⟨hlsignatures, hlclasses, hlhandlers, hllines, hlbuiltins, hlnatives, hlorder, -⟩,
    hlinner⟩ := hlen
  have hlist : 1 < maxDepth := by decide
  have hinner : 2 < maxDepth := by decide
  exact (FieldsReadable.first (readable_ofText htid))
    |>.snoc (readable_ofText htentry)
    |>.snoc (readable_ofInt hentry)
    |>.snoc (readable_ofInt hsize)
    |>.snoc (readable_nullable (readable_listItem hlist hlsignatures fun t ht =>
      readable_ofText (htsignatures t ht)))
    |>.snoc (readable_nullable (readable_listItem hlist hlclasses fun c hc =>
      ClassInfo.readable hinner hlimit (by decide) (hclasses c hc) (htclasses c hc) (hlinner c hc)
        (hfloat c hc)))
    |>.snoc (readable_nullable (.bytes hcode))
    |>.snoc_optional (readable_listItem hlist hlhandlers fun x hx =>
      HandlerInfo.readable hinner hlimit (hhandlers x hx))
    |>.snoc_optional (readable_listItem hlist hllines fun l hl =>
      LineInfo.readable hinner hlimit (hlines l hl) (htlines l hl))
    |>.snoc_optional (readable_listItem hlist hlbuiltins fun l hl =>
      BuiltinLink.readable hinner hlimit (hbuiltins l hl) (htbuiltins l hl))
    |>.snoc_optional (readable_listItem hlist hlnatives fun x hx =>
      NativeInfo.readable hinner hlimit (hnatives x hx) (htnatives x hx))
    |>.snoc_optional (readable_listItem hlist hlorder fun t ht => readable_ofText (htorder t ht))
    |>.record (by decide) (by decide) hlimit

/-! ### What is read back -/

theorem encodeAll_append (xs ys : List Cbor.Item) :
    encodeAll (xs ++ ys) = encodeAll xs ++ encodeAll ys := by
  induction xs with
  | nil => rfl
  | cons x xs ih => rw [List.cons_append, encodeAll, encodeAll, ih, List.append_assoc]

/-- Entries of a record that are as many and written alike. -/
structure Alike (xs ys : List Cbor.Item) : Prop where
  length_eq : xs.length = ys.length
  encode_eq : encodeAll xs = encodeAll ys

namespace Alike

theorem refl (xs : List Cbor.Item) : Alike xs xs := ⟨rfl, rfl⟩

theorem append {xs ys xs' ys' : List Cbor.Item} (h : Alike xs ys) (h' : Alike xs' ys') :
    Alike (xs ++ xs') (ys ++ ys') := by
  refine ⟨?_, ?_⟩
  · rw [List.length_append, List.length_append, h.length_eq, h'.length_eq]
  · rw [encodeAll_append, encodeAll_append, h.encode_eq, h'.encode_eq]

theorem always {key : Nat} {v w : Cbor.Item} (h : v.encode = w.encode) :
    Alike (always key v) (Image.always key w) := by
  refine ⟨rfl, ?_⟩
  simp only [Image.always, encodeAll, h]

theorem optional {key : Nat} {isEmpty isEmpty' : Bool} {v w : Cbor.Item}
    (hsame : isEmpty = isEmpty') (h : isEmpty = false → v.encode = w.encode) :
    Alike (optional isEmpty key v) (Image.optional isEmpty' key w) := by
  subst hsame
  cases isEmpty with
  | true => exact refl []
  | false => exact always (h rfl)

theorem map {xs ys : List Cbor.Item} (h : Alike xs ys) :
    (Cbor.Item.map xs).encode = (Cbor.Item.map ys).encode := by
  rw [Cbor.Item.encode, Cbor.Item.encode, h.length_eq, h.encode_eq]

end Alike

theorem encode_listItem_map {α : Type} {item : α → Cbor.Item} {f : α → α}
    (h : ∀ x, (item (f x)).encode = (item x).encode) (xs : List α) :
    (listItem item (xs.map f)).encode = (listItem item xs).encode := by
  have hall : encodeAll ((xs.map f).map item) = encodeAll (xs.map item) := by
    induction xs with
    | nil => rfl
    | cons x xs ih => simp only [List.map_cons, encodeAll, h, ih]
  simp only [listItem, Cbor.Item.encode, List.length_map, hall]

/-- A literal is written as it was before it was read. -/
theorem LiteralSlot.encode_reread (l : LiteralSlot) : l.reread.item.encode = l.item.encode := by
  refine (((Alike.refl _).append (.optional (isZero_reread l.float) fun hzero => ?_)).append
    (.refl _)).map
  rw [isZero_reread] at hzero
  show encodeFloat (FloatBits.reread l.float) = encodeFloat l.float
  rw [reread_of_not_isZero hzero, encodeFloat_settleNan]

/-- A class is written as it was before it was read. -/
theorem ClassInfo.encode_reread (c : ClassInfo) : c.reread.item.encode = c.item.encode := by
  refine ((Alike.refl _).append (.optional List.isEmpty_map fun _ => ?_)).map
  exact encode_listItem_map LiteralSlot.encode_reread c.literals

/-- An image has the binary form that it had before it was read. -/
theorem encode_reread (i : Image) : i.reread.encode = i.encode := by
  have hclasses :
      (nullable (listItem ClassInfo.item i.reread.classes) i.reread.classes).encode =
        (nullable (listItem ClassInfo.item i.classes) i.classes).encode := by
    cases hcases : i.classes with
    | nil => simp only [reread, hcases, List.map_nil]
    | cons c cs =>
      simp only [reread, hcases]
      exact encode_listItem_map ClassInfo.encode_reread (c :: cs)
  exact ((((((((Alike.refl _).append (.always hclasses)).append (.refl _)).append (.refl _)).append
    (.refl _)).append (.refl _)).append (.refl _)).append (.refl _)).map

/-- The id that belongs to the contents is that of before reading. -/
theorem contentId_reread (i : Image) : i.reread.contentId = i.contentId :=
  congrArg (fun name => idText (nameId idSpace name)) (encode_reread { i with buildId := [] })

theorem words_reread (i : Image) : i.reread.words = i.words := by
  have hclass : ∀ c : ClassInfo, c.reread.words = c.words := by
    intro c
    simp only [ClassInfo.words, ClassInfo.reread, List.flatMap_map]
    rfl
  simp only [words, reread, List.flatMap_map, hclass]

theorem texts_reread (i : Image) : i.reread.texts = i.texts := by
  have hclass : ∀ c : ClassInfo, c.reread.texts = c.texts := by
    intro c
    simp only [ClassInfo.texts, ClassInfo.reread, List.flatMap_map]
    rfl
  simp only [texts, reread, List.flatMap_map, hclass]

theorem lengths_reread (i : Image) : i.reread.lengths = i.lengths := by
  have hclass : ∀ c : ClassInfo, c.reread.lengths = c.lengths := by
    intro c
    simp only [ClassInfo.lengths, ClassInfo.reread, List.length_map]
  simp only [lengths, reread, List.length_map, List.flatMap_map, hclass]

theorem Fits.reread {limit : Option Nat} {i : Image} (h : i.Fits limit) : i.reread.Fits limit where
  words := by rw [words_reread]; exact h.words
  texts := by rw [texts_reread]; exact h.texts
  code := h.code
  lengths := by rw [lengths_reread]; exact h.lengths
  records := h.records

theorem float_reread {i : Image} {p : UInt64 → Prop} (h : ∀ bits, p (FloatBits.reread bits)) :
    ∀ c ∈ i.reread.classes, ∀ l ∈ c.literals, p l.float := by
  intro c hc l hl
  obtain ⟨c, -, rfl⟩ := List.mem_map.mp hc
  obtain ⟨l, -, rfl⟩ := List.mem_map.mp hl
  exact h l.float

/-- What reading the binary form of an image gives. -/
theorem decodeWithin?_encode {limit : Option Nat} {i : Image} (h : i.Fits limit) :
    decodeWithin? limit i.encode = provided (allUtf8 i.texts) i.reread := by
  have hread : Cbor.read limit i.reread.encode = some i.reread.item :=
    read_encode (h.reread.readable (float_reread (p := fun b => settleNan b = b) settleNan_reread))
  have hitem : ofItem? i.reread.item = provided (allUtf8 i.reread.texts) i.reread := by
    refine ofItem?_item h.reread.words
      (float_reread (p := fun b => isZero b = true → b = 0) fun bits hzero => ?_)
    rw [isZero_reread] at hzero
    exact reread_of_isZero hzero
  rw [decodeWithin?, ← encode_reread, hread, Option.bind_some, hitem, texts_reread]

/-! ### Ids -/

theorem length_flatMap_le {α β : Type} {f : α → List β} {most : Nat} (h : ∀ a, (f a).length ≤ most)
    (xs : List α) : (xs.flatMap f).length ≤ most * xs.length := by
  induction xs with
  | nil => exact Nat.zero_le _
  | cons x xs ih =>
    have hx := h x
    rw [List.flatMap_cons, List.length_append, List.length_cons, Nat.mul_succ]
    omega

/-- The digits of a byte in an id. -/
theorem hexPair_ascii : ∀ n < 256, (Text.padLeft 2 '0' (Text.hex n)).length = 2 ∧
    (Text.padLeft 2 '0' (Text.hex n)).all (· < 0x80) = true := by decide +kernel

/-- The text of an id is ASCII, and each byte of the id takes at most three. -/
theorem idText_ascii (id : Bytes) :
    (idText id).length ≤ 3 * id.length ∧ ∀ b ∈ idText id, b < 0x80 := by
  have hgroup : ∀ p : UInt8 × Nat,
      ((if p.2 = 4 || p.2 = 6 || p.2 = 8 || p.2 = 10 then "-" else "" : Text) ++
        Text.padLeft 2 '0' (Text.hex p.1.toNat)).length ≤ 3 ∧
      ∀ b ∈ (if p.2 = 4 || p.2 = 6 || p.2 = 8 || p.2 = 10 then "-" else "" : Text) ++
        Text.padLeft 2 '0' (Text.hex p.1.toNat), b < 0x80 := by
    intro p
    obtain ⟨hlength, hbytes⟩ := hexPair_ascii p.1.toNat p.1.toNat_lt
    have hdash : ∀ t : Text, (t = "-" ∨ t = "") → t.length ≤ 1 ∧ t.all (· < 0x80) = true := by
      rintro t (rfl | rfl) <;> decide
    simp only [List.all_eq_true, decide_eq_true_eq] at hbytes hdash
    obtain ⟨hshort, hplain⟩ := hdash (if p.2 = 4 || p.2 = 6 || p.2 = 8 || p.2 = 10 then "-" else "")
      (by split <;> simp)
    refine ⟨by rw [List.length_append]; omega, fun b hb => ?_⟩
    rcases List.mem_append.mp hb with hb | hb
    · exact hplain b hb
    · exact hbytes b hb
  refine ⟨?_, fun b hb => ?_⟩
  · have hlength := length_flatMap_le (fun p => (hgroup p).1) id.zipIdx
    rwa [List.length_zipIdx] at hlength
  · obtain ⟨p, -, hb⟩ := List.mem_flatMap.mp hb
    exact (hgroup p).2 b hb

theorem length_contentId_le (i : Image) : i.contentId.length ≤ 48 := by
  have hbytes : (nameId idSpace { i with buildId := [] }.encode).length ≤ 16 := by
    rw [nameId, List.length_map, List.length_zipIdx, List.length_take]
    omega
  have htext := (idText_ascii (nameId idSpace { i with buildId := [] }.encode)).1
  show (idText _).length ≤ 48
  omega

theorem isUtf8_of_ascii {t : Text} (h : ∀ b ∈ t, b < 0x80) : t.isUtf8 = true := by
  have hpieces : Text.pieces t = t.map fun b => .char b.toNat [b] := by
    induction t with
    | nil => rfl
    | cons b t ih =>
      have hb : b < 0x80 := h b List.mem_cons_self
      rw [Text.pieces.eq_def, List.map_cons, ← ih fun c hc => h c (List.mem_cons_of_mem _ hc)]
      exact if_pos hb
  rw [Text.isUtf8, hpieces, List.all_map]
  exact List.all_eq_true.mpr fun _ _ => rfl

theorem isUtf8_contentId (i : Image) : i.contentId.isUtf8 = true :=
  isUtf8_of_ascii (idText_ascii _).2

/-- The id of an image that was built belongs to its contents. -/
theorem contentId_of_build {plan : Plan} {image : Image} (hbuild : build plan = .ok image) :
    image.contentId = image.buildId := by
  obtain ⟨-, raw, builtins, -, -, rfl⟩ := build_eq_ok.mp hbuild
  rfl

/-- An image without its id and without the methods of its classes, which it sorts. -/
def withoutMethods (i : Image) : Image :=
  { i with buildId := [], classes := i.classes.map fun c => { c with methods := [] } }

/-- The methods of a class fit into an image. -/
structure MethodsFit (limit : Option Nat) (c : Class) : Prop where
  length : c.methods.length < headBound ∧ exceeds limit c.methods.length = false
  words : ∀ m ∈ c.methods, ∀ n ∈ (methodInfo m).words, IsWord n
  texts : ∀ m ∈ c.methods, ∀ t ∈ (methodInfo m).texts, t.length < headBound

instance (limit : Option Nat) (c : Class) : Decidable (MethodsFit limit c) :=
  decidable_of_iff ((c.methods.length < headBound ∧ exceeds limit c.methods.length = false) ∧
      (∀ m ∈ c.methods, ∀ n ∈ (methodInfo m).words, IsWord n) ∧
      ∀ m ∈ c.methods, ∀ t ∈ (methodInfo m).texts, t.length < headBound)
    ⟨fun ⟨hlength, hwords, htexts⟩ => ⟨hlength, hwords, htexts⟩,
      fun h => ⟨h.length, h.words, h.texts⟩⟩

section Parts

variable {i : Image}

/-- What the classes of an image list, they list without their methods, or a method does. -/
theorem mem_flatMap_classes {α : Type} (part : ClassInfo → List α)
    (ofMethod : MethodInfo → List α) {x : α} (h : ∀ c, x ∈ part c → x ∈ part { c with methods := [] } ∨
      ∃ m ∈ c.methods, x ∈ ofMethod m) (hx : x ∈ i.classes.flatMap part) :
    x ∈ i.withoutMethods.classes.flatMap part ∨
      ∃ c ∈ i.classes, ∃ m ∈ c.methods, x ∈ ofMethod m := by
  obtain ⟨c, hc, hx⟩ := List.mem_flatMap.mp hx
  rcases h c hx with hx | hm
  · exact .inl (List.mem_flatMap.mpr ⟨_, List.mem_map.mpr ⟨c, hc, rfl⟩, hx⟩)
  · exact .inr ⟨c, hc, hm⟩

theorem mem_words {n : Int} (h : n ∈ i.words) :
    n ∈ i.withoutMethods.words ∨ ∃ c ∈ i.classes, ∃ m ∈ c.methods, n ∈ m.words := by
  have hclasses := mem_flatMap_classes (i := i) ClassInfo.words MethodInfo.words (x := n)
    fun c hn => by
      simp only [ClassInfo.words, List.mem_append, List.mem_flatMap (l := c.methods)] at hn ⊢
      grind
  simp only [words, List.mem_append] at h ⊢
  grind [withoutMethods]

theorem mem_texts {t : Text} (h : t ∈ i.texts) : t = i.buildId ∨ t ∈ i.withoutMethods.texts ∨
    ∃ c ∈ i.classes, ∃ m ∈ c.methods, t ∈ m.texts := by
  have hclasses := mem_flatMap_classes (i := i) ClassInfo.texts MethodInfo.texts (x := t)
    fun c hn => by
      simp only [ClassInfo.texts, List.mem_append, List.mem_flatMap (l := c.methods)] at hn ⊢
      grind
  simp only [texts, List.mem_append, List.mem_cons] at h ⊢
  grind [withoutMethods]

theorem mem_lengths {n : Nat} (h : n ∈ i.lengths) :
    n ∈ i.withoutMethods.lengths ∨ ∃ c ∈ i.classes, n = c.methods.length := by
  simp only [lengths, withoutMethods, List.mem_append, List.mem_flatMap, List.mem_map,
    List.length_map] at h ⊢
  rcases h with h | ⟨c, hc, h⟩
  · exact .inl (.inl h)
  · by_cases hn : n = c.methods.length
    · exact .inr ⟨c, hc, hn⟩
    · refine .inl (.inr ⟨_, ⟨c, hc, rfl⟩, ?_⟩)
      simp only [ClassInfo.lengths, List.mem_cons] at h ⊢
      tauto

end Parts

section Built

variable {plan : Plan} {image : Image} (hbuild : build plan = .ok image)

include hbuild

/-- Each class of an image that was built has the methods of one of the registry, in some order. -/
theorem exists_methods_of_build {c : ClassInfo} (hc : c ∈ image.classes) :
    ∃ q ∈ plan.registry.classes, c.methods.Perm (q.2.methods.map methodInfo) := by
  obtain ⟨q, hq, hdescribes⟩ := forall₂_mem_right (build_ok hbuild).infos hc
  exact ⟨q, hq, hdescribes.methods_perm⟩

/-- An image that was built fits if it does without its methods, and they do. -/
theorem fits_of_build {limit : Option Nat} (h : image.withoutMethods.Fits limit)
    (hmethods : ∀ q ∈ plan.registry.classes, MethodsFit limit q.2) : image.Fits limit := by
  have hinfo : ∀ c ∈ image.classes, ∀ m ∈ c.methods,
      ∃ q ∈ plan.registry.classes, ∃ m₀ ∈ q.2.methods, methodInfo m₀ = m := by
    intro c hc m hm
    obtain ⟨q, hq, hperm⟩ := exists_methods_of_build hbuild hc
    exact ⟨q, hq, List.mem_map.mp (hperm.mem_iff.mp hm)⟩
  refine ⟨fun n hn => ?_, fun t ht => ?_, h.code, fun n hn => ?_, h.records⟩
  · rcases mem_words hn with hn | ⟨c, hc, m, hm, hn⟩
    · exact h.words n hn
    · obtain ⟨q, hq, m, hmem, rfl⟩ := hinfo c hc m hm
      exact (hmethods q hq).words m hmem n hn
  · rcases mem_texts ht with rfl | ht | ⟨c, hc, m, hm, ht⟩
    · rw [← contentId_of_build hbuild]
      exact Nat.lt_of_le_of_lt (length_contentId_le image) (by decide)
    · exact h.texts t ht
    · obtain ⟨q, hq, m, hmem, rfl⟩ := hinfo c hc m hm
      exact (hmethods q hq).texts m hmem t ht
  · rcases mem_lengths hn with hn | ⟨c, hc, rfl⟩
    · exact h.lengths n hn
    · obtain ⟨q, hq, hperm⟩ := exists_methods_of_build hbuild hc
      rw [hperm.length_eq, List.length_map]
      exact (hmethods q hq).length

/-- The texts of an image that was built are UTF-8 if those without its methods are, and those of
the methods. -/
theorem isUtf8_of_build (h : ∀ t ∈ image.withoutMethods.texts, t.isUtf8 = true)
    (hmethods : ∀ q ∈ plan.registry.classes, ∀ m ∈ q.2.methods, ∀ t ∈ (methodInfo m).texts,
      t.isUtf8 = true) : ∀ t ∈ image.texts, t.isUtf8 = true := by
  intro t ht
  rcases mem_texts ht with rfl | ht | ⟨c, hc, m, hm, ht⟩
  · rw [← contentId_of_build hbuild]
    exact isUtf8_contentId image
  · exact h t ht
  · obtain ⟨q, hq, hperm⟩ := exists_methods_of_build hbuild hc
    obtain ⟨m, hmem, rfl⟩ := List.mem_map.mp (hperm.mem_iff.mp hm)
    exact hmethods q hq m hmem t ht

end Built

/-- The binary form of an image that was built can be read exactly if every text in it is UTF-8.
What is read is the image up to its floats, has the same binary form, and the id that belongs to it
is the image's. -/
theorem decode_encode {plan : Plan} {image : Image} (hbuild : build plan = .ok image)
    {limit : Option Nat} (hfits : image.Fits limit) :
    ((decodeWithin? limit image.encode).isSome = true ↔ ∀ t ∈ image.texts, t.isUtf8 = true) ∧
    ∀ decoded, decodeWithin? limit image.encode = some decoded →
      decoded = image.reread ∧ decoded.encode = image.encode ∧
        decoded.contentId = image.buildId := by
  rw [decodeWithin?_encode hfits]
  refine ⟨?_, fun decoded hdecoded => ?_⟩
  · rw [← List.all_eq_true]
    show (provided (image.texts.all Text.isUtf8) image.reread).isSome = true ↔ _
    cases image.texts.all Text.isUtf8 <;> simp [provided]
  · have hsame : image.reread = decoded := by
      unfold provided at hdecoded
      split at hdecoded
      · exact Option.some.inj hdecoded
      · cases hdecoded
    subst hsame
    exact ⟨rfl, encode_reread image, (contentId_reread image).trans (contentId_of_build hbuild)⟩

end Image

/-- A program that loads a float that is no number and the negative zero. -/
def floatSource : Source := .ofDecls [
  .bareRoot,
  .simple false "A" RuntimeSeeds.defaultRoot [] [.simple "run" true [0x12, 0x01, 0x57, 0xB1]]
    [⟨1, .ofLiteral (.float 0xFFA00001)⟩],
  .simple false "B" RuntimeSeeds.defaultRoot [] [.simple "run" true [0x14, 0x00, 0x01, 0x58, 0xB1]]
    [⟨1, .ofLiteral (.double 0x8000000000000000)⟩],
  .simple false "Main" RuntimeSeeds.defaultRoot [] [.simple "main" true [0xB1]] []]

/-- Options that keep the methods of the program. -/
def floatOptions : LinkOptions :=
  { Program.bareOptions with required := [⟨"A", "run", "()V"⟩, ⟨"B", "run", "()V"⟩] }

namespace Image

theorem decode_encode_floats : ∃ plan image, build plan = .ok image ∧ image.Fits none ∧
    image.reread ≠ image ∧
    ((decodeWithin? none image.encode).isSome = true ↔ ∀ t ∈ image.texts, t.isUtf8 = true) ∧
    ∀ decoded, decodeWithin? none image.encode = some decoded →
      decoded = image.reread ∧ decoded.encode = image.encode ∧
        decoded.contentId = image.buildId := by
  obtain ⟨p, image, -, hbuild, hbare, hmethods, hchanged⟩ :=
    Program.exists_image_of_check floatSource floatOptions
      (fun p image => image.withoutMethods.Fits none ∧
        (∀ q ∈ p.plan.registry.classes, MethodsFit none q.2) ∧
        image.withoutMethods.classes.map ClassInfo.reread ≠ image.withoutMethods.classes)
      (by decide +kernel)
  have hfits := fits_of_build hbuild hbare hmethods
  refine ⟨p.plan, image, hbuild, hfits, fun heq => hchanged ?_, decode_encode hbuild hfits⟩
  have hclasses : image.classes.map ClassInfo.reread = image.classes := congrArg Image.classes heq
  conv_rhs => rw [withoutMethods, ← hclasses]
  simp only [withoutMethods, List.map_map]
  rfl

end Image

end ClassLinker
