import ClassLinker.Proofs.Cbor.ReadBack
import ClassLinker.Proofs.ClassFile.Format
import ClassLinker.Proofs.ClassFile.Prompt
import ClassLinker.Proofs.Instruction.Stream

/-! Reading class files back. Every item of a serialized class file is read as what was written, by
the readers of the file and by those of the bodies of attributes, whatever comes after it; so the
class file is read back, and the bytes behind it are not looked at. -/

namespace ClassLinker

namespace ClassFile

/-! ### Numbers -/

section Numbers

variable {σ α β : Type} [Consuming σ] {x : StateT σ (Except ClassFileError) α} {xs ys : Bytes}
  {a b : α}

theorem Reads.congr (h : Reads x xs a) (hbytes : xs = ys) (hvalue : a = b) : Reads x ys b := by
  rwa [← hbytes, ← hvalue]

/-- Of a number the low four bytes are written. -/
theorem bigEndian_fourBytes_mod (n : Nat) : bigEndian (fourBytes n) = n % 0x100000000 := by
  have hsplit : bigEndian (fourBytes n) =
      bigEndian (twoBytes (n / 65536)) * 256 ^ 2 + bigEndian (twoBytes n) := by
    rw [fourBytes, bigEndian, List.foldl_append, bigEndian_foldl]
    rfl
  rw [hsplit, bigEndian_twoBytes_mod, bigEndian_twoBytes_mod]
  omega

theorem bigEndian_eightBytes (n : UInt64) : bigEndian (eightBytes n.toNat) = n.toNat := by
  have hlt := n.toNat_lt
  have hsplit : bigEndian (eightBytes n.toNat) =
      bigEndian (fourBytes (n.toNat / 0x100000000)) * 256 ^ 4 + bigEndian (fourBytes n.toNat) := by
    rw [eightBytes, bigEndian, List.foldl_append, bigEndian_foldl]
    rfl
  rw [hsplit, bigEndian_fourBytes _ (by omega), bigEndian_fourBytes_mod]
  exact Nat.div_add_mod' n.toNat 0x100000000

theorem reads_u2 {take : StateT σ (Except ClassFileError) Bytes} (n : UInt16)
    (h : Reads take (u2 n) (u2 n)) :
    Reads (do return (bigEndian (← take)).toUInt16) (u2 n) n := by
  refine (h.map fun bytes => (bigEndian bytes).toUInt16).congr rfl ?_
  rw [u2, bigEndian_twoBytes n.toNat_lt]
  exact UInt16.ofNat_toNat

theorem reads_u4 {take : StateT σ (Except ClassFileError) Bytes} (n : UInt32)
    (h : Reads take (fourBytes n.toNat) (fourBytes n.toNat)) :
    Reads (do return (bigEndian (← take)).toUInt32) (fourBytes n.toNat) n := by
  refine (h.map fun bytes => (bigEndian bytes).toUInt32).congr rfl ?_
  rw [bigEndian_fourBytes _ n.toNat_lt]
  exact UInt32.ofNat_toNat

end Numbers

theorem reads_takeU1 (b : UInt8) : Reads takeU1 [b] b := by
  refine ((reads_takeBytes [b]).map fun bytes => (bigEndian bytes).toUInt8).congr rfl ?_
  rw [show bigEndian [b] = b.toNat from Nat.zero_add _]
  exact UInt8.ofNat_toNat

theorem reads_takeU2 (n : UInt16) : Reads takeU2 (u2 n) n := reads_u2 n (reads_takeBytes (u2 n))

theorem reads_takeU4 (n : UInt32) : Reads takeU4 (fourBytes n.toNat) n :=
  reads_u4 n (reads_takeBytes (fourBytes n.toNat))

theorem reads_takeU8 (n : UInt64) : Reads takeU8 (eightBytes n.toNat) n := by
  refine ((reads_takeBytes _).map fun bytes => (bigEndian bytes).toUInt64).congr rfl ?_
  rw [bigEndian_eightBytes]
  exact UInt64.ofNat_toNat

theorem Body.reads_takeBytes (bytes : Bytes) : Reads (Body.takeBytes bytes.length) bytes bytes := by
  rintro ⟨offset, input⟩ ⟨offset', rest⟩ ⟨hinput, hoffset⟩
  dsimp only at hinput hoffset
  subst hinput hoffset
  simp [Body.takeBytes]

theorem Body.reads_takeU2 (n : UInt16) : Reads Body.takeU2 (u2 n) n :=
  reads_u2 n (Body.reads_takeBytes (u2 n))

theorem Body.reads_takeU4 (n : UInt32) : Reads Body.takeU4 (fourBytes n.toNat) n :=
  reads_u4 n (Body.reads_takeBytes (fourBytes n.toNat))

/-- A body that is read from its start, whatever is left over. -/
theorem Body.read_of_reads {α : Type} {reader : BodyReader α} {bytes : Bytes} {a : α}
    (h : Reads reader bytes a) : Body.read reader bytes = .ok a := by
  have hall : Consuming.consumes bytes (Body.mk 0 bytes) (Body.mk bytes.length []) :=
    ⟨(List.append_nil bytes).symm, (Nat.zero_add _).symm⟩
  rw [Body.read, h _ _ hall]
  rfl

/-! ### Lists behind their length -/

section Counted

variable {σ α β ι : Type} [Consuming σ] {take : StateT σ (Except ClassFileError) UInt16}
  {step : Nat → StateT σ (Except ClassFileError) α} {items : List ι} {bytes : ι → Bytes}

theorem u2_length {n : Nat} (h : n < 0x10000) :
    u2 n.toUInt16 = twoBytes n ∧ n.toUInt16.toNat = n := by
  have hsame : n.toUInt16.toNat = n := UInt16.toNat_ofNat_of_lt' h
  exact ⟨by rw [u2, hsame], hsame⟩

theorem Reads.counted {value : ι → α} (htake : ∀ n, Reads take (u2 n) n)
    (hlength : items.length < 0x10000)
    (hstep : ∀ item ∈ items, ∀ i, Reads (step i) (bytes item) (value item)) :
    Reads (do let count ← take; ClassFile.readMany step count.toNat 0) (counted bytes items)
      (items.map value) := by
  obtain ⟨hbytes, hcount⟩ := u2_length hlength
  have hcounted := htake items.length.toUInt16
  rw [hbytes] at hcounted
  refine hcounted.bind ?_
  rw [hcount]
  exact Reads.readMany hstep 0

/-- A list behind its length, and then what comes after it. -/
theorem Reads.counted_bind (value : ι → α) {f : List α → StateT σ (Except ClassFileError) β}
    {ys : Bytes} {b : β} (htake : ∀ n, Reads take (u2 n) n) (hlength : items.length < 0x10000)
    (hstep : ∀ item ∈ items, ∀ i, Reads (step i) (bytes item) (value item))
    (hf : Reads (f (items.map value)) ys b) :
    Reads (do let count ← take; let as ← ClassFile.readMany step count.toNat 0; f as)
      (ClassFile.counted bytes items ++ ys) b := by
  have h := (Reads.counted htake hlength hstep).bind hf
  rwa [bind_assoc] at h

end Counted

/-! ### The pool -/

theorem reads_takeMember (tag : MemberTag) (i j : UInt16) :
    Reads (takeMember tag) (u2 i ++ u2 j) (.member tag i j) :=
  (reads_takeU2 i).bind ((reads_takeU2 j).map _)

theorem reads_skipBody (bytes : Bytes) (c : Constant) :
    Reads (skipBody bytes.length c) bytes c := by
  have hdiscard : Reads (discard (takeBytes bytes.length)) bytes PUnit.unit :=
    (reads_takeBytes bytes).map fun _ => PUnit.unit
  exact hdiscard.map fun _ => c

/-- The reader of an entry is found by its tag and reads its body. -/
theorem exists_constantReader {c : WrittenConstant} (hfits : c.Fits) :
    ∃ reader, constantReader? c.tag = some reader ∧ Reads reader c.body c.constant := by
  cases c with
  | utf8 text =>
      obtain ⟨hbytes, hcount⟩ := u2_length hfits
      refine ⟨_, rfl, ?_⟩
      rw [WrittenConstant.body, ← hbytes]
      refine (reads_takeU2 _).bind ?_
      rw [hcount]
      exact (reads_takeBytes text).map Constant.utf8
  | integer bits => exact ⟨_, rfl, (reads_takeU4 bits).map _⟩
  | float bits => exact ⟨_, rfl, (reads_takeU4 bits).map _⟩
  | long bits => exact ⟨_, rfl, (reads_takeU8 bits).map _⟩
  | double bits => exact ⟨_, rfl, (reads_takeU8 bits).map _⟩
  | classRef i => exact ⟨_, rfl, (reads_takeU2 i).map _⟩
  | string i => exact ⟨_, rfl, (reads_takeU2 i).map _⟩
  | member tag i j => cases tag <;> exact ⟨_, rfl, reads_takeMember _ i j⟩
  | nameAndType i j => exact ⟨_, rfl, (reads_takeU2 i).bind ((reads_takeU2 j).map _)⟩
  | methodHandle kind i => exact ⟨_, rfl, reads_skipBody (kind :: u2 i) _⟩
  | methodType i => exact ⟨_, rfl, reads_skipBody (u2 i) _⟩
  | dynamic i j => exact ⟨_, rfl, reads_skipBody (u2 i ++ u2 j) _⟩
  | invokeDynamic i j => exact ⟨_, rfl, reads_skipBody (u2 i ++ u2 j) _⟩

theorem reads_takeConstant {c : WrittenConstant} (hfits : c.Fits) (i : UInt16) :
    Reads (takeConstant i) c.bytes c.constant := by
  obtain ⟨reader, hreader, hreads⟩ := exists_constantReader hfits
  have htag : Reads (locate (.poolTag i) takeU1) [c.tag] c.tag := (reads_takeU1 c.tag).locate _
  refine htag.bind ?_
  rw [hreader]
  exact hreads.locate _

theorem isWide_constant (c : WrittenConstant) : c.constant.isWide = c.isWide := by
  cases c <;> rfl

theorem slotBytes_some (c : WrittenConstant) (slots : List (Option WrittenConstant)) :
    slotBytes (some c :: slots) = c.bytes ++ slotBytes slots := by
  rw [slotBytes, List.flatMap_cons]
  rfl

theorem slotBytes_none (slots : List (Option WrittenConstant)) :
    slotBytes (none :: slots) = slotBytes slots := by
  rw [slotBytes, List.flatMap_cons]
  rfl

/-- Setting the slot after those that are filled. -/
theorem setIfInBounds_filled (done rest : List (Option Constant)) (slot : Option Constant) :
    (done ++ none :: rest).toArray.setIfInBounds done.length slot =
      (done ++ slot :: rest).toArray := by
  simp

theorem WrittenConstant.length_bytes_pos (c : WrittenConstant) : 0 < c.bytes.length := Nat.succ_pos _

/-- The next slot that is filled is `width` slots on. -/
theorem toNat_add_slots {i : UInt16} {count n : Nat} (hi : i.toNat = n) (width : UInt16)
    (hle : n + width.toNat ≤ count) (hcount : count < 0x10000) :
    (i + width).toNat = n + width.toNat := by
  rw [UInt16.toNat_add, hi]
  exact Nat.mod_eq_of_lt (Nat.lt_of_le_of_lt hle hcount)

section TakePool

variable {count i : UInt16} {fuel : Nat} {done : List (Option Constant)}

/-- Filling the pool with an entry, and then with those after it. -/
theorem reads_takePool_cons {c : WrittenConstant} {rest : List (Option Constant)} {bytes : Bytes}
    {pool : ConstantPool} (hfits : c.Fits)
    (hi : i.toNat = done.length) (hlt : done.length < count.toNat)
    (hrest : Reads (takePool count fuel (if c.isWide then i + 2 else i + 1)
      (done ++ some c.constant :: rest).toArray) bytes pool) :
    Reads (takePool count (fuel + 1) i (done ++ none :: rest).toArray) (c.bytes ++ bytes) pool := by
  have hmore : i < count := UInt16.lt_iff_toNat_lt.mpr (by rwa [hi])
  rw [takePool, if_pos hmore]
  refine (reads_takeConstant hfits i).bind ?_
  rwa [isWide_constant, hi, setIfInBounds_filled]

/-- Filling the pool from the slots that are filled already to the last one. -/
theorem reads_takePool {todo : List (Option WrittenConstant)} (hfilled : Filled todo)
    (hfits : ∀ slot ∈ todo, ∀ c ∈ slot, c.Fits) (hi : i.toNat = done.length)
    (hcount : count.toNat = done.length + todo.length) (hfuel : (slotBytes todo).length < fuel) :
    Reads (takePool count fuel i (done ++ List.replicate todo.length none).toArray) (slotBytes todo)
      (done ++ todo.map (Option.map WrittenConstant.constant)).toArray := by
  have hlt := count.toNat_lt
  induction hfilled generalizing done fuel i with
  | nil =>
      obtain ⟨fuel, rfl⟩ := Nat.exists_eq_add_one.mpr (Nat.zero_lt_of_lt hfuel)
      have hend : ¬ i < count := by
        rw [UInt16.lt_iff_toNat_lt, hi, hcount]
        exact Nat.lt_irrefl _
      rw [takePool, if_neg hend]
      exact .pure _
  | @narrow c slots hnarrow hrest ih =>
      obtain ⟨fuel, rfl⟩ := Nat.exists_eq_add_one.mpr (Nat.zero_lt_of_lt hfuel)
      have hpos := c.length_bytes_pos
      rw [slotBytes_some] at hfuel ⊢
      rw [List.length_append] at hfuel
      rw [List.length_cons] at hcount
      have hnext : (i + 1).toNat = (done ++ [some c.constant]).length := by
        rw [List.length_append, List.length_singleton]
        exact toNat_add_slots hi 1 (show done.length + 1 ≤ count.toNat by omega) hlt
      have hreads := ih (fun slot h => hfits slot (List.mem_cons_of_mem _ h)) hnext
        (by rw [List.length_append, List.length_singleton]; omega)
        (show (slotBytes slots).length < fuel by omega)
      rw [List.append_assoc, List.append_assoc] at hreads
      refine reads_takePool_cons (hfits _ List.mem_cons_self c rfl) hi (by omega) ?_
      rw [hnarrow]
      exact hreads
  | @wide c slots hwide hrest ih =>
      obtain ⟨fuel, rfl⟩ := Nat.exists_eq_add_one.mpr (Nat.zero_lt_of_lt hfuel)
      have hpos := c.length_bytes_pos
      rw [slotBytes_some, slotBytes_none] at hfuel ⊢
      rw [List.length_append] at hfuel
      rw [List.length_cons, List.length_cons] at hcount
      have hnext : (i + 2).toNat = (done ++ [some c.constant, none]).length := by
        rw [List.length_append]
        exact toNat_add_slots hi 2 (show done.length + 2 ≤ count.toNat by omega) hlt
      have hreads := ih
        (fun slot h => hfits slot (List.mem_cons_of_mem _ (List.mem_cons_of_mem _ h))) hnext
        (hcount.trans (by rw [List.length_append]; show _ = done.length + 2 + _; omega))
        (show (slotBytes slots).length < fuel by omega)
      rw [List.append_assoc, List.append_assoc] at hreads
      refine reads_takePool_cons (hfits _ List.mem_cons_self c rfl) hi (by omega) ?_
      rw [hwide]
      exact hreads

end TakePool

theorem reads_takeWholePool {slots : List (Option WrittenConstant)} (h : PoolWellFormed slots) :
    Reads (takeWholePool slots.length.toUInt16) (slotBytes slots) (poolOf slots) := by
  intro input rest hinput
  have hcount : slots.length.toUInt16.toNat = slots.length := (u2_length h.length_lt).2
  have hfuel : (slotBytes slots).length < input.length + 1 := by
    rw [show input = slotBytes slots ++ rest from hinput, List.length_append]
    omega
  suffices hreads : Reads (takePool slots.length.toUInt16 (input.length + 1) 1
      (Array.replicate slots.length.toUInt16.toNat none)) (slotBytes slots) (poolOf slots) from
    hreads input rest hinput
  rw [hcount, ← List.toArray_replicate]
  cases slots with
  | nil => exact .pure _
  | cons first slots =>
      obtain ⟨rfl, hfilled⟩ := h.filled first rfl
      rw [slotBytes_none] at hfuel ⊢
      have hfirst : (1 : UInt16).toNat = ([none] : List (Option Constant)).length := rfl
      have hfits : ∀ slot ∈ slots, ∀ c ∈ slot, c.Fits := fun slot hslot =>
        h.fits slot (List.mem_cons_of_mem _ hslot)
      exact reads_takePool hfilled hfits hfirst (hcount.trans (Nat.add_comm _ _)) hfuel

/-- A text that is written is found in the pool. -/
theorem utf8_poolOf {slots : List (Option WrittenConstant)} {index : UInt16}
    (h : (textAt? slots index).isSome = true) :
    (poolOf slots).utf8 index = .ok (textAt slots index) := by
  unfold textAt
  unfold textAt? at h ⊢
  split at h
  case h_1 text hslot =>
      have hentry : (poolOf slots)[index.toNat]? = some (some (.utf8 text)) := by
        rw [poolOf, List.getElem?_toArray, List.getElem?_map, hslot]
        rfl
      rw [ConstantPool.utf8, ConstantPool.entry, hentry]
      rfl
  case h_2 => cases h

/-! ### Attributes -/

section Sized

variable {σ β : Type} [Consuming σ] {take : StateT σ (Except ClassFileError) UInt32}
  {takeData : UInt32 → StateT σ (Except ClassFileError) Bytes}
  {f : Bytes → StateT σ (Except ClassFileError) β} {data ys : Bytes} {b : β}

/-- Data behind its length, and then what comes after it. -/
theorem Reads.sized_bind (htake : ∀ n : UInt32, Reads take (fourBytes n.toNat) n)
    (hlength : data.length < 0x100000000)
    (hdata : ∀ n : UInt32, n.toNat = data.length → Reads (takeData n) data data)
    (hf : Reads (f data) ys b) :
    Reads (do let length ← take; let data ← takeData length; f data)
      (fourBytes data.length ++ (data ++ ys)) b := by
  have hsame : data.length.toUInt32.toNat = data.length := UInt32.toNat_ofNat_of_lt' hlength
  have htaken := htake data.length.toUInt32
  rw [hsame] at htaken
  exact htaken.bind ((hdata _ hsame).bind hf)

/-- Data behind its length at the end. -/
theorem Reads.sized (htake : ∀ n : UInt32, Reads take (fourBytes n.toNat) n)
    (hlength : data.length < 0x100000000)
    (hdata : ∀ n : UInt32, n.toNat = data.length → Reads (takeData n) data data)
    (hf : Reads (f data) [] b) :
    Reads (do let length ← take; let data ← takeData length; f data)
      (fourBytes data.length ++ data) b :=
  (Reads.sized_bind htake hlength hdata hf).congr (by rw [List.append_nil]) rfl

end Sized

section Attributes

variable {slots : List (Option WrittenConstant)}

theorem reads_lineTable {rows : List LineRow} (hlength : rows.length < 0x10000) :
    Reads lineTable (counted rowBytes rows) rows := by
  refine (Reads.counted Body.reads_takeU2 hlength fun row _ _ => ?_).congr rfl (List.map_id rows)
  exact (Body.reads_takeU2 row.start).bind ((Body.reads_takeU2 row.line).map _)

theorem reads_exceptionList {thrown : List UInt16} (hlength : thrown.length < 0x10000) :
    Reads exceptionList (counted u2 thrown) thrown :=
  (Reads.counted Body.reads_takeU2 hlength fun slot _ _ => Body.reads_takeU2 slot).congr rfl
    (List.map_id thrown)

theorem reads_codeAttribute {a : WrittenAttribute CodeAttributeBody}
    (h : a.WellFormed slots CodeAttributeBody.bytes)
    (hlines : textAt slots a.name = ("LineNumberTable" : Text) → a.body.IsLines) (i : Nat) :
    Reads (codeAttribute (poolOf slots) i) (a.bytes CodeAttributeBody.bytes) (a.rows slots) := by
  rw [WrittenAttribute.bytes, List.append_assoc]
  refine (Body.reads_takeU2 a.name).bind ?_
  refine Reads.sized Body.reads_takeU4 h.length_lt (fun n hn => ?_) ?_
  · rw [hn]
    exact Body.reads_takeBytes _
  refine (Reads.lookupText (utf8_poolOf h.named) _).nil_bind ?_
  unfold WrittenAttribute.rows
  split
  case isTrue hname =>
      obtain ⟨rows, hbody, hlength⟩ := (hlines hname).exists_lines
      rw [hbody]
      exact (Reads.liftM (Body.read_of_reads (reads_lineTable hlength))).locate _
  case isFalse => exact .pure []

theorem reads_codeBody {c : WrittenCode} (h : c.WellFormed slots) :
    Reads (codeBody (poolOf slots)) c.bytes (c.codeBody slots) := by
  rw [WrittenCode.bytes]
  simp only [List.append_assoc]
  refine (Body.reads_takeU2 _).bind ((Body.reads_takeU2 _).bind ?_)
  refine Reads.sized_bind Body.reads_takeU4 h.code_length_lt (fun n hn => ?_) ?_
  · rw [hn]
    exact (Body.reads_takeBytes _).locate _
  refine Reads.counted_bind id (fun n => (Body.reads_takeU2 n).locate _)
    h.handlers_length_lt (fun row _ _ => ?_) ?_
  · refine Reads.locate ?_ _
    rw [handlerBytes]
    simp only [List.append_assoc]
    refine (Body.reads_takeU2 _).bind ((Body.reads_takeU2 _).bind ?_)
    exact (Body.reads_takeU2 _).bind ((Body.reads_takeU2 _).map _)
  rw [← List.append_nil (counted _ c.attributes), List.map_id]
  refine Reads.counted_bind (WrittenAttribute.rows slots)
    (fun n => (Body.reads_takeU2 n).locate _) h.attributes_length_lt
    (fun a ha i => reads_codeAttribute (h.attributes a ha) (h.lines a ha) i) ?_
  exact .pure _

theorem reads_takeAttribute {a : WrittenAttribute AttributeBody}
    (h : a.WellFormed slots AttributeBody.bytes) (i : Nat) :
    Reads (takeAttribute (poolOf slots) i) (a.bytes AttributeBody.bytes) (a.attribute slots) := by
  have hbody : Reads (do
      let nameIndex ← takeU2
      let length ← takeU4
      let data ← takeBytes length.toNat
      return (nameIndex, data)) (a.bytes AttributeBody.bytes) (a.name, a.body.bytes) := by
    rw [WrittenAttribute.bytes, List.append_assoc]
    refine (reads_takeU2 a.name).bind ?_
    refine Reads.sized reads_takeU4 h.length_lt (fun n hn => ?_) (.pure _)
    rw [hn]
    exact reads_takeBytes _
  exact (hbody.locate _).bind_nil ((Reads.lookupText (utf8_poolOf h.named) _).map _)

theorem reads_takeAttributes {attributes : List (WrittenAttribute AttributeBody)}
    (hlength : attributes.length < 0x10000)
    (h : ∀ a ∈ attributes, a.WellFormed slots AttributeBody.bytes) :
    Reads (takeAttributes (poolOf slots))
      (counted (WrittenAttribute.bytes AttributeBody.bytes) attributes)
      (attributes.map (WrittenAttribute.attribute slots)) :=
  Reads.counted (fun n => (reads_takeU2 n).locate _) hlength fun a ha i =>
    reads_takeAttribute (h a ha) i

end Attributes

/-! ### Fields and methods -/

section Members

variable {slots : List (Option WrittenConstant)} {m : WrittenMember}

theorem reads_takeHeader (h : m.WellFormed slots) (self name descriptor : Place) :
    Reads (takeHeader (poolOf slots) self name descriptor)
      (u2 m.flags ++ u2 m.name ++ u2 m.descriptor)
      ⟨m.flags, textAt slots m.name, textAt slots m.descriptor⟩ := by
  have hslots : Reads (do return (← takeU2, ← takeU2, ← takeU2))
      (u2 m.flags ++ u2 m.name ++ u2 m.descriptor) (m.flags, m.name, m.descriptor) := by
    rw [List.append_assoc]
    exact (reads_takeU2 _).bind ((reads_takeU2 _).bind ((reads_takeU2 _).map _))
  refine (hslots.locate self).bind_nil ?_
  refine (Reads.lookupText (utf8_poolOf h.named) _).nil_bind ?_
  exact (Reads.lookupText (utf8_poolOf h.described) _).map _

theorem reads_takeField (h : m.WellFormed slots) (i : Nat) :
    Reads (takeField (poolOf slots) i) m.bytes (m.field slots) :=
  (reads_takeHeader h _ _ _).bind
    (((reads_takeAttributes h.attributes_length_lt h.attributes).locate _).map _)

/-- The code of a method is read off its attribute. -/
theorem exists_code {a : WrittenAttribute AttributeBody}
    (hname : textAt slots a.name = ("Code" : Text)) (h : a.body.IsCode slots) :
    ∃ code, a.code? slots = some code ∧
      Body.read (codeBody (poolOf slots)) a.body.bytes = .ok code := by
  obtain ⟨body, hbody, hw⟩ := h.exists_code
  refine ⟨body.codeBody slots, ?_, ?_⟩
  · rw [WrittenAttribute.code?, if_pos hname, hbody]
  · rw [hbody]
    exact Body.read_of_reads (reads_codeBody hw)

/-- The thrown classes of a method are read off their attribute. -/
theorem exists_exceptions {a : WrittenAttribute AttributeBody}
    (hname : textAt slots a.name = ("Exceptions" : Text))
    (h : a.body.IsExceptions) :
    ∃ thrown, a.exceptions? slots = some thrown ∧
      Body.read exceptionList a.body.bytes = .ok thrown := by
  obtain ⟨thrown, hbody, hlength⟩ := h.exists_exceptions
  refine ⟨thrown, ?_, ?_⟩
  · rw [WrittenAttribute.exceptions?, if_pos hname, hbody]
  · rw [hbody]
    exact Body.read_of_reads (reads_exceptionList hlength)

/-- The last attribute of each kind counts, and what was there before if there is none. -/
theorem readMethodAttributes_written {attributes : List (WrittenAttribute AttributeBody)}
    (hcode : ∀ a ∈ attributes, textAt slots a.name = ("Code" : Text) → a.body.IsCode slots)
    (hexceptions : ∀ a ∈ attributes, textAt slots a.name = ("Exceptions" : Text) →
      a.body.IsExceptions) (m : MethodEntry) :
    readMethodAttributes (poolOf slots) m (attributes.map (WrittenAttribute.attribute slots)) =
      .ok { m with
        code := (attributes.filterMap (WrittenAttribute.code? slots)).getLast?.or m.code
        exceptions :=
          (attributes.filterMap (WrittenAttribute.exceptions? slots)).getLast?.getD m.exceptions } := by
  induction attributes generalizing m with
  | nil => rfl
  | cons a attributes ih =>
      specialize ih (fun b hb => hcode b (List.mem_cons_of_mem a hb))
        (fun b hb => hexceptions b (List.mem_cons_of_mem a hb))
      rw [List.map_cons, readMethodAttributes, WrittenAttribute.attribute, List.filterMap_cons,
        List.filterMap_cons]
      dsimp only
      by_cases hname : textAt slots a.name = ("Code" : Text)
      · obtain ⟨code, hcode?, hread⟩ := exists_code hname (hcode a List.mem_cons_self hname)
        have hexceptions? : a.exceptions? slots = none := if_neg (by rw [hname]; decide)
        rw [if_pos hname, hread, hcode?, hexceptions?]
        dsimp only
        rw [ih, List.getLast?_cons]
        cases (attributes.filterMap (WrittenAttribute.code? slots)).getLast? <;> rfl
      by_cases hname' : textAt slots a.name = ("Exceptions" : Text)
      · obtain ⟨thrown, hexceptions?, hread⟩ :=
          exists_exceptions hname' (hexceptions a List.mem_cons_self hname')
        have hcode? : a.code? slots = none := if_neg hname
        rw [if_neg hname, if_pos hname', hread, hcode?, hexceptions?]
        dsimp only
        rw [ih, List.getLast?_cons]
        rfl
      · have hcode? : a.code? slots = none := if_neg hname
        have hexceptions? : a.exceptions? slots = none := if_neg hname'
        rw [if_neg hname, if_neg hname', hcode?, hexceptions?]
        exact ih m

theorem reads_takeMethod (h : m.MethodWellFormed slots) (i : Nat) :
    Reads (takeMethod (poolOf slots) i) m.bytes (m.method slots) := by
  refine (reads_takeHeader h.toWellFormed _ _ _).bind ?_
  refine ((reads_takeAttributes h.attributes_length_lt h.attributes).locate _).bind_nil ?_
  refine Reads.liftM ((readMethodAttributes_written h.code h.exceptions _).trans ?_)
  rw [WrittenMember.method, Option.or_none]

end Members

/-! ### Class files -/

section ClassFiles

variable {w : Written}

theorem reads_takeClassHeader (hlength : w.interfaces.length < 0x10000) :
    Reads takeClassHeader
      (u2 w.flags ++ u2 w.thisClass ++ u2 w.superClass ++ counted u2 w.interfaces)
      ⟨w.flags, w.thisClass, w.superClass, w.interfaces⟩ := by
  rw [← List.append_nil (counted u2 w.interfaces)]
  simp only [List.append_assoc]
  refine (reads_takeU2 _).bind ((reads_takeU2 _).bind ((reads_takeU2 _).bind ?_))
  refine Reads.counted_bind id reads_takeU2 hlength (fun slot _ _ => reads_takeU2 slot) ?_
  rw [List.map_id]
  exact .pure _

theorem reads_take (h : w.WellFormed) : Reads take w.bytes w.classFile := by
  have hversion : Reads (do return (← takeU2, ← takeU2, ← takeU2))
      (u2 w.minor ++ (u2 w.major ++ twoBytes w.slots.length))
      (w.minor, w.major, w.slots.length.toUInt16) := by
    rw [← (u2_length h.pool.length_lt).1]
    exact (reads_takeU2 _).bind ((reads_takeU2 _).bind ((reads_takeU2 _).map _))
  have hpool := reads_takeWholePool h.pool
  have hheader := reads_takeClassHeader h.interfaces_length_lt
  have hfields : Reads (takeCounted .fieldCount (takeField (poolOf w.slots)))
      (counted WrittenMember.bytes w.fields) (w.fields.map (WrittenMember.field w.slots)) :=
    Reads.counted (fun n => (reads_takeU2 n).locate _) h.fields_length_lt fun m hm i =>
      reads_takeField (h.fields m hm) i
  have hmethods : Reads (takeCounted .methodCount (takeMethod (poolOf w.slots)))
      (counted WrittenMember.bytes w.methods) (w.methods.map (WrittenMember.method w.slots)) :=
    Reads.counted (fun n => (reads_takeU2 n).locate _) h.methods_length_lt fun m hm i =>
      reads_takeMethod (h.methods m hm) i
  have hattributes := reads_takeAttributes h.attributes_length_lt h.attributes
  rw [Written.bytes]
  simp only [List.append_assoc]
  refine ((reads_takeU4 magicNumber).locate _).bind ?_
  dsimp only
  rw [if_neg (not_not_intro rfl)]
  refine ((hversion.locate _).bind ((hpool.locate _).bind ((hheader.locate _).bind
    ((hfields.locate _).bind ((hmethods.locate _).bind ((hattributes.locate _).map _)))))).congr ?_ rfl
  simp only [List.append_assoc]

/-- A well-formed class file is read back from its serialized form, whatever comes after it. -/
theorem read_written (h : w.WellFormed) (rest : Bytes) : read (w.bytes ++ rest) = .ok w.classFile := by
  rw [read, reads_take h (w.bytes ++ rest) rest rfl]
  rfl

/-- A class file in which every list has an item: the pool ends with a wide entry, the first method
has two code attributes and the second of them two line number tables, and the attribute of the field
is named like code but is none. -/
def sample : Written where
  minor := 3
  major := 52
  slots := [none, some (.utf8 "Code"), some (.utf8 "Exceptions"), some (.utf8 "LineNumberTable"),
    some (.utf8 "run"), some (.utf8 "()V"), some (.utf8 "Main"), some (.classRef 6),
    some (.long 0x8000000000000001), none, some (.methodHandle 6 11), some (.member .method 7 12),
    some (.nameAndType 4 5), some (.integer 0xFFFFFFFF), some (.double 0x7FF8000000000000), none]
  flags := 0x0021
  thisClass := 7
  superClass := 0
  interfaces := [7]
  fields := [⟨0x0008, 6, 5, [⟨1, .other [1, 2, 3]⟩]⟩]
  methods := [⟨0x0009, 4, 5,
    [⟨1, .code ⟨9, 9, [0], [], []⟩⟩, ⟨2, .exceptions [7, 0]⟩,
      ⟨1, .code ⟨1, 2, [0x2A, 0xB1], [⟨0, 1, 1, 0⟩],
        [⟨3, .lines [⟨0, 10⟩, ⟨1, 11⟩]⟩, ⟨6, .other [0xFF]⟩, ⟨3, .lines [⟨1, 0xFFFF⟩]⟩]⟩⟩]⟩,
    ⟨0x0100, 4, 5, []⟩]
  attributes := [⟨3, .other []⟩]

/-- The sample is read back with more bytes behind it. Of its code attributes the second counts, with
the rows of both its tables. -/
theorem read_written_sample : sample.WellFormed ∧
    read (sample.bytes ++ [0xCA, 0xFE]) = .ok sample.classFile ∧
    sample.classFile.methods.map (fun m => (m.code.map CodeBody.lines, m.exceptions)) =
      [(some [⟨0, 10⟩, ⟨1, 11⟩, ⟨1, 0xFFFF⟩], [7, 0]), (none, [])] ∧
    sample.classFile.pool.size = 16 := by
  have hwell : sample.WellFormed := by decide +kernel
  exact ⟨hwell, read_written hwell [0xCA, 0xFE], by decide +kernel, rfl⟩

end ClassFiles

end ClassFile

end ClassLinker
