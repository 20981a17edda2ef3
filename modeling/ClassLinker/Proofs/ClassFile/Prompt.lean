import Mathlib.Tactic.Common
import ClassLinker.ClassFile.Read

/-! What the readers of class files take. A reader reads some bytes as a value if it takes them off
the front of every input that starts with them. The readers of a class file are prompt: whenever one
succeeds, it has read what it took, so what comes after that has no say in the result and nothing
less would have done. -/

namespace ClassLinker.ClassFile

/-- States of a reader with bytes taken between them. -/
class Consuming (σ : Type) where
  consumes : Bytes → σ → σ → Prop
  eq_of_nil : ∀ {s t}, consumes [] s t → s = t
  split : ∀ {xs ys s u}, consumes (xs ++ ys) s u → ∃ t, consumes xs s t ∧ consumes ys t u

open Consuming

instance : Consuming Bytes where
  consumes bytes input rest := input = bytes ++ rest
  eq_of_nil h := h
  split {xs ys s u} h := ⟨ys ++ u, by rw [h, List.append_assoc], rfl⟩

instance : Consuming Body where
  consumes bytes b b' := b.rest = bytes ++ b'.rest ∧ b'.offset = b.offset + bytes.length
  eq_of_nil {b b'} h := by
    obtain ⟨offset, rest⟩ := b
    obtain ⟨offset', rest'⟩ := b'
    simpa [eq_comm, and_comm] using h
  split {xs ys b b'} h := by
    refine ⟨⟨b.offset + xs.length, ys ++ b'.rest⟩, ⟨?_, rfl⟩, rfl, ?_⟩
    · rw [h.1, List.append_assoc]
    · rw [h.2, List.length_append, Nat.add_assoc]

section Reads

variable {σ α β ι : Type} [Consuming σ] {x : StateT σ (Except ClassFileError) α}
  {f : α → StateT σ (Except ClassFileError) β} {xs ys : Bytes} {a : α} {b : β}

/-- A reader takes some bytes off the front of every input that starts with them, and gives a value
for them. -/
def Reads (x : StateT σ (Except ClassFileError) α) (bytes : Bytes) (a : α) : Prop :=
  ∀ s t, consumes bytes s t → x s = .ok (a, t)

omit [Consuming σ] in
theorem bind_of_ok {s t : σ} (h : x s = .ok (a, t)) : (x >>= f) s = f a t := by
  show (x s >>= fun p => f p.1 p.2) = f a t
  rw [h]
  rfl

theorem Reads.pure (a : α) : Reads (pure a : StateT σ (Except ClassFileError) α) [] a := by
  intro s t h
  rw [eq_of_nil h]
  rfl

theorem Reads.bind (hx : Reads x xs a) (hf : Reads (f a) ys b) : Reads (x >>= f) (xs ++ ys) b := by
  intro s u h
  obtain ⟨t, hfirst, hsecond⟩ := split h
  rw [bind_of_ok (hx s t hfirst)]
  exact hf t u hsecond

/-- What follows takes nothing. -/
theorem Reads.bind_nil (hx : Reads x xs a) (hf : Reads (f a) [] b) : Reads (x >>= f) xs b := by
  have h := hx.bind hf
  rwa [List.append_nil] at h

/-- What comes before takes nothing. -/
theorem Reads.nil_bind (hx : Reads x [] a) (hf : Reads (f a) ys b) : Reads (x >>= f) ys b :=
  hx.bind hf

theorem Reads.map (hx : Reads x xs a) (g : α → β) :
    Reads (x >>= fun a => Pure.pure (g a)) xs (g a) :=
  hx.bind_nil (.pure (g a))

theorem Reads.locate (hx : Reads x xs a) (place : Place) : Reads (locate place x) xs a := by
  intro s t h
  rw [ClassFile.locate, hx s t h]
  rfl

theorem Reads.liftM {result : Except ClassFileError α} (h : result = .ok a) :
    Reads (liftM result : StateT σ (Except ClassFileError) α) [] a := by
  intro s t hst
  rw [eq_of_nil hst, h]
  rfl

theorem Reads.lookupText {pool : ConstantPool} {index : UInt16} {text : Text}
    (h : pool.utf8 index = .ok text) (place : Place) :
    Reads (lookupText pool place index : StateT σ (Except ClassFileError) Text) [] text := by
  intro s t hst
  rw [eq_of_nil hst, ClassFile.lookupText, ClassFile.locate, h]
  rfl

/-- Items one after the other, each with its bytes. -/
theorem Reads.readMany {step : Nat → StateT σ (Except ClassFileError) α} {items : List ι}
    {bytes : ι → Bytes} {value : ι → α}
    (h : ∀ item ∈ items, ∀ i, Reads (step i) (bytes item) (value item)) (i : Nat) :
    Reads (readMany step items.length i) (items.flatMap bytes) (items.map value) := by
  induction items generalizing i with
  | nil => exact .pure []
  | cons item items ih =>
      rw [List.flatMap_cons, List.map_cons]
      refine (h item List.mem_cons_self i).bind ?_
      exact (ih (fun other hother => h other (List.mem_cons_of_mem _ hother)) (i + 1)).map _

end Reads

/-! ### Prompt readers -/

section Prompt

variable {α β : Type} {x : Reader α} {f : α → Reader β}

/-- What a reader took when it succeeded, it reads. -/
def Prompt (x : Reader α) : Prop :=
  ∀ input a rest, x input = .ok (a, rest) → ∃ bytes, input = bytes ++ rest ∧ Reads x bytes a

theorem exists_of_bind {input rest : Bytes} {b : β} (h : (x >>= f) input = .ok (b, rest)) :
    ∃ a mid, x input = .ok (a, mid) ∧ f a mid = .ok (b, rest) := by
  cases hx : x input with
  | error e =>
      replace h : (x input >>= fun p => f p.1 p.2) = .ok (b, rest) := h
      rw [hx] at h
      cases h
  | ok p =>
      refine ⟨p.1, p.2, rfl, ?_⟩
      rwa [bind_of_ok (a := p.1) (t := p.2) hx] at h

theorem Prompt.pure (a : α) : Prompt (pure a : Reader α) := by
  intro input b rest h
  cases h
  exact ⟨[], rfl, .pure a⟩

theorem Prompt.throw (e : ClassFileError) : Prompt (throw e : Reader α) := by
  intro input a rest h
  cases h

theorem Prompt.throw_bind (e : ClassFileError) (f : α → Reader β) :
    Prompt ((MonadExcept.throw e : Reader α) >>= f) := by
  intro input b rest h
  cases h

theorem Prompt.bind (hx : Prompt x) (hf : ∀ a, Prompt (f a)) : Prompt (x >>= f) := by
  intro input b rest h
  obtain ⟨a, mid, hfirst, hsecond⟩ := exists_of_bind h
  obtain ⟨xs, rfl, hreads⟩ := hx input a mid hfirst
  obtain ⟨ys, rfl, hreads'⟩ := hf a mid b rest hsecond
  exact ⟨xs ++ ys, (List.append_assoc xs ys rest).symm, hreads.bind hreads'⟩

theorem of_locate {place : Place} {input rest : Bytes} {a : α}
    (h : locate place x input = .ok (a, rest)) : x input = .ok (a, rest) := by
  unfold locate at h
  cases hx : x input with
  | error e => rw [hx] at h; cases h
  | ok p => rw [hx] at h; cases h; rfl

theorem Prompt.locate (hx : Prompt x) (place : Place) : Prompt (locate place x) := by
  intro input a rest h
  obtain ⟨bytes, hbytes, hreads⟩ := hx input a rest (of_locate h)
  exact ⟨bytes, hbytes, hreads.locate place⟩

/-- What takes nothing and does not look at the input is prompt. -/
theorem Prompt.liftM (result : Except ClassFileError α) : Prompt (liftM result : Reader α) := by
  intro input a rest h
  cases hresult : result with
  | error e => rw [hresult] at h; cases h
  | ok b =>
      rw [hresult] at h
      cases h
      exact ⟨[], rfl, .liftM rfl⟩

theorem Prompt.lookupText (pool : ConstantPool) (place : Place) (index : UInt16) :
    Prompt (lookupText pool place index : Reader Text) := by
  intro input a rest h
  cases htext : pool.utf8 index with
  | error e =>
      rw [ClassFile.lookupText, ClassFile.locate, htext] at h
      cases h
  | ok text =>
      have hreads := Reads.lookupText (σ := Bytes) htext place
      rw [hreads input input rfl] at h
      cases h
      exact ⟨[], rfl, hreads⟩

theorem Prompt.readMany {step : Nat → Reader α} (h : ∀ i, Prompt (step i)) (n i : Nat) :
    Prompt (readMany step n i) := by
  induction n generalizing i with
  | zero => exact .pure []
  | succ n ih => exact (h i).bind fun a => (ih (i + 1)).bind fun as => .pure (a :: as)

/-- An input that stops short of what a reader took is refused. -/
theorem Prompt.refuses {bytes cut more : Bytes} {a : α} (hx : Prompt x) (h : Reads x bytes a)
    (hcut : bytes = cut ++ more) (hmore : more ≠ []) : ∃ e, x cut = .error e := by
  cases hok : x cut with
  | error e => exact ⟨e, rfl⟩
  | ok p =>
      obtain ⟨taken, htaken, hreads⟩ := hx cut p.1 p.2 hok
      -- What was taken of the short input is taken of the long one, and something is left of it.
      have hleft := hreads bytes (p.2 ++ more) (by rw [hcut, htaken, List.append_assoc]; rfl)
      rw [h bytes [] (List.append_nil bytes).symm] at hleft
      have hnil : p.2 ++ more = [] := by
        injection hleft with hleft
        exact (congrArg Prod.snd hleft).symm
      exact absurd (List.append_eq_nil_iff.mp hnil).2 hmore

end Prompt

/-! ### The items of a class file -/

theorem reads_takeBytes (bytes : Bytes) : Reads (takeBytes bytes.length) bytes bytes := by
  intro input rest h
  cases h
  simp [takeBytes]

theorem of_takeBytes {n : Nat} {input taken rest : Bytes}
    (h : takeBytes n input = .ok (taken, rest)) : input = taken ++ rest ∧ taken.length = n := by
  unfold takeBytes at h
  dsimp only at h
  split at h
  case isTrue hlength =>
      cases h
      exact ⟨(List.take_append_drop n input).symm, hlength⟩
  case isFalse => split at h <;> cases h

theorem prompt_takeBytes (n : Nat) : Prompt (takeBytes n) := by
  intro input taken rest h
  obtain ⟨hsplit, rfl⟩ := of_takeBytes h
  exact ⟨taken, hsplit, reads_takeBytes taken⟩

theorem prompt_takeU1 : Prompt takeU1 := (prompt_takeBytes 1).bind fun _ => .pure _

theorem prompt_takeU2 : Prompt takeU2 := (prompt_takeBytes 2).bind fun _ => .pure _

theorem prompt_takeU4 : Prompt takeU4 := (prompt_takeBytes 4).bind fun _ => .pure _

theorem prompt_takeU8 : Prompt takeU8 := (prompt_takeBytes 8).bind fun _ => .pure _

theorem prompt_takeMember (tag : MemberTag) : Prompt (takeMember tag) :=
  prompt_takeU2.bind fun _ => prompt_takeU2.bind fun _ => .pure _

theorem prompt_skipBody (n : Nat) (c : Constant) : Prompt (skipBody n c) := by
  have hdiscard : Prompt (discard (takeBytes n)) :=
    (prompt_takeBytes n).bind fun _ => .pure PUnit.unit
  exact hdiscard.bind fun _ => .pure c

theorem prompt_constantReader {tag : UInt8} {reader : Reader Constant}
    (h : constantReader? tag = some reader) : Prompt reader := by
  unfold constantReader? at h
  split at h <;> cases h
  · exact prompt_takeU2.bind fun n => (prompt_takeBytes _).bind fun _ => .pure _
  · exact prompt_takeU4.bind fun _ => .pure _
  · exact prompt_takeU4.bind fun _ => .pure _
  · exact prompt_takeU8.bind fun _ => .pure _
  · exact prompt_takeU8.bind fun _ => .pure _
  · exact prompt_takeU2.bind fun _ => .pure _
  · exact prompt_takeU2.bind fun _ => .pure _
  · exact prompt_takeMember _
  · exact prompt_takeMember _
  · exact prompt_takeMember _
  · exact prompt_takeU2.bind fun _ => prompt_takeU2.bind fun _ => .pure _
  all_goals exact prompt_skipBody _ _

theorem prompt_takeConstant (i : UInt16) : Prompt (takeConstant i) := by
  refine (prompt_takeU1.locate _).bind fun tag => ?_
  cases hreader : constantReader? tag with
  | none => exact .throw _
  | some reader => exact (prompt_constantReader hreader).locate _

/-- An entry of the pool takes a byte. -/
theorem Reads.takeConstant_ne_nil {i : UInt16} {bytes : Bytes} {c : Constant}
    (h : Reads (takeConstant i) bytes c) : bytes ≠ [] := by
  rintro rfl
  have hnil : takeConstant i [] = .ok (c, []) := h [] [] rfl
  cases hnil

/-- Filling the pool takes the bytes of its entries, and all fuel above their number is enough. -/
theorem exists_of_takePool {count : UInt16} {fuel : Nat} {i : UInt16} {pool pool' : ConstantPool}
    {input rest : Bytes} (h : takePool count fuel i pool input = .ok (pool', rest)) :
    ∃ bytes, input = bytes ++ rest ∧ ∀ fuel', bytes.length < fuel' →
      Reads (takePool count fuel' i pool) bytes pool' := by
  induction fuel generalizing i pool input with
  | zero => cases h
  | succ fuel ih =>
      unfold takePool at h
      split at h
      case isTrue hlt =>
          obtain ⟨c, mid, hfirst, hrest⟩ := exists_of_bind h
          obtain ⟨xs, rfl, hreads⟩ := prompt_takeConstant i _ _ _ hfirst
          obtain ⟨ys, rfl, hall⟩ := ih hrest
          refine ⟨xs ++ ys, (List.append_assoc xs ys rest).symm, fun fuel' hfuel => ?_⟩
          have hpos := List.length_pos_iff.mpr hreads.takeConstant_ne_nil
          rw [List.length_append] at hfuel
          obtain ⟨fuel', rfl⟩ : ∃ n, fuel' = n + 1 := ⟨fuel' - 1, by omega⟩
          rw [takePool, if_pos hlt]
          exact hreads.bind (hall fuel' (by omega))
      case isFalse hge =>
          cases h
          refine ⟨[], rfl, fun fuel' hfuel => ?_⟩
          obtain ⟨fuel', rfl⟩ : ∃ n, fuel' = n + 1 := ⟨fuel' - 1, by omega⟩
          rw [takePool, if_neg hge]
          exact .pure pool'

theorem prompt_takeWholePool (count : UInt16) : Prompt (takeWholePool count) := by
  intro input pool rest h
  replace h : takePool count (input.length + 1) 1 (Array.replicate count.toNat none) input =
    .ok (pool, rest) := h
  obtain ⟨bytes, hbytes, hreads⟩ := exists_of_takePool h
  refine ⟨bytes, hbytes, fun input' rest' hinput => ?_⟩
  refine hreads (input'.length + 1) ?_ input' rest' hinput
  rw [show input' = bytes ++ rest' from hinput, List.length_append]
  omega

theorem prompt_takeAttribute (pool : ConstantPool) (i : Nat) : Prompt (takeAttribute pool i) := by
  refine Prompt.bind (.locate ?_ _) fun (nameIndex, data) => ?_
  · exact prompt_takeU2.bind fun _ => prompt_takeU4.bind fun _ =>
      (prompt_takeBytes _).bind fun _ => .pure _
  · exact (Prompt.lookupText _ _ _).bind fun _ => .pure _

theorem prompt_takeCounted (countPlace : Place) {step : Nat → Reader α} (h : ∀ i, Prompt (step i)) :
    Prompt (takeCounted countPlace step) :=
  (prompt_takeU2.locate countPlace).bind fun _ => .readMany h _ _

theorem prompt_takeAttributes (pool : ConstantPool) : Prompt (takeAttributes pool) :=
  prompt_takeCounted .attributeCount (prompt_takeAttribute pool)

theorem prompt_takeHeader (pool : ConstantPool) (self name descriptor : Place) :
    Prompt (takeHeader pool self name descriptor) := by
  refine Prompt.bind (.locate ?_ _) fun (flags, nameIndex, descriptorIndex) => ?_
  · exact prompt_takeU2.bind fun _ => prompt_takeU2.bind fun _ => prompt_takeU2.bind fun _ => .pure _
  · exact (Prompt.lookupText _ _ _).bind fun _ => (Prompt.lookupText _ _ _).bind fun _ => .pure _

theorem prompt_takeField (pool : ConstantPool) (i : Nat) : Prompt (takeField pool i) :=
  (prompt_takeHeader _ _ _ _).bind fun _ =>
    ((prompt_takeAttributes pool).locate _).bind fun _ => .pure _

theorem prompt_takeMethod (pool : ConstantPool) (i : Nat) : Prompt (takeMethod pool i) :=
  (prompt_takeHeader _ _ _ _).bind fun _ =>
    ((prompt_takeAttributes pool).locate _).bind fun _ => .liftM _

theorem prompt_takeClassHeader : Prompt takeClassHeader :=
  prompt_takeU2.bind fun _ => prompt_takeU2.bind fun _ => prompt_takeU2.bind fun _ =>
    prompt_takeU2.bind fun _ => (Prompt.readMany (fun _ => prompt_takeU2) _ _).bind fun _ => .pure _

theorem prompt_take : Prompt take := by
  refine (prompt_takeU4.locate _).bind fun magic => ?_
  dsimp only
  split
  · exact .throw_bind _ _
  refine Prompt.bind (.locate ?_ _) fun (minor, major, count) => ?_
  · exact prompt_takeU2.bind fun _ => prompt_takeU2.bind fun _ => prompt_takeU2.bind fun _ => .pure _
  refine ((prompt_takeWholePool count).locate _).bind fun pool => ?_
  refine (prompt_takeClassHeader.locate _).bind fun header => ?_
  refine ((prompt_takeCounted _ (prompt_takeField pool)).locate _).bind fun fields => ?_
  refine ((prompt_takeCounted _ (prompt_takeMethod pool)).locate _).bind fun methods => ?_
  exact ((prompt_takeAttributes pool).locate _).bind fun _ => .pure _

/-- Whatever class file is read ends somewhere in the input: every input that stops before is
refused, and whatever comes after does not matter. -/
theorem read_prompt {data : Bytes} {cf : ClassFile} (hread : read data = .ok cf) :
    ∃ n ≤ data.length, (∀ k < n, ∃ e, read (data.take k) = .error e) ∧
      ∀ rest, read (data.take n ++ rest) = .ok cf := by
  unfold read at hread
  cases hok : take data with
  | error e => rw [hok] at hread; cases hread
  | ok p =>
      obtain ⟨cf', rest⟩ := p
      rw [hok] at hread
      cases hread
      obtain ⟨bytes, rfl, hreads⟩ := prompt_take data cf' rest hok
      refine ⟨bytes.length, by simp, fun k hk => ?_, fun rest' => ?_⟩
      · have hcut : bytes = bytes.take k ++ bytes.drop k := (List.take_append_drop k bytes).symm
        have hmore : bytes.drop k ≠ [] := by simpa using hk
        obtain ⟨e, he⟩ := prompt_take.refuses hreads hcut hmore
        refine ⟨e, ?_⟩
        rw [List.take_append_of_le_length (by omega), read, he]
        rfl
      · rw [List.take_left, read, hreads (bytes ++ rest') rest' rfl]
        rfl

/-- The bytes of a class with a wide constant and a method with code, and three more bytes. -/
def padded : Bytes :=
  [0xCA, 0xFE, 0xBA, 0xBE, 0, 0, 0, 52, 0, 7,
    1, 0, 1, 0x41, 7, 0, 1, 5, 0, 0, 0, 0, 0, 0, 0, 9, 1, 0, 4, 0x43, 0x6F, 0x64, 0x65,
    1, 0, 3, 0x28, 0x29, 0x56,
    0, 0x21, 0, 2, 0, 0, 0, 0, 0, 0,
    0, 1, 0, 9, 0, 1, 0, 6, 0, 1, 0, 5, 0, 0, 0, 13, 0, 0, 0, 1, 0, 0, 0, 1, 0xB1, 0, 0, 0, 0,
    0, 0, 1, 2, 3]

/-- The class is read, and it ends before the three bytes. -/
theorem read_prompt_padded : ∃ cf, read padded = .ok cf ∧ cf.pool.size = 7 ∧
    ∃ n ≤ padded.length, (∀ k < n, ∃ e, read (padded.take k) = .error e) ∧
      ∀ rest, read (padded.take n ++ rest) = .ok cf := by
  have hread : read padded = .ok {
      minor := 0, major := 52, flags := 0x21, thisClass := 2, superClass := 0, interfaces := []
      pool := #[none, some (.utf8 "A"), some (.classRef 1), some (.long 9), none,
        some (.utf8 "Code"), some (.utf8 "()V")]
      fields := []
      methods := [{
        flags := 9, name := "A", descriptor := "()V", exceptions := []
        attributes := [⟨"Code", [0, 0, 0, 1, 0, 0, 0, 1, 0xB1, 0, 0, 0, 0]⟩]
        code := some ⟨0, 1, [0xB1], [], []⟩ }] } := by
    decide +kernel
  exact ⟨_, hread, rfl, read_prompt hread⟩

end ClassLinker.ClassFile
