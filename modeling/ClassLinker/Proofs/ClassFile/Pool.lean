import ClassLinker.Proofs.ClassFile.ReadBack

/-! The shape of the pool. The entries are read one after the other, each from its own bytes, and
fill the slots from the second on; the slot after a wide entry is passed over. Slots are counted in 16
bits, so a wide entry in the last slot of the largest pool takes the count back to the first slot, and
from there on the pool is filled over again. -/

namespace ClassLinker

theorem bigEndian_lt (bs : Bytes) : bigEndian bs < 256 ^ bs.length := by
  induction bs with
  | nil => exact Nat.one_pos
  | cons b bs ih =>
      have hmul := Nat.mul_le_mul_right (256 ^ bs.length) (show b.toNat + 1 ≤ 256 from b.toNat_lt)
      rw [Nat.add_mul] at hmul
      rw [bigEndian_cons, List.length_cons, Nat.pow_succ]
      omega

/-- Bytes of one length are told apart by their number. -/
theorem bigEndian_inj {xs ys : Bytes} (hlength : xs.length = ys.length)
    (h : bigEndian xs = bigEndian ys) : xs = ys := by
  induction xs generalizing ys with
  | nil => exact (List.length_eq_zero_iff.mp hlength.symm).symm
  | cons x xs ih =>
      cases ys with
      | nil => cases hlength
      | cons y ys =>
          have hrest : xs.length = ys.length := Nat.succ.inj hlength
          have hx := bigEndian_lt xs
          have hy := bigEndian_lt ys
          rw [bigEndian_cons, bigEndian_cons, hrest] at h
          rw [hrest] at hx
          have hpos : 0 < 256 ^ ys.length := Nat.pow_pos (by decide)
          have hhead : x.toNat = y.toNat := by
            have hdiv := congrArg (· / 256 ^ ys.length) h
            simpa only [Nat.add_comm _ (bigEndian _), Nat.add_mul_div_right _ _ hpos,
              Nat.div_eq_of_lt hx, Nat.div_eq_of_lt hy, Nat.zero_add] using hdiv
          rw [hhead] at h
          rw [UInt8.toNat_inj.mp hhead, ih hrest (Nat.add_left_cancel h)]

namespace ClassFile

/-! ### What the readers of the entries take -/

section Taken

variable {α β : Type} {x : Reader α} {input rest : Bytes} {a : α}

theorem exists_of_map {g : α → β} {b : β} (h : (do return g (← x) : Reader β) input = .ok (b, rest)) :
    ∃ a, x input = .ok (a, rest) ∧ b = g a := by
  obtain ⟨a, mid, hfirst, hrest⟩ := exists_of_bind h
  cases hrest
  exact ⟨a, hfirst, rfl⟩

/-- A number is taken from its own bytes. -/
theorem of_takeNumber {width : Nat} {number : Nat → α} (bytes : α → Bytes)
    (hbytes : ∀ taken : Bytes, taken.length = width →
      (bytes (number (bigEndian taken))).length = width ∧
        bigEndian (bytes (number (bigEndian taken))) = bigEndian taken)
    (h : (do return number (bigEndian (← takeBytes width)) : Reader α) input = .ok (a, rest)) :
    input = bytes a ++ rest := by
  obtain ⟨taken, htaken, rfl⟩ := exists_of_map h
  obtain ⟨rfl, hlength⟩ := of_takeBytes htaken
  obtain ⟨hsame, hnumber⟩ := hbytes taken hlength
  rw [bigEndian_inj (hsame.trans hlength.symm) hnumber]

theorem of_takeU1 {b : UInt8} (h : takeU1 input = .ok (b, rest)) : input = b :: rest := by
  refine of_takeNumber (fun b => [b]) (fun taken hlength => ⟨rfl, ?_⟩) h
  have hlt := bigEndian_lt taken
  rw [hlength] at hlt
  rw [show ∀ b : UInt8, bigEndian [b] = b.toNat from fun b => Nat.zero_add _]
  exact UInt8.toNat_ofNat_of_lt' hlt

theorem of_takeU2 {n : UInt16} (h : takeU2 input = .ok (n, rest)) : input = u2 n ++ rest := by
  refine of_takeNumber u2 (fun taken hlength => ⟨rfl, ?_⟩) h
  have hlt := bigEndian_lt taken
  rw [hlength] at hlt
  rw [u2, bigEndian_twoBytes (UInt16.toNat_lt _)]
  exact UInt16.toNat_ofNat_of_lt' hlt

theorem of_takeU4 {n : UInt32} (h : takeU4 input = .ok (n, rest)) :
    input = fourBytes n.toNat ++ rest := by
  refine of_takeNumber (fun n : UInt32 => fourBytes n.toNat)
    (fun taken hlength => ⟨rfl, ?_⟩) h
  have hlt := bigEndian_lt taken
  rw [hlength] at hlt
  rw [bigEndian_fourBytes _ (UInt32.toNat_lt _)]
  exact UInt32.toNat_ofNat_of_lt' hlt

theorem of_takeU8 {n : UInt64} (h : takeU8 input = .ok (n, rest)) :
    input = eightBytes n.toNat ++ rest := by
  refine of_takeNumber (fun n : UInt64 => eightBytes n.toNat)
    (fun taken hlength => ⟨rfl, ?_⟩) h
  have hlt := bigEndian_lt taken
  rw [hlength] at hlt
  rw [bigEndian_eightBytes]
  exact UInt64.toNat_ofNat_of_lt' hlt

theorem exists_u2 (bytes : Bytes) (hlength : bytes.length = 2) : ∃ n, bytes = u2 n := by
  have hlt := bigEndian_lt bytes
  rw [hlength] at hlt
  refine ⟨(bigEndian bytes).toUInt16, bigEndian_inj hlength ?_⟩
  rw [u2, bigEndian_twoBytes (UInt16.toNat_lt _)]
  exact (UInt16.toNat_ofNat_of_lt' hlt).symm

theorem of_takeMember {tag : MemberTag} {c : Constant} (h : takeMember tag input = .ok (c, rest)) :
    ∃ i j, c = .member tag i j ∧ input = u2 i ++ u2 j ++ rest := by
  obtain ⟨i, mid, hi, hrest⟩ := exists_of_bind h
  obtain ⟨j, hj, rfl⟩ := exists_of_map hrest
  obtain rfl := of_takeU2 hi
  obtain rfl := of_takeU2 hj
  exact ⟨i, j, rfl, (List.append_assoc _ _ _).symm⟩

theorem of_skipBody {n : Nat} {c c' : Constant} (h : skipBody n c input = .ok (c', rest)) :
    c' = c ∧ ∃ bytes, input = bytes ++ rest ∧ bytes.length = n := by
  obtain ⟨_, mid, hskip, hrest⟩ := exists_of_bind h
  cases hrest
  obtain ⟨bytes, htaken, -⟩ := exists_of_map hskip
  exact ⟨rfl, bytes, of_takeBytes htaken⟩

/-- The body of an entry is read from what was written for the entry. -/
theorem exists_written {tag : UInt8} {reader : Reader Constant} {c : Constant}
    (hreader : constantReader? tag = some reader) (h : reader input = .ok (c, rest)) :
    ∃ w : WrittenConstant, w.tag = tag ∧ w.Fits ∧ w.constant = c ∧ input = w.body ++ rest := by
  unfold constantReader? at hreader
  split at hreader <;> cases hreader
  case h_1 =>
    obtain ⟨n, mid, hlength, htext⟩ := exists_of_bind h
    obtain ⟨text, htaken, rfl⟩ := exists_of_map htext
    obtain rfl := of_takeU2 hlength
    obtain ⟨rfl, hsize⟩ := of_takeBytes htaken
    have hfits : text.length < 0x10000 := hsize ▸ n.toNat_lt
    refine ⟨.utf8 text, rfl, hfits, rfl, ?_⟩
    rw [WrittenConstant.body, hsize, List.append_assoc]
    rfl
  case h_2 =>
    obtain ⟨bits, hbits, rfl⟩ := exists_of_map h
    exact ⟨.integer bits, rfl, trivial, rfl, of_takeU4 hbits⟩
  case h_3 =>
    obtain ⟨bits, hbits, rfl⟩ := exists_of_map h
    exact ⟨.float bits, rfl, trivial, rfl, of_takeU4 hbits⟩
  case h_4 =>
    obtain ⟨bits, hbits, rfl⟩ := exists_of_map h
    exact ⟨.long bits, rfl, trivial, rfl, of_takeU8 hbits⟩
  case h_5 =>
    obtain ⟨bits, hbits, rfl⟩ := exists_of_map h
    exact ⟨.double bits, rfl, trivial, rfl, of_takeU8 hbits⟩
  case h_6 =>
    obtain ⟨i, hi, rfl⟩ := exists_of_map h
    exact ⟨.classRef i, rfl, trivial, rfl, of_takeU2 hi⟩
  case h_7 =>
    obtain ⟨i, hi, rfl⟩ := exists_of_map h
    exact ⟨.string i, rfl, trivial, rfl, of_takeU2 hi⟩
  case h_8 =>
    obtain ⟨i, j, rfl, hinput⟩ := of_takeMember h
    exact ⟨.member .field i j, rfl, trivial, rfl, hinput⟩
  case h_9 =>
    obtain ⟨i, j, rfl, hinput⟩ := of_takeMember h
    exact ⟨.member .method i j, rfl, trivial, rfl, hinput⟩
  case h_10 =>
    obtain ⟨i, j, rfl, hinput⟩ := of_takeMember h
    exact ⟨.member .interfaceMethod i j, rfl, trivial, rfl, hinput⟩
  case h_11 =>
    obtain ⟨i, mid, hi, hrest⟩ := exists_of_bind h
    obtain ⟨j, hj, rfl⟩ := exists_of_map hrest
    obtain rfl := of_takeU2 hi
    obtain rfl := of_takeU2 hj
    exact ⟨.nameAndType i j, rfl, trivial, rfl, (List.append_assoc _ _ _).symm⟩
  case h_12 =>
    obtain ⟨rfl, bytes, rfl, hlength⟩ := of_skipBody h
    obtain ⟨kind, reference, rfl⟩ := List.exists_of_length_succ bytes hlength
    obtain ⟨i, rfl⟩ := exists_u2 reference (Nat.succ.inj hlength)
    exact ⟨.methodHandle kind i, rfl, trivial, rfl, rfl⟩
  case h_13 =>
    obtain ⟨rfl, bytes, rfl, hlength⟩ := of_skipBody h
    obtain ⟨i, rfl⟩ := exists_u2 bytes hlength
    exact ⟨.methodType i, rfl, trivial, rfl, rfl⟩
  all_goals
    obtain ⟨rfl, bytes, rfl, hlength⟩ := of_skipBody h
    obtain ⟨i, hi⟩ := exists_u2 (bytes.take 2) (by rw [List.length_take, hlength]; rfl)
    obtain ⟨j, hj⟩ := exists_u2 (bytes.drop 2) (by rw [List.length_drop, hlength])
    rw [← List.take_append_drop 2 bytes, hi, hj]
  case h_14 => exact ⟨.dynamic i j, rfl, trivial, rfl, rfl⟩
  case h_15 => exact ⟨.invokeDynamic i j, rfl, trivial, rfl, rfl⟩

/-- An entry is read from the bytes that are written for it. -/
theorem of_takeConstant {i : UInt16} {c : Constant} (h : takeConstant i input = .ok (c, rest)) :
    ∃ w : WrittenConstant, w.Fits ∧ w.constant = c ∧ input = w.bytes ++ rest := by
  obtain ⟨tag, mid, htag, hbody⟩ := exists_of_bind h
  obtain rfl := of_takeU1 (of_locate htag)
  cases hreader : constantReader? tag with
  | none => rw [hreader] at hbody; cases hbody
  | some reader =>
      rw [hreader] at hbody
      obtain ⟨w, rfl, hfits, hconstant, rfl⟩ := exists_written hreader (of_locate hbody)
      exact ⟨w, hfits, hconstant, rfl⟩

end Taken

/-! ### The slots that are filled -/

/-- The slots that an entry takes. -/
def WrittenConstant.width (w : WrittenConstant) : Nat := if w.isWide then 2 else 1

/-- The slots that some entries take. -/
def slotCount (entries : List WrittenConstant) : Nat := total (entries.map WrittenConstant.width)

/-- Slots that hold some entries in order. The slot after a wide entry holds nothing, and is missing
where the slots end. -/
inductive Occupied : List (Option Constant) → List Constant → Prop
  | nil : Occupied [] []
  | narrow {c : Constant} {slots : List (Option Constant)} {cs : List Constant}
      (hnarrow : c.isWide = false) (hrest : Occupied slots cs) : Occupied (some c :: slots) (c :: cs)
  | wide {c : Constant} {slots : List (Option Constant)} {cs : List Constant}
      (hwide : c.isWide = true) (hrest : Occupied slots cs) :
      Occupied (some c :: none :: slots) (c :: cs)
  | last {c : Constant} (hwide : c.isWide = true) : Occupied [some c] [c]

namespace Occupied

variable {slots : List (Option Constant)} {cs : List Constant}

theorem filterMap_eq (h : Occupied slots cs) : slots.filterMap id = cs := by
  induction h with
  | nil => rfl
  | narrow _ _ ih => exact congrArg _ ih
  | wide _ _ ih => exact congrArg _ ih
  | last _ => rfl

theorem after_wide (h : Occupied slots cs) {i : Nat} {c : Constant} (hi : slots[i]? = some (some c))
    (hwide : c.isWide = true) : ∀ slot ∈ slots[i + 1]?, slot = none := by
  induction h generalizing i with
  | nil => cases hi
  | @narrow c' slots cs hnarrow _ ih =>
      cases i with
      | zero =>
          cases hi
          rw [hnarrow] at hwide
          cases hwide
      | succ i => exact ih hi
  | wide _ _ ih =>
      rcases i with - | - | i
      · intro slot hslot
        cases hslot
        rfl
      · cases hi
      · exact ih hi
  | last _ => exact nofun

/-- A slot holds nothing only after a wide entry. -/
theorem before_empty (h : Occupied slots cs) {i : Nat} (hi : slots[i]? = some none) :
    ∃ j c, i = j + 1 ∧ slots[j]? = some (some c) ∧ c.isWide = true := by
  induction h generalizing i with
  | nil => cases hi
  | narrow _ _ ih =>
      cases i with
      | zero => cases hi
      | succ i =>
          obtain ⟨j, c, rfl, hj, hwide⟩ := ih hi
          exact ⟨j + 1, c, rfl, hj, hwide⟩
  | @wide c' slots cs hwide _ ih =>
      rcases i with - | - | i
      · cases hi
      · exact ⟨0, c', rfl, rfl, hwide⟩
      · obtain ⟨j, c, rfl, hj, hwide⟩ := ih hi
        exact ⟨j + 2, c, rfl, hj, hwide⟩
  | last _ => rcases i with - | i <;> cases hi

end Occupied

/-- A pool of which the first slot and those after wide entries hold nothing, and all others hold the
given entries in order. -/
structure PoolShape (pool : ConstantPool) (entries : List Constant) : Prop where
  first : ∀ slot ∈ pool[0]?, slot = none
  after_wide : ∀ {i c}, pool[i]? = some (some c) → c.isWide = true →
    ∀ slot ∈ pool[i + 1]?, slot = none
  filled : ∀ {i}, 0 < i → i < pool.size → (∃ c, pool[i]? = some (some c)) ∨
    ∃ j c, i = j + 1 ∧ pool[j]? = some (some c) ∧ c.isWide = true
  entries_eq : pool.toList.filterMap id = entries

theorem Occupied.poolShape {pool : ConstantPool} {slots : List (Option Constant)}
    {cs : List Constant} (h : Occupied slots cs) (hpool : pool.toList = none :: slots) :
    PoolShape pool cs := by
  have hget : ∀ i, pool[i]? = (none :: slots)[i]? := fun i => by rw [← hpool, Array.getElem?_toList]
  refine ⟨fun slot hslot => ?_, fun {i c} hi hwide => ?_, fun {i} hpos hlt => ?_, ?_⟩
  · rw [hget] at hslot
    cases hslot
    rfl
  · rw [hget] at hi ⊢
    cases i with
    | zero => cases hi
    | succ i => exact h.after_wide hi hwide
  · obtain ⟨i, rfl⟩ := Nat.exists_eq_add_one.mpr hpos
    rw [← Array.length_toList, hpool] at hlt
    cases hslot : (none :: slots)[i + 1]? with
    | none => exact absurd (List.getElem?_eq_none_iff.mp hslot) (Nat.not_le_of_lt hlt)
    | some slot =>
        rw [hget, hslot]
        cases slot with
        | some c => exact .inl ⟨c, rfl⟩
        | none =>
            obtain ⟨j, c, rfl, hj, hwide⟩ := h.before_empty (i := i) hslot
            exact .inr ⟨j + 1, c, rfl, by rw [hget]; exact hj, hwide⟩
  · rw [hpool, List.filterMap_cons_none rfl, h.filterMap_eq]

/-- Of entries that fill the largest pool from a slot on, a wide one comes into its last slot. -/
def Wraps (start : Nat) (count : UInt16) (entries : List WrittenConstant) : Prop :=
  count = 65535 ∧ ∃ before w after, entries = before ++ w :: after ∧ w.isWide = true ∧
    start + slotCount before = 65534

theorem slotCount_cons (w : WrittenConstant) (ws : List WrittenConstant) :
    slotCount (w :: ws) = w.width + slotCount ws := rfl

theorem slotCount_append (ws ws' : List WrittenConstant) :
    slotCount (ws ++ ws') = slotCount ws + slotCount ws' := by
  rw [slotCount, List.map_append, total_append]
  rfl

theorem Wraps.cons {start : Nat} {count : UInt16} {w : WrittenConstant} {ws : List WrittenConstant}
    (h : Wraps (start + w.width) count ws) : Wraps start count (w :: ws) := by
  obtain ⟨hcount, before, w', after, rfl, hwide, hslot⟩ := h
  refine ⟨hcount, w :: before, w', after, rfl, hwide, ?_⟩
  rw [slotCount_cons]
  omega

/-- Entries that end in the pool do not wrap. -/
theorem not_wraps {start : Nat} {count : UInt16} {ws : List WrittenConstant}
    (hle : count = 65535 → start + slotCount ws ≤ 65535) : ¬ Wraps start count ws := by
  rintro ⟨hcount, before, w, after, rfl, hwide, hslot⟩
  have hend := hle hcount
  rw [slotCount_append, slotCount_cons, WrittenConstant.width, if_pos hwide] at hend
  omega

/-! ### Filling the pool -/

section Filling

variable {count i : UInt16} {fuel : Nat} {pool pool' : ConstantPool} {input rest : Bytes}

theorem takePool_succ (h : takePool count (fuel + 1) i pool input = .ok (pool', rest)) :
    (i < count ∧ ∃ w : WrittenConstant, w.Fits ∧ ∃ mid, input = w.bytes ++ mid ∧
      takePool count fuel (if w.isWide then i + 2 else i + 1)
        (pool.setIfInBounds i.toNat (some w.constant)) mid = .ok (pool', rest)) ∨
    (¬ i < count ∧ pool' = pool ∧ rest = input) := by
  unfold takePool at h
  split at h
  case isTrue hlt =>
      obtain ⟨c, mid, hfirst, hrest⟩ := exists_of_bind h
      obtain ⟨w, hfits, rfl, rfl⟩ := of_takeConstant hfirst
      rw [isWide_constant] at hrest
      exact .inl ⟨hlt, w, hfits, mid, rfl, hrest⟩
  case isFalse hge =>
      cases h
      exact .inr ⟨hge, rfl, rfl⟩

/-- Wherever filling starts, entries are read one after the other, and a slot that is filled stays
filled. -/
theorem takePool_entries (h : takePool count fuel i pool input = .ok (pool', rest)) :
    (∃ ws : List WrittenConstant, (∀ w ∈ ws, w.Fits) ∧
      input = ws.flatMap WrittenConstant.bytes ++ rest) ∧ pool'.size = pool.size ∧
      ∀ {j : Nat} {c : Constant}, pool[j]? = some (some c) →
        ∃ c' : Constant, pool'[j]? = some (some c') := by
  induction fuel generalizing i pool input with
  | zero => cases h
  | succ fuel ih =>
      rcases takePool_succ h with ⟨-, w, hfits, mid, rfl, hrest⟩ | ⟨-, rfl, rfl⟩
      · obtain ⟨⟨ws, hall, rfl⟩, hsize, hstays⟩ := ih hrest
        refine ⟨⟨w :: ws, List.forall_mem_cons.mpr ⟨hfits, hall⟩, ?_⟩, ?_, fun {j c} hj => ?_⟩
        · rw [List.flatMap_cons, List.append_assoc]
        · rw [hsize, Array.size_setIfInBounds]
        · have hfilled : ∃ c', (pool.setIfInBounds i.toNat (some w.constant))[j]? = some (some c') := by
            rw [Array.getElem?_setIfInBounds]
            split
            · have hlt := (Array.getElem?_eq_some_iff.mp hj).1
              rw [if_pos (by omega)]
              exact ⟨_, rfl⟩
            · exact ⟨c, hj⟩
          exact hstays hfilled.choose_spec
      · exact ⟨⟨[], nofun, rfl⟩, rfl, fun hj => ⟨_, hj⟩⟩

/-- Filling that starts over fills the first slot. -/
theorem first_filled (hcount : 0 < count) (hsize : 0 < pool.size)
    (h : takePool count fuel 0 pool input = .ok (pool', rest)) :
    ∃ c, pool'[0]? = some (some c) := by
  cases fuel with
  | zero => cases h
  | succ fuel =>
      rcases takePool_succ h with ⟨-, w, -, mid, -, hrest⟩ | ⟨hge, -⟩
      · refine (takePool_entries hrest).2.2 (c := w.constant) ?_
        rw [show (0 : UInt16).toNat = 0 from rfl, Array.getElem?_setIfInBounds, if_pos rfl,
          if_pos hsize]
      · exact absurd hcount hge

/-- What filling the pool comes to, from slot `done.length` on: the slots after those that are done hold
the entries, or the count has wrapped and the first slot is filled. -/
def Fill (count : UInt16) (done : List (Option Constant)) (pool : ConstantPool)
    (entries : List WrittenConstant) : Prop :=
  (∃ slots, pool.toList = done ++ slots ∧ Occupied slots (entries.map WrittenConstant.constant) ∧
      (count = 65535 → done.length + slotCount entries ≤ 65535)) ∨
    Wraps done.length count entries ∧ ∃ c : Constant, pool[0]? = some (some c)

/-- An entry that leaves the count in the pool comes before those that follow it. -/
theorem Fill.cons {done own : List (Option Constant)} {w : WrittenConstant}
    {ws : List WrittenConstant} (h : Fill count (done ++ own) pool ws) (hown : own.length = w.width)
    (hoccupied : ∀ {slots cs}, Occupied slots cs → Occupied (own ++ slots) (w.constant :: cs)) :
    Fill count done pool (w :: ws) := by
  unfold Fill at h
  rw [List.length_append, hown] at h
  rcases h with ⟨slots, hpool, hslots, hend⟩ | ⟨hwraps, hfirst⟩
  · refine .inl ⟨own ++ slots, by rw [hpool, List.append_assoc], hoccupied hslots, ?_⟩
    rwa [slotCount_cons, ← Nat.add_assoc]
  · exact .inr ⟨hwraps.cons, hfirst⟩

/-- A wide entry in the last slot. The count steps over the end of the pool, or back to the first
slot. -/
theorem exists_fill_last {done : List (Option Constant)} {w : WrittenConstant}
    (hwide : w.isWide = true) (hi : i.toNat = done.length) (hlast : count.toNat = done.length + 1)
    (h : takePool count fuel (i + 2) (done ++ [some w.constant]).toArray input = .ok (pool, rest)) :
    ∃ ws : List WrittenConstant, (∀ w ∈ ws, w.Fits) ∧
      input = ws.flatMap WrittenConstant.bytes ++ rest ∧ Fill count done pool (w :: ws) := by
  have hlt := count.toNat_lt
  by_cases hcount : count = 65535
  · have hzero : i + 2 = 0 := by
      rw [← UInt16.toNat_inj, UInt16.toNat_add, hi]
      rw [hcount] at hlast
      exact Nat.mod_eq_zero_of_dvd ⟨1, by rw [← Nat.succ.inj hlast]; rfl⟩
    rw [hzero] at h
    obtain ⟨ws, hfits, hinput⟩ := (takePool_entries h).1
    refine ⟨ws, hfits, hinput, .inr ⟨⟨hcount, [], w, ws, rfl, hwide, ?_⟩, first_filled ?_ ?_ h⟩⟩
    · rw [hcount] at hlast
      exact (Nat.succ.inj hlast).symm
    · rw [hcount]
      decide
    · simp
  · have hnext : ¬ i + 2 < count := by
      have hne : count.toNat ≠ 65535 := fun h => hcount (UInt16.toNat_inj.mp h)
      rw [UInt16.lt_iff_toNat_lt, UInt16.toNat_add, hi, hlast]
      rw [show (2 : UInt16).toNat = 2 from rfl, Nat.mod_eq_of_lt] <;> omega
    cases fuel with
    | zero => cases h
    | succ fuel =>
        rcases takePool_succ h with ⟨hlt, -⟩ | ⟨-, rfl, rfl⟩
        · exact absurd hlt hnext
        · refine ⟨[], nofun, rfl, .inl ⟨[some w.constant], rfl, .last ?_, (absurd · hcount)⟩⟩
          rw [isWide_constant, hwide]

/-- Filling the pool from a slot on, with those before it done. -/
theorem takePool_fill {done : List (Option Constant)} (hi : i.toNat = done.length)
    (hle : done.length ≤ count.toNat)
    (h : takePool count fuel i
      (done ++ List.replicate (count.toNat - done.length) none).toArray input = .ok (pool, rest)) :
    ∃ ws : List WrittenConstant, (∀ w ∈ ws, w.Fits) ∧
      input = ws.flatMap WrittenConstant.bytes ++ rest ∧ Fill count done pool ws := by
  have hlt := count.toNat_lt
  induction fuel generalizing done i input with
  | zero => cases h
  | succ fuel ih =>
      rcases takePool_succ h with ⟨hmore, w, hfits, mid, rfl, hrest⟩ | ⟨hge, rfl, rfl⟩
      case inr =>
        rw [UInt16.lt_iff_toNat_lt, hi] at hge
        have hfull : count.toNat - done.length = 0 := by omega
        rw [hfull]
        refine ⟨[], nofun, rfl, .inl ⟨[], rfl, .nil, fun hcount => ?_⟩⟩
        rw [hcount] at hle
        exact hle
      rw [UInt16.lt_iff_toNat_lt, hi] at hmore
      obtain ⟨left, hleft⟩ := Nat.exists_eq_add_one.mpr (Nat.sub_pos_of_lt hmore)
      rw [hleft, List.replicate_succ, hi, setIfInBounds_filled] at hrest
      have hbytes : ∀ ws : List WrittenConstant, w.bytes ++ (ws.flatMap WrittenConstant.bytes ++ rest) =
          (w :: ws).flatMap WrittenConstant.bytes ++ rest := fun ws => by
        rw [List.flatMap_cons, List.append_assoc]
      -- The entries after this one, when it leaves the count in the pool.
      have hstep : ∀ (j : UInt16) (own : List (Option Constant)) (left' : Nat),
          own.length = w.width →
          (∀ {slots cs}, Occupied slots cs → Occupied (own ++ slots) (w.constant :: cs)) →
          j.toNat = done.length + own.length → own.length + left' = left + 1 →
          takePool count fuel j (done ++ (own ++ List.replicate left' none)).toArray mid =
              .ok (pool, rest) →
          ∃ ws : List WrittenConstant, (∀ w ∈ ws, w.Fits) ∧
            w.bytes ++ mid = ws.flatMap WrittenConstant.bytes ++ rest ∧ Fill count done pool ws := by
        intro j own left' hown hoccupied hj hroom hrun
        rw [← List.append_assoc] at hrun
        rw [← List.length_append] at hj
        have hleft' : count.toNat - (done ++ own).length = left' := by
          rw [List.length_append]
          omega
        rw [← hleft'] at hrun
        obtain ⟨ws, hall, rfl, hfill⟩ := ih hj (by rw [List.length_append]; omega) hrun
        exact ⟨w :: ws, List.forall_mem_cons.mpr ⟨hfits, hall⟩, hbytes ws, hfill.cons hown hoccupied⟩
      have hconstant := isWide_constant w
      have hwidth : w.width = if w.isWide then 2 else 1 := rfl
      cases hwide : w.isWide with
      | false =>
          rw [hwide] at hconstant hrest hwidth
          exact hstep (i + 1) [some w.constant] left hwidth.symm (.narrow hconstant)
            (toNat_add_slots hi 1 hmore hlt) (Nat.add_comm _ _) hrest
      | true =>
          rw [hwide] at hconstant hrest hwidth
          cases left with
          | succ left =>
              have hroom : done.length + 2 ≤ count.toNat := by omega
              exact hstep (i + 2) [some w.constant, none] left hwidth.symm (.wide hconstant)
                (toNat_add_slots hi 2 hroom hlt) (Nat.add_comm _ _) hrest
          | zero =>
              obtain ⟨ws, hall, rfl, hfill⟩ := exists_fill_last hwide hi (by omega) hrest
              exact ⟨w :: ws, List.forall_mem_cons.mpr ⟨hfits, hall⟩, hbytes ws, hfill⟩

end Filling

/-- The pool that is taken has its size, and the entries are read one after the other from the input.
The pool has the shape that is documented, unless a wide entry comes into the last slot of the largest
pool; then the first slot is filled. -/
theorem takeWholePool_shape {count : UInt16} {input rest : Bytes} {pool : ConstantPool}
    (h : takeWholePool count input = .ok (pool, rest)) :
    ∃ ws : List WrittenConstant, (∀ w ∈ ws, w.Fits) ∧
      input = ws.flatMap WrittenConstant.bytes ++ rest ∧ pool.size = count.toNat ∧
      (¬ Wraps 1 count ws → PoolShape pool (ws.map WrittenConstant.constant)) ∧
      (Wraps 1 count ws → ∃ c, pool[0]? = some (some c)) := by
  replace h : takePool count (input.length + 1) 1 (Array.replicate count.toNat none) input =
    .ok (pool, rest) := h
  have hsize : pool.size = count.toNat := (takePool_entries h).2.1.trans Array.size_replicate
  cases hcount : count.toNat with
  | zero =>
      obtain rfl : count = 0 := UInt16.toNat_inj.mp hcount
      rcases takePool_succ h with ⟨hlt, -⟩ | ⟨-, rfl, rfl⟩
      · cases hlt
      · refine ⟨[], nofun, rfl, rfl, fun _ => ⟨nofun, nofun, nofun, rfl⟩, ?_⟩
        rintro ⟨hwraps, -⟩
        cases hwraps
  | succ n =>
      have hfirst : (1 : UInt16).toNat = ([none] : List (Option Constant)).length := rfl
      rw [← List.toArray_replicate, hcount] at h
      obtain ⟨ws, hfits, hinput, hfill⟩ := takePool_fill hfirst (hcount ▸ Nat.le_add_left _ _)
        (by rw [hcount]; exact h)
      refine ⟨ws, hfits, hinput, hsize.trans hcount, ?_⟩
      rcases hfill with ⟨slots, hslots, hoccupied, hend⟩ | ⟨hwraps, hfirst⟩
      · exact ⟨fun _ => hoccupied.poolShape hslots, (absurd · (not_wraps hend))⟩
      · exact ⟨(absurd hwraps ·), fun _ => hfirst⟩

theorem takeWholePool_shape_long :
    takeWholePool 4 [1, 0, 1, 97, 5, 0, 0, 0, 0, 0, 0, 0, 7, 42] =
        .ok (#[none, some (.utf8 [97]), some (.long 7), none], [42]) ∧
      ∃ ws : List WrittenConstant,
        [1, 0, 1, 97, 5, 0, 0, 0, 0, 0, 0, 0, 7, 42] = ws.flatMap WrittenConstant.bytes ++ [42] ∧
        PoolShape #[none, some (.utf8 [97]), some (.long 7), none]
          (ws.map WrittenConstant.constant) := by
  have h : takeWholePool 4 [1, 0, 1, 97, 5, 0, 0, 0, 0, 0, 0, 0, 7, 42] =
      .ok (#[none, some (.utf8 [97]), some (.long 7), none], [42]) := rfl
  obtain ⟨ws, -, hinput, -, hshape, -⟩ := takeWholePool_shape h
  refine ⟨h, ws, hinput, hshape ?_⟩
  rintro ⟨hcount, -⟩
  cases hcount

/-! ### A pool that is filled over again -/

section Walk

variable (count i : UInt16) {w : WrittenConstant} (fuel : Nat) (pool : ConstantPool) (rest : Bytes)

theorem takePool_bytes (hfits : w.Fits) (hlt : i < count) :
    takePool count (fuel + 1) i pool (w.bytes ++ rest) =
      takePool count fuel (if w.isWide then i + 2 else i + 1)
        (pool.setIfInBounds i.toNat (some w.constant)) rest := by
  rw [takePool, if_pos hlt, ← isWide_constant]
  show (takeConstant i (w.bytes ++ rest)).bind _ = _
  rw [reads_takeConstant hfits i _ rest rfl]
  rfl

/-- Narrow entries take a slot each. -/
theorem takePool_replicate (hfits : w.Fits) (hnarrow : w.isWide = false) {n : Nat}
    (hend : i.toNat + n ≤ count.toNat) :
    ∃ j : UInt16, ∃ pool' : ConstantPool, j.toNat = i.toNat + n ∧ pool'.size = pool.size ∧
      takePool count (fuel + n) i pool ((List.replicate n w).flatMap WrittenConstant.bytes ++ rest) =
        takePool count fuel j pool' rest := by
  induction n generalizing i pool with
  | zero => exact ⟨i, pool, rfl, rfl, rfl⟩
  | succ n ih =>
      have hlt : i < count := UInt16.lt_iff_toNat_lt.mpr (by omega)
      have hnext := toNat_add_slots (rfl : i.toNat = _) 1
        (show i.toNat + 1 ≤ count.toNat by omega) count.toNat_lt
      rw [show (1 : UInt16).toNat = 1 from rfl] at hnext
      obtain ⟨j, pool', hj, hsize, hrun⟩ := ih (i + 1)
        (pool.setIfInBounds i.toNat (some w.constant)) (by omega)
      refine ⟨j, pool', by omega, hsize.trans Array.size_setIfInBounds, ?_⟩
      rw [List.replicate_succ, List.flatMap_cons, List.append_assoc, ← Nat.add_assoc,
        takePool_bytes _ _ _ _ _ hfits hlt, hnarrow]
      exact hrun

theorem length_bytes_replicate (n : Nat) :
    ((List.replicate n w).flatMap WrittenConstant.bytes).length = n * w.bytes.length := by
  rw [List.length_flatMap, List.map_replicate, List.sum_replicate_nat]

omit fuel pool rest in
/-- A wide entry in the last slot of the largest pool, and then narrow ones that fill it over again. -/
theorem exists_wrapped {wide : WrittenConstant} {n m : Nat} (hwide : wide.isWide = true)
    (hwideFits : wide.Fits) (hfits : w.Fits) (hnarrow : w.isWide = false) (hn : n = 65533)
    (hm : m = 65535) :
    ∃ pool : ConstantPool, takeWholePool 65535
      ((List.replicate n w ++ wide :: List.replicate m w).flatMap WrittenConstant.bytes) =
        .ok (pool, []) ∧ ∃ c, pool[0]? = some (some c) := by
  rw [List.flatMap_append, List.flatMap_cons]
  generalize hA : (List.replicate n w).flatMap WrittenConstant.bytes = before
  generalize hC : (List.replicate m w).flatMap WrittenConstant.bytes = after
  have hbefore : n ≤ before.length := by
    rw [← hA, length_bytes_replicate]
    exact Nat.le_mul_of_pos_right n w.length_bytes_pos
  have hafter : m ≤ after.length := by
    rw [← hC, length_bytes_replicate]
    exact Nat.le_mul_of_pos_right m w.length_bytes_pos
  have hwidePos := wide.length_bytes_pos
  obtain ⟨fuel, hfuel⟩ : ∃ fuel,
      (before ++ (wide.bytes ++ after)).length + 1 = fuel + 1 + m + 1 + n := by
    rw [List.length_append, List.length_append]
    exact ⟨before.length + (wide.bytes.length + after.length) - (m + 1 + n), by omega⟩
  let empty : ConstantPool := Array.replicate 65535 none
  obtain ⟨j, pool, hj, hsize, hrun⟩ := takePool_replicate 65535 1 (fuel + 1 + m + 1)
    empty (wide.bytes ++ after) hfits hnarrow (n := n) (by rw [hn]; decide)
  obtain rfl : j = 65534 := UInt16.toNat_inj.mp (by rw [hj, hn]; rfl)
  have hwrap := takePool_bytes 65535 65534 (fuel + 1 + m) pool after hwideFits
    (by decide)
  rw [hwide] at hwrap
  obtain ⟨j, pool', hj, hsize', hover⟩ := takePool_replicate 65535 0 (fuel + 1)
    (pool.setIfInBounds 65534 (some wide.constant)) [] hfits hnarrow (n := m) (by rw [hm]; decide)
  obtain rfl : j = 65535 := UInt16.toNat_inj.mp (by rw [hj, hm]; rfl)
  rw [hC, List.append_nil] at hover
  rw [hA] at hrun
  have hend : takePool 65535 (fuel + 1) 65535 pool' [] = .ok (pool', []) := rfl
  have hall : takeWholePool 65535 (before ++ (wide.bytes ++ after)) = .ok (pool', []) := by
    show takePool 65535 ((before ++ (wide.bytes ++ after)).length + 1) 1 empty _ = _
    rw [hfuel, hrun, hwrap]
    exact hover.trans hend
  refine ⟨pool', hall, first_filled (show (0 : UInt16) < 65535 by decide) ?_ (hover.trans hend)⟩
  rw [Array.size_setIfInBounds, hsize, Array.size_replicate]
  decide

end Walk

/-- Entries of which one, a long, comes into the last slot of the largest pool. -/
def wrappingEntries : List WrittenConstant :=
  List.replicate 65533 (.classRef 1) ++ .long 0 :: List.replicate 65535 (.classRef 1)

/-- The pool they are read into has an entry in its first slot. -/
theorem takeWholePool_wraps : ∃ pool : ConstantPool,
    takeWholePool 65535 (wrappingEntries.flatMap WrittenConstant.bytes) = .ok (pool, []) ∧
      ∃ c, pool[0]? = some (some c) :=
  exists_wrapped rfl trivial trivial rfl rfl rfl

end ClassFile

end ClassLinker
