import Mathlib.Tactic.Common
import Mathlib.Tactic.Ring
import ClassLinker.Cbor.Read

/-!
Reading what was written. A reader gives back every item whose numbers and lengths fit into 64 bits,
whose lists it allows and whose texts are in one chunk. The one thing that is not kept is which of
the 64-bit patterns of no number a float was: all of them are written, and so read, as one.
-/

namespace ClassLinker

/-- Reading bytes from the left, after some have been read. -/
theorem bigEndian_foldl (bs : Bytes) (start : Nat) :
    bs.foldl (fun n b => n * 256 + b.toNat) start = start * 256 ^ bs.length + bigEndian bs := by
  induction bs generalizing start with
  | nil => simp [bigEndian]
  | cons b bs ih =>
    have hb : bigEndian (b :: bs) = (0 * 256 + b.toNat) * 256 ^ bs.length + bigEndian bs := ih _
    rw [List.foldl_cons, ih, hb, List.length_cons, Nat.pow_succ]
    ring

/-- The value of bytes starts with that of the first. -/
theorem bigEndian_cons (b : UInt8) (bs : Bytes) :
    bigEndian (b :: bs) = b.toNat * 256 ^ bs.length + bigEndian bs := by
  rw [bigEndian, List.foldl_cons, bigEndian_foldl, Nat.zero_mul, Nat.zero_add]

namespace FloatBits

/-- Widening a narrow number looks at no more bits than its format has. -/
theorem widen_mod (f : FloatFormat) (n : Nat) :
    widen f (n % 2 ^ (f.fractionBits + f.exponentBits + 1)) = widen f n := by
  have hfraction : n % 2 ^ (f.fractionBits + f.exponentBits + 1) % twoPow f.fractionBits =
      n % twoPow f.fractionBits :=
    Nat.mod_mod_of_dvd n (Nat.pow_dvd_pow 2 (by omega))
  have hexponent : n % 2 ^ (f.fractionBits + f.exponentBits + 1) / twoPow f.fractionBits %
      twoPow f.exponentBits = n / twoPow f.fractionBits % twoPow f.exponentBits := by
    show n % 2 ^ (f.fractionBits + f.exponentBits + 1) / 2 ^ f.fractionBits % 2 ^ f.exponentBits =
      n / 2 ^ f.fractionBits % 2 ^ f.exponentBits
    rw [Nat.add_assoc, Nat.pow_add, Nat.mod_mul_right_div_self]
    exact Nat.mod_mod_of_dvd _ (Nat.pow_dvd_pow 2 (by omega))
  have hsign : n % 2 ^ (f.fractionBits + f.exponentBits + 1) /
      twoPow (f.fractionBits + f.exponentBits) % 2 =
        n / twoPow (f.fractionBits + f.exponentBits) % 2 := by
    show n % 2 ^ (f.fractionBits + f.exponentBits + 1) / 2 ^ (f.fractionBits + f.exponentBits) % 2 =
      n / 2 ^ (f.fractionBits + f.exponentBits) % 2
    rw [Nat.pow_succ, Nat.mod_mul_right_div_self, Nat.mod_mod]
  unfold widen
  rw [hfraction, hexponent, hsign]

/-- The bits of the number that is read for what is no number. -/
def quietNan : UInt64 := 0x7FF8000000000000

/-- That number is none. -/
theorem isNan_quietNan : isNan quietNan = true := by decide

/-- A float as it is read back: every pattern of no number becomes one. -/
def settleNan (bits : UInt64) : UInt64 := if isNan bits then quietNan else bits

/-- A float that has been read back stays as it is. -/
theorem settleNan_idem (bits : UInt64) : settleNan (settleNan bits) = settleNan bits := by
  by_cases h : isNan bits = true
  · rw [settleNan, settleNan, if_pos h, ite_self]
  · have hsame : settleNan bits = bits := if_neg h
    rw [hsame, hsame]

end FloatBits

namespace Cbor

/-- The first number that is too large for the head of an item. -/
def headBound : Nat := 0x10000000000000000

/-- Bytes of a number are as many as was asked for. -/
@[simp] theorem length_bytesOf (width n : Nat) : (bytesOf width n).length = width := by
  induction width with
  | zero => rfl
  | succ width ih => simp only [bytesOf, List.length_cons, ih]

/-- The low bytes of a number have the value of the number up to that width. -/
theorem bigEndian_bytesOf (width n : Nat) : bigEndian (bytesOf width n) = n % 256 ^ width := by
  induction width with
  | zero => simp [bytesOf, bigEndian, Nat.mod_one]
  | succ width ih =>
    have hbyte : (n / Nat.pow 256 width).toUInt8.toNat = n / 256 ^ width % 256 := rfl
    rw [bytesOf, bigEndian_cons, length_bytesOf, ih, hbyte, Nat.pow_succ, Nat.mod_mul]
    ring

/-- Taking as many bytes as were put in front gives them and what comes after. -/
theorem takeBytes?_append {n : Nat} {bytes : Bytes} (h : bytes.length = n) (rest : Bytes) :
    takeBytes? n (bytes ++ rest) = some (bytes, rest) := by
  subst h
  simp [takeBytes?]

/-- The fields of a first byte. -/
theorem firstByte_fields {major info : Nat} (hm : major < 8) (hi : info < 32) :
    (major * 32 + info).toUInt8.toNat / 32 = major ∧
      (major * 32 + info).toUInt8.toNat % 32 = info := by
  have htoNat : (major * 32 + info).toUInt8.toNat = (major * 32 + info) % 256 := rfl
  omega

/-- A head of a short argument is read back. -/
theorem readHead_short {first : UInt8} {major info : Nat}
    (hfirst : first.toNat / 32 = major ∧ first.toNat % 32 = info) (hi : info < 24) (rest : Bytes) :
    readHead (first :: rest) = some (⟨major, info, some info⟩, rest) := by
  simp only [readHead, hfirst.1, hfirst.2, hi, if_true]

/-- The number of bytes of an argument that does not fit into the first byte. -/
def wideBytes : Nat → Option Nat
  | 24 => some 1
  | 25 => some 2
  | 26 => some 4
  | 27 => some 8
  | _ => none

/-- A head of a long argument is read, except that a simple value may not be written in a byte of
its own. -/
theorem readHead_wide {first : UInt8} {major info width : Nat}
    (hfirst : first.toNat / 32 = major ∧ first.toNat % 32 = info) (hw : wideBytes info = some width)
    (h7 : major = 7 → info ≠ 24) (n : Nat) (rest : Bytes) :
    readHead (first :: (bytesOf width n ++ rest)) =
      some (⟨major, info, some (n % 256 ^ width)⟩, rest) := by
  have hcases : info = 24 ∧ width = 1 ∨ info = 25 ∧ width = 2 ∨ info = 26 ∧ width = 4 ∨
      info = 27 ∧ width = 8 := by
    unfold wideBytes at hw
    split at hw <;> simp_all
  have htake := takeBytes?_append (length_bytesOf width n) rest
  rcases hcases with ⟨rfl, rfl⟩ | ⟨rfl, rfl⟩ | ⟨rfl, rfl⟩ | ⟨rfl, rfl⟩
  · have hne : major ≠ 7 := fun h => h7 h rfl
    simp [readHead, hfirst.1, hfirst.2, htake, bigEndian_bytesOf, hne]
  all_goals simp [readHead, hfirst.1, hfirst.2, htake, bigEndian_bytesOf]

/-- The head of an item is read back: its major type, and its argument if that fits a head. -/
theorem readHead_head {major n : Nat} (hm : major < 7) (hn : n < headBound) (rest : Bytes) :
    ∃ info, readHead (head major n ++ rest) = some (⟨major, info, some n⟩, rest) := by
  have hwide : ∀ info width, info < 32 → wideBytes info = some width → n < 256 ^ width →
      readHead ((major * 32 + info).toUInt8 :: (bytesOf width n ++ rest)) =
        some (⟨major, info, some n⟩, rest) := by
    intro info width hi hw hlt
    have h := readHead_wide (firstByte_fields (show major < 8 by omega) hi) hw (by omega) n rest
    rwa [Nat.mod_eq_of_lt hlt] at h
  unfold head
  split_ifs with h1 h2 h3 h4
  · exact ⟨n, readHead_short (firstByte_fields (by omega) (by omega)) h1 rest⟩
  · exact ⟨24, hwide 24 1 (by omega) rfl (by omega)⟩
  · exact ⟨25, hwide 25 2 (by omega) rfl (by omega)⟩
  · exact ⟨26, hwide 26 4 (by omega) rfl (by omega)⟩
  · exact ⟨27, hwide 27 8 (by omega) rfl hn⟩

/-- A head takes a byte. -/
theorem length_head_pos (major n : Nat) : 0 < (head major n).length := by
  unfold head
  split_ifs <;> simp

/-- All patterns of no number are written alike. -/
theorem encodeFloat_nan {bits : UInt64} (h : FloatBits.isNan bits = true) :
    encodeFloat bits = 0xF9 :: bytesOf 2 0x7E00 := by
  unfold encodeFloat
  rw [h]
  rfl

/-- Reading a float back does not change how it is written. -/
theorem encodeFloat_settleNan (bits : UInt64) :
    encodeFloat (FloatBits.settleNan bits) = encodeFloat bits := by
  by_cases h : FloatBits.isNan bits = true
  · rw [FloatBits.settleNan, if_pos h, encodeFloat_nan h, encodeFloat_nan FloatBits.isNan_quietNan]
  · rw [FloatBits.settleNan, if_neg h]

/-- A float takes a byte. -/
theorem length_encodeFloat_pos (bits : UInt64) : 0 < (encodeFloat bits).length := by
  unfold encodeFloat
  cases FloatBits.isNan bits with
  | true => exact Nat.zero_lt_succ _
  | false =>
    cases FloatBits.narrow? .half bits with
    | some n => exact Nat.zero_lt_succ _
    | none => cases FloatBits.narrow? .single bits <;> exact Nat.zero_lt_succ _

/-- A float is read back: the short formats are only used where they keep its value. -/
theorem readHead_encodeFloat (bits : UInt64) (rest : Bytes) :
    ∃ info n, readHead (encodeFloat bits ++ rest) = some (⟨7, info, some n⟩, rest) ∧
      primitive info n = .float (FloatBits.settleNan bits) := by
  cases hnan : FloatBits.isNan bits with
  | true =>
    refine ⟨25, 0x7E00 % 256 ^ 2, ?_, ?_⟩
    · rw [encodeFloat_nan hnan]
      exact readHead_wide (by decide) rfl (by decide) _ rest
    · rw [FloatBits.settleNan, hnan]
      rfl
  | false =>
    have hsettled : FloatBits.settleNan bits = bits := by
      rw [FloatBits.settleNan, hnan]
      rfl
    rw [hsettled]
    unfold encodeFloat
    rw [hnan]
    cases hhalf : FloatBits.narrow? .half bits with
    | some n =>
      refine ⟨25, n % 256 ^ 2, readHead_wide (by decide) rfl (by decide) n rest, ?_⟩
      have hwiden := FloatBits.widen_mod .half n
      rw [FloatBits.widen_of_narrow? hhalf] at hwiden
      exact congrArg Item.float hwiden
    | none =>
      cases hsingle : FloatBits.narrow? .single bits with
      | some n =>
        refine ⟨26, n % 256 ^ 4, readHead_wide (by decide) rfl (by decide) n rest, ?_⟩
        have hwiden := FloatBits.widen_mod .single n
        rw [FloatBits.widen_of_narrow? hsingle] at hwiden
        exact congrArg Item.float hwiden
      | none =>
        refine ⟨27, bits.toNat % 256 ^ 8, readHead_wide (by decide) rfl (by decide) _ rest, ?_⟩
        have hsame : (bits.toNat % 256 ^ 8).toUInt64 = bits := by
          rw [Nat.mod_eq_of_lt (show bits.toNat < 256 ^ 8 from bits.toNat_lt)]
          exact UInt64.ofNat_toNat
        exact congrArg Item.float hsame

/-- The items that a reader gives back as they are: numbers and lengths fit into 64 bits, lists are
no longer than the limit, texts are in one chunk, and floats are as they are read. -/
inductive Item.Readable (limit : Option Nat) : Nat → Item → Prop
  | unsigned {depth n : Nat} (hn : n < headBound) : Readable limit depth (.unsigned n)
  | negative {depth n : Nat} (hn : n < headBound) : Readable limit depth (.negative n)
  | bytes {depth : Nat} {data : Bytes} (hn : data.length < headBound) :
      Readable limit depth (.bytes data)
  | text {depth : Nat} {t : Text} (hn : t.length < headBound) : Readable limit depth (.text [t])
  | array {depth : Nat} {items : List Item} (hdepth : depth < maxDepth)
      (hn : items.length < headBound) (hlimit : exceeds limit items.length = false)
      (hitems : ∀ item ∈ items, Readable limit (depth + 1) item) : Readable limit depth (.array items)
  | map {depth : Nat} {entries : List Item} (hdepth : depth < maxDepth)
      (heven : entries.length % 2 = 0) (hn : entries.length / 2 < headBound)
      (hlimit : exceeds limit (entries.length / 2) = false)
      (hentries : ∀ item ∈ entries, Readable limit (depth + 1) item) :
      Readable limit depth (.map entries)
  | simple {depth code : Nat} (hcode : code < 24) : Readable limit depth (.simple code)
  | float {depth : Nat} {bits : UInt64} (hsettled : FloatBits.settleNan bits = bits) :
      Readable limit depth (.float bits)

/-- An item that can be read takes a byte. -/
theorem Item.Readable.length_pos {limit : Option Nat} {depth : Nat} {item : Item}
    (h : item.Readable limit depth) : 0 < item.encode.length := by
  have hhead : ∀ major n (rest : Bytes), 0 < (head major n ++ rest).length := by
    intro major n rest
    have := length_head_pos major n
    rw [List.length_append]
    omega
  cases h with
  | float => exact length_encodeFloat_pos _
  | unsigned | negative | simple => exact length_head_pos _ _
  | bytes | text | array | map => exact hhead _ _ _

/-- The items of a list are read back if each of them is. The fuel covers two calls for each byte,
one for the item and one for the list. -/
theorem readItems_encodeAll {limit : Option Nat} {depth : Nat} {items : List Item}
    (hpos : ∀ item ∈ items, 0 < item.encode.length)
    (hread : ∀ item ∈ items, ∀ fuel rest, 2 * item.encode.length ≤ fuel + 1 →
      readItem limit (fuel + 1) depth (item.encode ++ rest) = some (item, rest)) :
    ∀ fuel rest, 2 * (encodeAll items).length < fuel →
      readItems limit fuel depth items.length (encodeAll items ++ rest) = some (items, rest) := by
  induction items with
  | nil =>
    intro fuel rest hfuel
    obtain ⟨fuel, rfl⟩ : ∃ f, fuel = f + 1 := ⟨fuel - 1, by omega⟩
    simp only [List.length_nil, encodeAll, List.nil_append, readItems]
  | cons item items ih =>
    intro fuel rest hfuel
    have hlen : (encodeAll (item :: items)).length =
        item.encode.length + (encodeAll items).length := by
      rw [encodeAll, List.length_append]
    have hitem := hpos item List.mem_cons_self
    obtain ⟨fuel, rfl⟩ : ∃ f, fuel = f + 2 := ⟨fuel - 2, by omega⟩
    have hfirst := hread item List.mem_cons_self fuel (encodeAll items ++ rest) (by omega)
    have hrest := ih (fun i hi => hpos i (List.mem_cons_of_mem _ hi))
      (fun i hi => hread i (List.mem_cons_of_mem _ hi)) (fuel + 1) rest (by omega)
    simp only [List.length_cons, readItems, encodeAll, List.append_assoc, hfirst, hrest,
      Option.bind_eq_bind, Option.bind_some, Option.pure_def]

/-- An item that can be read is read back, whatever comes after it. -/
theorem readItem_encode {limit : Option Nat} {depth : Nat} {item : Item}
    (h : item.Readable limit depth) :
    ∀ fuel rest, 2 * item.encode.length ≤ fuel + 1 →
      readItem limit (fuel + 1) depth (item.encode ++ rest) = some (item, rest) := by
  induction h with
  | unsigned hn =>
    intro fuel rest hfuel
    obtain ⟨info, hhead⟩ := readHead_head (show 0 < 7 by decide) hn rest
    simp [Item.encode, readItem, hhead]
  | negative hn =>
    intro fuel rest hfuel
    obtain ⟨info, hhead⟩ := readHead_head (show 1 < 7 by decide) hn rest
    simp [Item.encode, readItem, hhead]
  | @bytes depth data hn =>
    intro fuel rest hfuel
    obtain ⟨info, hhead⟩ := readHead_head (show 2 < 7 by decide) hn (data ++ rest)
    simp [Item.encode, readItem, hhead, takeBytes?_append]
  | @text depth t hn =>
    intro fuel rest hfuel
    obtain ⟨info, hhead⟩ := readHead_head (show 3 < 7 by decide) hn (t ++ rest)
    simp [Item.encode, encodeText, readItem, hhead, takeBytes?_append]
  | @array depth items hdepth hn hlimit hitems ih =>
    intro fuel rest hfuel
    obtain ⟨info, hhead⟩ := readHead_head (show 4 < 7 by decide) hn (encodeAll items ++ rest)
    have hlen := length_head_pos 4 items.length
    have hread := readItems_encodeAll (fun i hi => (hitems i hi).length_pos) ih fuel rest
      (by simp only [Item.encode, List.length_append] at hfuel; omega)
    simp [Item.encode, readItem, hhead, hread, hlimit, Nat.not_le.mpr hdepth]
  | @map depth entries hdepth heven hn hlimit hentries ih =>
    intro fuel rest hfuel
    obtain ⟨info, hhead⟩ := readHead_head (show 5 < 7 by decide) hn (encodeAll entries ++ rest)
    have hlen := length_head_pos 5 (entries.length / 2)
    have hread := readItems_encodeAll (fun i hi => (hentries i hi).length_pos) ih fuel rest
      (by simp only [Item.encode, List.length_append] at hfuel; omega)
    have hpairs : 2 * (entries.length / 2) = entries.length := by omega
    simp [Item.encode, readItem, hhead, hpairs, hread, hlimit, Nat.not_le.mpr hdepth]
  | @simple depth code hcode =>
    intro fuel rest hfuel
    have hhead : readHead (head 7 code ++ rest) = some (⟨7, code, some code⟩, rest) := by
      rw [head, if_pos hcode]
      exact readHead_short (firstByte_fields (by decide) (by omega)) hcode rest
    have hprimitive : primitive code code = .simple code := by
      unfold primitive
      rw [if_neg (by omega), if_neg (by omega), if_neg (by omega)]
    simp [Item.encode, readItem, hhead, hprimitive]
  | @float depth bits hsettled =>
    intro fuel rest hfuel
    obtain ⟨info, n, hhead, hprimitive⟩ := readHead_encodeFloat bits rest
    rw [hsettled] at hprimitive
    simp [Item.encode, readItem, hhead, hprimitive]

/-- A document that can be read is read back. -/
theorem read_encode {limit : Option Nat} {item : Item} (h : item.Readable limit 0) :
    read limit item.encode = some item := by
  have hread := readItem_encode h (2 * item.encode.length + 1) [] (by omega)
  rw [List.append_nil] at hread
  rw [read, hread]

end Cbor

end ClassLinker
