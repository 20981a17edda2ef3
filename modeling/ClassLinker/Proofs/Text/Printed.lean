import Mathlib.Tactic.Common
import ClassLinker.Proofs.Text.Pieces
import ClassLinker.Text.Lines
import ClassLinker.Text.Number

/-! Reading what was printed. A number of 64 bits is read from its decimal digits, and lines that
hold no newline are the lines of the text in which a newline ends each of them. -/

namespace ClassLinker.Text

/-! ### Decimal numbers -/

/-- The byte of a decimal digit. -/
def digitByte (d : Nat) : UInt8 := (48 + d).toUInt8

theorem digit?_digitByte {d : Nat} (h : d < 10) : digit? (digitByte d) = some d := by
  have hall : ∀ d < 10, digit? (digitByte d) = some d := by decide
  exact hall d h

theorem ofNat_of_lt {n : Nat} (h : n < 10) : ofNat n = [digitByte n] := by
  have hall : ∀ n < 10, ofNat n = [digitByte n] := by decide
  exact hall n h

/-- The digits of a number are those of its tenth part and the last one. -/
theorem ofNat_of_ge {n : Nat} (h : 10 ≤ n) : ofNat n = ofNat (n / 10) ++ [digitByte (n % 10)] := by
  have hlt : n % 10 < 10 := Nat.mod_lt n (by decide)
  have hdigits := Nat.toDigits_append_toDigits (b := 10) (by decide) (Nat.div_pos h (by decide)) hlt
  rw [Nat.div_add_mod] at hdigits
  rw [← ofNat_of_lt hlt, ofNat, ofNat, ofNat, ← hdigits, List.map_append]

theorem mem_ofNat {n : Nat} {b : UInt8} (h : b ∈ ofNat n) : ∃ d < 10, b = digitByte d := by
  induction n using Nat.strong_induction_on with
  | _ n ih =>
    rcases Nat.lt_or_ge n 10 with hlt | hge
    · rw [ofNat_of_lt hlt] at h
      exact ⟨n, hlt, List.mem_singleton.mp h⟩
    · rw [ofNat_of_ge hge] at h
      rcases List.mem_append.mp h with h | h
      · exact ih (n / 10) (by omega) h
      · exact ⟨n % 10, Nat.mod_lt n (by decide), List.mem_singleton.mp h⟩

theorem ofNat_ne_nil (n : Nat) : ofNat n ≠ [] := by
  rcases Nat.lt_or_ge n 10 with hlt | hge
  · rw [ofNat_of_lt hlt]
    exact List.cons_ne_nil _ _
  · rw [ofNat_of_ge hge]
    exact List.append_ne_nil_of_right_ne_nil _ (List.cons_ne_nil _ _)

theorem readDigits_append (seen : Nat) (s t : Text) :
    readDigits seen (s ++ t) = (readDigits seen s).bind fun n => readDigits n t := by
  induction s generalizing seen with
  | nil => rfl
  | cons b s ih =>
      rw [List.cons_append, readDigits, readDigits]
      cases digit? b with
      | none => rfl
      | some d =>
          dsimp only
          split
          · rfl
          · exact ih _

theorem readDigits_ofNat {n : Nat} (h : n < 0x10000000000000000) :
    readDigits 0 (ofNat n) = .ok n := by
  induction n using Nat.strong_induction_on with
  | _ n ih =>
    have hone : ∀ {seen d : Nat}, d < 10 → seen * 10 + d = n →
        readDigits seen [digitByte d] = .ok n := by
      intro seen d hd hn
      rw [readDigits, digit?_digitByte hd]
      dsimp only
      rw [hn, if_neg (by omega), readDigits]
    rcases Nat.lt_or_ge n 10 with hlt | hge
    · rw [ofNat_of_lt hlt]
      exact hone hlt (by omega)
    · rw [ofNat_of_ge hge, readDigits_append, ih (n / 10) (by omega) (by omega)]
      exact hone (Nat.mod_lt n (by decide)) (by omega)

theorem readUnsigned_ofNat {n : Nat} (h : n < 0x10000000000000000) :
    readUnsigned (ofNat n) = .ok n := by
  obtain ⟨b, t, hdigits⟩ := List.exists_cons_of_ne_nil (ofNat_ne_nil n)
  rw [hdigits, readUnsigned, ← hdigits, readDigits_ofNat h]

/-- A number of 64 bits is read back from its digits. -/
theorem readInt_ofInt {n : Int} (hlow : -0x8000000000000000 ≤ n) (hhigh : n < 0x8000000000000000) :
    readInt (ofInt n) = .ok n := by
  cases n with
  | ofNat n =>
      have hlt : (n : Int) < 0x8000000000000000 := hhigh
      have hunsigned : readUnsigned (ofNat n) = .ok n := readUnsigned_ofNat (by omega)
      have hfits : ¬ 0x8000000000000000 ≤ n := by omega
      have hsigns : ∀ d < 10, digitByte d ≠ byte '-' ∧ digitByte d ≠ byte '+' := by decide
      obtain ⟨b, t, hdigits⟩ := List.exists_cons_of_ne_nil (ofNat_ne_nil n)
      obtain ⟨d, hd, rfl⟩ := mem_ofNat (n := n) (b := b) (hdigits ▸ List.mem_cons_self)
      rw [hdigits] at hunsigned
      rw [ofInt, hdigits, readInt, if_neg (hsigns d hd).1, if_neg (hsigns d hd).2]
      dsimp only
      rw [hunsigned]
      exact if_neg hfits
  | negSucc n =>
      have hunsigned : readUnsigned (ofNat (n + 1)) = .ok (n + 1) := readUnsigned_ofNat (by omega)
      have hfits : ¬ 0x8000000000000000 < n + 1 := by omega
      rw [ofInt, readInt, if_pos rfl]
      dsimp only
      rw [hunsigned]
      exact if_neg hfits

theorem mem_ofInt {n : Int} {b : UInt8} (h : b ∈ ofInt n) :
    b = byte '-' ∨ ∃ d < 10, b = digitByte d := by
  cases n with
  | ofNat n => exact .inr (mem_ofNat h)
  | negSucc n => exact (List.mem_cons.mp h).imp_right mem_ofNat

theorem ofInt_ne_nil (n : Int) : ofInt n ≠ [] := by
  cases n with
  | ofNat n => exact ofNat_ne_nil n
  | negSucc n => exact List.cons_ne_nil _ _

theorem ofInt_ascii (n : Int) : Ascii (ofInt n) := by
  intro b hb
  have hdigits : ∀ d < 10, digitByte d < 0x80 := by decide
  rcases mem_ofInt hb with rfl | ⟨d, hd, rfl⟩
  · decide
  · exact hdigits d hd

/-- A number is a word. -/
theorem ofInt_unbroken (n : Int) : Unbroken (ofInt n) := by
  intro p hp
  rw [pieces_ascii (ofInt_ascii n)] at hp
  obtain ⟨b, hb, rfl⟩ := List.mem_map.mp hp
  have hdigits : ∀ d < 10, isBlank (asciiPiece (digitByte d)) = false := by decide
  rcases mem_ofInt hb with rfl | ⟨d, hd, rfl⟩
  · decide
  · exact hdigits d hd

/-! ### Lines -/

theorem splitOn_append {sep : UInt8} {line : Text} (h : sep ∉ line) (t : Text) :
    splitOn sep (line ++ sep :: t) = line :: splitOn sep t := by
  induction line with
  | nil => exact if_pos rfl
  | cons b line ih =>
      have hb : b ≠ sep := fun heq => h (heq ▸ List.mem_cons_self)
      rw [List.cons_append, splitOn, if_neg hb, ih fun hmem => h (List.mem_cons_of_mem b hmem)]

/-- The text in which a newline ends each of some lines. -/
def unlines (lines : List Text) : Text := lines.flatMap fun line => line ++ [byte '\n']

theorem rawLines_unlines {lines : List Text} (h : ∀ line ∈ lines, byte '\n' ∉ line) :
    rawLines (unlines lines) = lines := by
  have hsplit : splitOn (byte '\n') (unlines lines) = lines ++ [[]] := by
    induction lines with
    | nil => rfl
    | cons line lines ih =>
        rw [unlines, List.flatMap_cons, List.append_assoc, List.singleton_append,
          splitOn_append (h line List.mem_cons_self)]
        exact congrArg _ (ih fun other hother => h other (List.mem_cons_of_mem line hother))
  simp [rawLines, hsplit]

theorem splitOn_ne_nil (sep : UInt8) (t : Text) : splitOn sep t ≠ [] := by
  fun_cases splitOn sep t with
  | case1 => exact List.cons_ne_nil _ _
  | case2 t => exact List.cons_ne_nil _ _
  | case3 b t hb h => exact List.cons_ne_nil _ _
  | case4 b t hb first rest h => exact List.cons_ne_nil _ _

theorem not_mem_of_mem_splitOn {sep : UInt8} {line t : Text} (h : line ∈ splitOn sep t) :
    sep ∉ line := by
  induction t generalizing line with
  | nil =>
      cases List.mem_singleton.mp h
      exact List.not_mem_nil
  | cons b t ih =>
      rw [splitOn] at h
      split at h
      case isTrue =>
        rcases List.mem_cons.mp h with rfl | h
        · exact List.not_mem_nil
        · exact ih h
      case isFalse hb =>
        cases hsplit : splitOn sep t with
        | nil => exact absurd hsplit (splitOn_ne_nil sep t)
        | cons first rest =>
            rw [hsplit] at h ih
            rcases List.mem_cons.mp h with rfl | h
            · exact List.not_mem_cons_of_ne_of_not_mem (Ne.symm hb) (ih List.mem_cons_self)
            · exact ih (List.mem_cons_of_mem first h)

/-- The pieces between separators, put together again. -/
theorem join_splitOn (sep : UInt8) (t : Text) : join [sep] (splitOn sep t) = t := by
  induction t with
  | nil => rfl
  | cons b t ih =>
      rw [splitOn]
      cases hsplit : splitOn sep t with
      | nil => exact absurd hsplit (splitOn_ne_nil sep t)
      | cons first rest =>
          rw [hsplit] at ih
          split
          case isTrue hb => rw [join, ih, hb]; rfl
          case isFalse =>
            cases rest with
            | nil => exact congrArg _ ih
            | cons second rest => exact congrArg _ ih

theorem splitOn_of_not_mem {sep : UInt8} {line : Text} (h : sep ∉ line) :
    splitOn sep line = [line] := by
  induction line with
  | nil => rfl
  | cons b line ih =>
      rw [splitOn, if_neg (Ne.symm (List.ne_of_not_mem_cons h)),
        ih (List.not_mem_of_not_mem_cons h)]

theorem splitOn_join {sep : UInt8} {lines : List Text} (hne : lines ≠ [])
    (h : ∀ line ∈ lines, sep ∉ line) : splitOn sep (join [sep] lines) = lines := by
  induction lines with
  | nil => exact absurd rfl hne
  | cons line lines ih =>
      cases lines with
      | nil => exact splitOn_of_not_mem (h line List.mem_cons_self)
      | cons next rest =>
          rw [join, List.append_assoc, List.singleton_append,
            splitOn_append (h line List.mem_cons_self),
            ih (List.cons_ne_nil _ _) fun other hother => h other (List.mem_cons_of_mem line hother)]

/-- The lines of a text, but for one without bytes at the end. -/
theorem rawLines_cases (t : Text) :
    splitOn (byte '\n') t = rawLines t ∨ splitOn (byte '\n') t = rawLines t ++ [[]] := by
  rw [rawLines]
  split
  case isTrue hlast =>
    obtain ⟨front, hfront⟩ := List.getLast?_eq_some_iff.mp hlast
    rw [hfront, List.dropLast_concat]
    exact .inr rfl
  case isFalse => exact .inl rfl

theorem tooLong_iff {t : Text} :
    (readLines t).tooLong = false ↔ ∀ line ∈ rawLines t, line.length < lineLimit := by
  simp [readLines]

/-- Where no line is too long, all lines are read. -/
theorem lines_of_fits {t : Text} (h : (readLines t).tooLong = false) :
    (readLines t).lines = (rawLines t).map dropReturn := by
  rw [readLines, List.takeWhile_eq_self_iff.mpr fun line hline =>
    decide_eq_true (tooLong_iff.mp h line hline)]

theorem dropReturn_eq_self {line : Text} (h : byte '\r' ∉ line) : dropReturn line = line :=
  if_neg fun hlast => h (List.mem_of_getLast? hlast)

/-- A line is read without the carriage return at its end, if it has one. -/
theorem dropReturn_cases (line : Text) :
    dropReturn line = line ∨ line = dropReturn line ++ [byte '\r'] := by
  unfold dropReturn
  split
  case isTrue hlast =>
    obtain ⟨front, rfl⟩ := List.getLast?_eq_some_iff.mp hlast
    exact .inr (by rw [List.dropLast_concat])
  case isFalse => exact .inl rfl

end ClassLinker.Text
