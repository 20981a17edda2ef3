import ClassLinker.Proofs.Image.Trace

/-! Looking a pc up in a trace. The entries are sorted by their pcs and the sorted entries are halved
until one is left, but what is found can be said without either: it is the entry with the greatest pc
that is not above the one looked for, and of several such entries the last one in the file. -/

namespace ClassLinker

/-! ### Entries in the order of the file -/

namespace TraceEntry

/-- A line without an entry: a blank one or a heading. -/
def Skipped (line : Text) : Prop := Text.trim line = [] ∨ ("::" : Text) <+: Text.trim line

/-- The entries that lines list: a line that is not skipped has three words, the pc, the source line
and the method of its entry. -/
inductive ListedIn : List Text → List TraceEntry → Prop
  | nil : ListedIn [] []
  | skip {line : Text} {lines : List Text} {entries : List TraceEntry} (hline : Skipped line)
      (h : ListedIn lines entries) : ListedIn (line :: lines) entries
  | entry {line pc source : Text} {e : TraceEntry} {lines : List Text} {entries : List TraceEntry}
      (hline : ¬ Skipped line) (hwords : Text.words (Text.trim line) = [pc, source, e.method])
      (hpc : Text.readInt pc = .ok e.pc) (hsource : Text.readInt source = .ok e.line)
      (h : ListedIn lines entries) : ListedIn (line :: lines) (e :: entries)

variable {line word what : Text} {lines : List Text} {e : TraceEntry} {entries : List TraceEntry}

theorem readNumber_ok {n : Int} : readNumber what word = .ok n ↔ Text.readInt word = .ok n := by
  rw [readNumber]
  cases Text.readInt word <;> simp [Except.mapError]

theorem readLine?_none (h : readLine? line = .ok none) : Skipped line := by
  unfold readLine? at h
  dsimp only at h
  split at h
  case isTrue hskip =>
      simpa [Skipped] using hskip
  case isFalse =>
      split at h
      case h_1 =>
          obtain ⟨n, -, h⟩ := except_bind_ok.mp h
          obtain ⟨k, -, h⟩ := except_bind_ok.mp h
          cases h
      case h_2 => cases h

theorem readLine?_some (h : readLine? line = .ok (some e)) : ¬ Skipped line ∧ ∃ pc source,
    Text.words (Text.trim line) = [pc, source, e.method] ∧ Text.readInt pc = .ok e.pc ∧
      Text.readInt source = .ok e.line := by
  unfold readLine? at h
  dsimp only at h
  split at h
  case isTrue => cases h
  case isFalse hskip =>
      refine ⟨by simpa [Skipped] using hskip, ?_⟩
      split at h
      case h_1 pc source method hwords =>
          obtain ⟨n, hpc, h⟩ := except_bind_ok.mp h
          obtain ⟨k, hsource, h⟩ := except_bind_ok.mp h
          cases h
          exact ⟨pc, source, hwords, readNumber_ok.mp hpc, readNumber_ok.mp hsource⟩
      case h_2 => cases h

theorem listedIn_of_readLines {n : Nat} (h : readLines n lines = .ok entries) :
    ListedIn lines entries := by
  induction lines generalizing n entries with
  | nil =>
      cases h
      exact .nil
  | cons line lines ih =>
      obtain ⟨entry, rest, hentry, hrest, rfl⟩ := readLines_cons.mp h
      cases entry with
      | none => exact .skip (readLine?_none hentry) (ih hrest)
      | some e =>
          obtain ⟨hline, pc, source, hwords, hpc, hsource⟩ := readLine?_some hentry
          exact .entry hline hwords hpc hsource (ih hrest)

/-- The entry closest to a pc among entries in the order of the file. -/
structure IsClosest (entries : List TraceEntry) (pc : Int) (e : TraceEntry) : Prop where
  le : e.pc ≤ pc
  /-- No other pc is closer. -/
  greatest : ∀ o ∈ entries, o.pc ≤ pc → o.pc ≤ e.pc
  /-- No later entry has the same pc. -/
  latest : ∃ before after, entries = before ++ e :: after ∧ ∀ o ∈ after, o.pc ≠ e.pc

namespace IsClosest

variable {pc : Int} {e' : TraceEntry}

theorem mem (h : IsClosest entries pc e) : e ∈ entries := by
  obtain ⟨before, after, rfl, -⟩ := h.latest
  exact List.mem_append_right _ List.mem_cons_self

theorem unique (h : IsClosest entries pc e) (h' : IsClosest entries pc e') : e = e' := by
  have hpc : e.pc = e'.pc := Int.le_antisymm (h'.greatest e h.mem h.le) (h.greatest e' h'.mem h'.le)
  have hlast : ∀ {o : TraceEntry}, IsClosest entries pc o → o.pc = e.pc →
      (entries.filter fun x => x.pc = e.pc).getLast? = some o := by
    intro o ho hopc
    obtain ⟨before, after, rfl, hafter⟩ := ho.latest
    have hnone : after.filter (fun x => x.pc = e.pc) = [] := by
      simpa [hopc] using hafter
    rw [List.filter_append, List.filter_cons_of_pos (by simpa using hopc), hnone]
    exact List.getLast?_concat
  exact Option.some.inj ((hlast h rfl).symm.trans (hlast h' hpc.symm))

end IsClosest

end TraceEntry

namespace TraceTable

open TraceEntry

variable {entries : List TraceEntry} {pc : Int}

/-! ### Halving -/

/-- All indices below the one that is found fail the test and all from there on pass it, when
passing it once is passing it from there on. -/
theorem firstIndex_spec {holds : Nat → Bool} {low high : Nat} (hle : low ≤ high)
    (hmono : ∀ i j, i ≤ j → j < high → holds i = true → holds j = true) :
    firstIndex holds low high ≤ high ∧
      (∀ i, low ≤ i → i < firstIndex holds low high → holds i = false) ∧
      ∀ i, firstIndex holds low high ≤ i → i < high → holds i = true := by
  fun_induction firstIndex holds low high with
  | case1 low high hlt middle hmiddle ih =>
      obtain ⟨hbound, hbelow, habove⟩ :=
        ih (by omega) fun i j hij hj => hmono i j hij (by omega)
      refine ⟨by omega, hbelow, fun i hi hhigh => ?_⟩
      rcases Nat.lt_or_ge i middle with hi' | hi'
      · exact habove i hi hi'
      · exact hmono middle i hi' hhigh hmiddle
  | case2 low high hlt middle hmiddle ih =>
      obtain ⟨hbound, hbelow, habove⟩ := ih (by omega) hmono
      refine ⟨hbound, fun i hi hi' => ?_, habove⟩
      rcases Nat.lt_or_ge middle i with hge | hge
      · exact hbelow i hge hi'
      · exact Bool.eq_false_of_not_eq_true fun hholds =>
          hmiddle (hmono i middle hge (by omega) hholds)
  | case3 low high hge =>
      exact ⟨hle, fun i hi hi' => absurd hi' (by omega), fun i hi hi' => absurd hi' (by omega)⟩

/-- Sorted entries fall apart into those up to a pc and those after it, and what is looked up is the
last one of the first part. -/
theorem exists_lookup?_split (hsorted : entries.Pairwise fun a b => a.pc ≤ b.pc) (pc : Int) :
    ∃ upto beyond, entries = upto ++ beyond ∧ (∀ e ∈ upto, e.pc ≤ pc) ∧
      (∀ e ∈ beyond, pc < e.pc) ∧ lookup? ⟨entries⟩ pc = upto.getLast? := by
  have hpcs : ∀ i j (hi : i < entries.length) (hj : j < entries.length), i ≤ j →
      entries[i].pc ≤ entries[j].pc := by
    intro i j hi hj hij
    rcases Nat.eq_or_lt_of_le hij with rfl | hlt
    · exact Int.le_refl _
    · exact List.pairwise_iff_getElem.mp hsorted i j hi hj hlt
  let isAfter (i : Nat) : Bool := entries[i]?.any fun e => pc < e.pc
  have hafter : ∀ i (hi : i < entries.length), isAfter i = true ↔ pc < entries[i].pc := by
    intro i hi
    simp [isAfter, List.getElem?_eq_getElem hi]
  have hmono : ∀ i j, i ≤ j → j < entries.length → isAfter i = true → isAfter j = true := by
    intro i j hij hj hi
    have hle := hpcs i j (by omega) hj hij
    have hlt := (hafter i (by omega)).mp hi
    exact (hafter j hj).mpr (by omega)
  obtain ⟨hbound, hbelow, habove⟩ := firstIndex_spec (Nat.zero_le entries.length) hmono
  obtain ⟨k, hk⟩ : ∃ k, firstIndex isAfter 0 entries.length = k := ⟨_, rfl⟩
  rw [hk] at hbound hbelow habove
  refine ⟨entries.take k, entries.drop k, (List.take_append_drop _ _).symm, ?_, ?_, ?_⟩
  · intro e he
    obtain ⟨i, hi, rfl⟩ := List.mem_iff_getElem.mp he
    rw [List.length_take] at hi
    rw [List.getElem_take]
    have hnot := hbelow i (Nat.zero_le i) (by omega)
    exact Int.not_lt.mp fun hlt => Bool.false_ne_true (hnot ▸ (hafter i (by omega)).mpr hlt)
  · intro e he
    obtain ⟨i, hi, rfl⟩ := List.mem_iff_getElem.mp he
    rw [List.length_drop] at hi
    rw [List.getElem_drop]
    exact (hafter _ (by omega)).mp (habove _ (Nat.le_add_right k i) (by omega))
  · rw [lookup?]
    change firstIndex (fun i => entries[i]?.any fun e => pc < e.pc) 0 entries.length = k at hk
    rw [hk]
    cases k with
    | zero => rfl
    | succ i =>
        show entries[i]? = _
        rw [List.getLast?_take, if_neg (Nat.succ_ne_zero i), Nat.add_sub_cancel,
          List.getElem?_eq_getElem hbound, Option.some_or]

/-! ### The closest entry -/

/-- What is looked up in the sorted entries is closest among the entries as they were before. -/
theorem isClosest_of_lookup? {e : TraceEntry}
    (h : lookup? ⟨entries.mergeSort fun a b => a.pc ≤ b.pc⟩ pc = some e) :
    IsClosest entries pc e := by
  have hsorted := pairwise_mergeSort_key TraceEntry.pc entries
  obtain ⟨upto, beyond, hsplit, hupto, hbeyond, hlookup⟩ := exists_lookup?_split hsorted pc
  obtain ⟨front, rfl⟩ := List.getLast?_eq_some_iff.mp (hlookup.symm.trans h)
  have hle : e.pc ≤ pc := hupto e (by simp)
  refine ⟨hle, fun o ho hopc => ?_, ?_⟩
  · have hmem : o ∈ front ++ [e] ++ beyond := hsplit ▸ List.mem_mergeSort.mpr ho
    rw [hsplit, List.append_assoc] at hsorted
    rcases List.mem_append.mp hmem with hmem | hmem
    · rcases List.mem_append.mp hmem with hmem | hmem
      · exact (List.pairwise_append.mp hsorted).2.2 o hmem e (by simp)
      · exact (List.mem_singleton.mp hmem) ▸ Int.le_refl _
    · exact absurd (hbeyond o hmem) (by omega)
  · -- The entries of this pc stand in the file as they do in the sorted entries, where `e` is last.
    have hnone : beyond.filter (fun o => o.pc = e.pc) = [] := by
      rw [List.filter_eq_nil_iff]
      intro o ho
      have := hbeyond o ho
      simpa using (by omega : o.pc ≠ e.pc)
    have hsame := filter_mergeSort_key TraceEntry.pc entries e.pc
    rw [hsplit, List.filter_append, List.filter_append, hnone, List.append_nil,
      List.filter_cons_of_pos (by simp), List.filter_nil] at hsame
    obtain ⟨before, rest, hentries, -, hrest⟩ := List.filter_eq_append_iff.mp hsame.symm
    obtain ⟨between, after, rfl, -, -, hafter⟩ := List.filter_eq_cons_iff.mp hrest
    refine ⟨before ++ between, after, by rw [hentries, List.append_assoc], fun o ho hopc => ?_⟩
    exact absurd (decide_eq_true hopc) (List.filter_eq_nil_iff.mp hafter o ho)

theorem lookup?_eq_none :
    lookup? ⟨entries.mergeSort fun a b => a.pc ≤ b.pc⟩ pc = none ↔ ∀ e ∈ entries, pc < e.pc := by
  obtain ⟨upto, beyond, hsplit, hupto, hbeyond, hlookup⟩ :=
    exists_lookup?_split (pairwise_mergeSort_key TraceEntry.pc entries) pc
  have hmem : ∀ e, e ∈ entries ↔ e ∈ upto ∨ e ∈ beyond := fun e => by
    rw [← List.mem_append, ← hsplit, List.mem_mergeSort]
  rw [hlookup, List.getLast?_eq_none_iff]
  constructor
  · rintro rfl e he
    exact hbeyond e (((hmem e).mp he).resolve_left List.not_mem_nil)
  · intro hall
    refine List.eq_nil_iff_forall_not_mem.mpr fun e he => ?_
    exact Int.not_lt.mpr (hupto e he) (hall e ((hmem e).mpr (.inl he)))

/-- A trace that is read lists its entries on its lines, in any order and with any pcs, none of its
lines being left out. What is looked up for a pc is the entry closest to it, and there is none exactly
if all entries are after the pc. -/
theorem lookup?_closest {t : Text} {table : TraceTable} (h : read t = .ok table) :
    ∃ entries, ListedIn ((Text.rawLines t).map Text.dropReturn) entries ∧ ∀ pc,
      (∀ e, table.lookup? pc = some e ↔ IsClosest entries pc e) ∧
      (table.lookup? pc = none ↔ ∀ e ∈ entries, pc < e.pc) := by
  have hfits := (of_read h).1
  unfold read at h
  obtain ⟨entries, hentries, h⟩ := except_bind_ok.mp h
  rw [hfits] at h
  cases h
  refine ⟨entries, ?_, fun pc => ⟨fun e => ⟨isClosest_of_lookup?, fun hclosest => ?_⟩,
    lookup?_eq_none⟩⟩
  · rw [← Text.lines_of_fits hfits]
    exact listedIn_of_readLines hentries
  · cases hlookup : lookup? ⟨entries.mergeSort fun a b => a.pc ≤ b.pc⟩ pc with
    | none => exact absurd (lookup?_eq_none.mp hlookup e hclosest.mem) (Int.not_lt.mpr hclosest.le)
    | some e' => rw [(isClosest_of_lookup? hlookup).unique hclosest]

/-- A trace whose entries are not in order, with pcs that are repeated or negative. -/
def tangledTrace : Text :=
  "7 1 a()V\n:: PC SourceLine Method\n-3 2 b()V\n\n7 9 c()V\n -3 4 d()V\r\n+0 5 e()V"

theorem lookup?_closest_tangled : ∃ table, read tangledTrace = .ok table ∧
    ∃ entries, ListedIn ((Text.rawLines tangledTrace).map Text.dropReturn) entries ∧ ∀ pc,
      (∀ e, table.lookup? pc = some e ↔ IsClosest entries pc e) ∧
      (table.lookup? pc = none ↔ ∀ e ∈ entries, pc < e.pc) := by
  have hentries : TraceEntry.readLines 1 (Text.readLines tangledTrace).lines = .ok
      [⟨7, 1, "a()V"⟩, ⟨-3, 2, "b()V"⟩, ⟨7, 9, "c()V"⟩, ⟨-3, 4, "d()V"⟩, ⟨0, 5, "e()V"⟩] := by
    decide +kernel
  have hread : read tangledTrace = .ok ⟨List.mergeSort
      [⟨7, 1, "a()V"⟩, ⟨-3, 2, "b()V"⟩, ⟨7, 9, "c()V"⟩, ⟨-3, 4, "d()V"⟩, ⟨0, 5, "e()V"⟩]
      fun a b => a.pc ≤ b.pc⟩ := by
    rw [read, hentries]
    rfl
  exact ⟨_, hread, lookup?_closest hread⟩

end TraceTable

end ClassLinker
