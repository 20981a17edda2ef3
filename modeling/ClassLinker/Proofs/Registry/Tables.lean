import ClassLinker.Proofs.Registry.Prune

/-! Member tables. The table of a class has one entry for every distinct target and link id among its
member references, in the order of their first occurrence, and every member reference knows the
place of its entry. -/

namespace ClassLinker

/-- What tells member references apart: the target class and the link id. -/
def Reference.key? (ref : Reference) : Option (Option Nat × Option Nat) :=
  match ref.body with
  | .memberRef _ target _ link _ => some (target, link)
  | _ => none

theorem Reference.key?_eq_some {ref : Reference} {target link : Option Nat} :
    ref.key? = some (target, link) ↔ ∃ m declaring index,
      ref.body = .memberRef m target declaring link index := by
  unfold key?
  cases hbody : ref.body <;> simp

namespace Registry

/-- What the tables of a list of references hold. -/
structure Tables.Of (refs : List (Nat × Reference)) (t : Tables) : Prop where
  nodup : (t.table.map Prod.snd).Nodup
  listed : ∀ {pos ref key}, (pos, ref) ∈ refs → ref.key? = some key →
    ∃ index p, (pos, ref.slot, index) ∈ t.entries ∧ t.table[index]? = some (p, key)
  entry : ∀ {pos slot index}, (pos, slot, index) ∈ t.entries → ∃ ref key p, (pos, ref) ∈ refs ∧
    ref.slot = slot ∧ ref.key? = some key ∧ t.table[index]? = some (p, key)
  /-- An entry of the table is the first reference with its key. -/
  first : ∀ {index p key}, t.table[index]? = some (p, key) → ∃ ref before after,
    refs = before ++ (p, ref) :: after ∧ ref.key? = some key ∧ (p, ref.slot, index) ∈ t.entries ∧
    ∀ q ∈ before, q.2.key? ≠ some key
  sublist : (t.table.map Prod.fst).Sublist (refs.map Prod.fst)
  entries_sublist : (t.entries.map fun e => (e.1, e.2.1)).Sublist
    (refs.map fun p => (p.1, p.2.slot))

theorem Tables.Of.empty : Tables.Of [] {} := by
  constructor <;> simp

theorem Tables.add_of_none {t : Tables} {pos : Nat} {ref : Reference} (h : ref.key? = none) :
    t.add pos ref = t := by
  unfold Reference.key? at h
  unfold add
  split
  · rename_i hbody
    rw [hbody] at h
    cases h
  · rfl

theorem Tables.add_of_some {t : Tables} {pos : Nat} {ref : Reference}
    {key : Option Nat × Option Nat} (h : ref.key? = some key) : t.add pos ref =
      match t.table.findIdx? fun e => e.2 = key with
      | some index => { t with entries := t.entries ++ [(pos, ref.slot, index)] }
      | none =>
        { table := t.table ++ [(pos, key)]
          entries := t.entries ++ [(pos, ref.slot, t.table.length)] } := by
  obtain ⟨target, link⟩ := key
  obtain ⟨m, declaring, index, hbody⟩ := Reference.key?_eq_some.mp h
  unfold add
  generalize ref.body = body at hbody ⊢
  subst hbody
  rfl

/-- One more reference. What it adds to the tables is its own entry, and a row of the table only if
no earlier reference has its key. -/
theorem Tables.Of.extend {refs : List (Nat × Reference)} {t : Tables} (h : Tables.Of refs t)
    {pos : Nat} {ref : Reference} (rows : List (Nat × (Option Nat × Option Nat)))
    (entries : List (Nat × Int × Nat)) (hnodup : ((t.table ++ rows).map Prod.snd).Nodup)
    (hlisted : ∀ {key}, ref.key? = some key → ∃ index p, (pos, ref.slot, index) ∈ entries ∧
      (t.table ++ rows)[index]? = some (p, key))
    (hentry : ∀ e ∈ entries, e.1 = pos ∧ ref.slot = e.2.1 ∧
      ∃ key q, ref.key? = some key ∧ (t.table ++ rows)[e.2.2]? = some (q, key))
    (hfirst : ∀ {i p key}, rows[i]? = some (p, key) → p = pos ∧ ref.key? = some key ∧
      (pos, ref.slot, t.table.length + i) ∈ entries ∧ ∀ q ∈ refs, q.2.key? ≠ some key)
    (hrows : (rows.map Prod.fst).Sublist [pos])
    (hentries : (entries.map fun e => (e.1, e.2.1)).Sublist [(pos, ref.slot)]) :
    Tables.Of (refs ++ [(pos, ref)])
      { table := t.table ++ rows, entries := t.entries ++ entries } := by
  have hold : ∀ {i : Nat} {p key}, t.table[i]? = some (p, key) →
      (t.table ++ rows)[i]? = some (p, key) := by
    intro i p key hi
    rw [List.getElem?_append_left (List.getElem?_eq_some_iff.mp hi).1, hi]
  constructor
  case nodup => exact hnodup
  case listed =>
    intro p ref' key hmem hkey
    rcases List.mem_append.mp hmem with hmem | hmem
    · obtain ⟨i, q, hi, hq⟩ := h.listed hmem hkey
      exact ⟨i, q, List.mem_append_left _ hi, hold hq⟩
    · cases List.mem_singleton.mp hmem
      obtain ⟨i, q, hi, hq⟩ := hlisted hkey
      exact ⟨i, q, List.mem_append_right _ hi, hq⟩
  case entry =>
    intro p slot i hmem
    rcases List.mem_append.mp hmem with hmem | hmem
    · obtain ⟨ref', key, q, hmem', hslot, hkey, hq⟩ := h.entry hmem
      exact ⟨ref', key, q, List.mem_append_left _ hmem', hslot, hkey, hold hq⟩
    · obtain ⟨rfl, hslot, key, q, hkey, hq⟩ := hentry _ hmem
      exact ⟨ref, key, q, List.mem_append_right _ (List.mem_singleton.mpr rfl), hslot, hkey, hq⟩
  case first =>
    intro i p key hi
    by_cases hlt : i < t.table.length
    · rw [List.getElem?_append_left hlt] at hi
      obtain ⟨ref', before, after, rfl, hkey, hmem, hbefore⟩ := h.first hi
      exact ⟨ref', before, after ++ [(pos, ref)], by simp, hkey, List.mem_append_left _ hmem,
        hbefore⟩
    · rw [List.getElem?_append_right (Nat.le_of_not_lt hlt)] at hi
      obtain ⟨rfl, hkey, hmem, hbefore⟩ := hfirst hi
      rw [Nat.add_sub_cancel' (Nat.le_of_not_lt hlt)] at hmem
      exact ⟨ref, refs, [], rfl, hkey, List.mem_append_right _ hmem, hbefore⟩
  case sublist =>
    rw [List.map_append, List.map_append]
    exact h.sublist.append hrows
  case entries_sublist =>
    rw [List.map_append, List.map_append]
    exact h.entries_sublist.append hentries

theorem Tables.Of.add {refs : List (Nat × Reference)} {t : Tables} (h : Tables.Of refs t)
    (pos : Nat) (ref : Reference) : Tables.Of (refs ++ [(pos, ref)]) (t.add pos ref) := by
  cases hkey : ref.key? with
  | none =>
      rw [Tables.add_of_none hkey]
      have hextend : Tables.Of (refs ++ [(pos, ref)])
          { table := t.table ++ [], entries := t.entries ++ [] } :=
        h.extend [] [] (by simpa using h.nodup) (by simp [hkey]) (by simp) (by simp) (by simp)
          (by simp)
      simpa only [List.append_nil] using hextend
  | some key =>
      rw [Tables.add_of_some hkey]
      cases hfind : t.table.findIdx? fun e => e.2 = key with
      | some index =>
          obtain ⟨hlt, heq, -⟩ := List.findIdx?_eq_some_iff_getElem.mp hfind
          have hrow : (t.table ++ [])[index]? = some (t.table[index].1, key) := by
            rw [List.append_nil, List.getElem?_eq_getElem hlt]
            exact congrArg some (Prod.ext rfl (of_decide_eq_true heq))
          have hextend : Tables.Of (refs ++ [(pos, ref)])
              { table := t.table ++ [], entries := t.entries ++ [(pos, ref.slot, index)] } := by
            refine h.extend [] _ (by simpa using h.nodup) (fun hkey' => ?_)
              (List.forall_mem_singleton.mpr ⟨rfl, rfl, key, _, hkey, hrow⟩) (by simp) (by simp)
              (by simp)
            cases hkey.symm.trans hkey'
            exact ⟨index, _, List.mem_singleton.mpr rfl, hrow⟩
          simpa only [List.append_nil] using hextend
      | none =>
          have hnew : ∀ e ∈ t.table, e.2 ≠ key := by
            intro e he
            simpa using List.findIdx?_eq_none_iff.mp hfind e he
          have hrow : (t.table ++ [(pos, key)])[t.table.length]? = some (pos, key) := by simp
          refine h.extend _ _ ?_ (fun hkey' => ?_)
            (List.forall_mem_singleton.mpr ⟨rfl, rfl, key, _, hkey, hrow⟩) (fun hi => ?_) (by simp)
            (by simp)
          · rw [List.map_append, List.nodup_append]
            refine ⟨h.nodup, by simp, ?_⟩
            intro a ha b hb heq
            obtain ⟨e, he, rfl⟩ := List.mem_map.mp ha
            exact hnew e he (heq.trans (List.mem_singleton.mp hb))
          · cases hkey.symm.trans hkey'
            exact ⟨_, _, List.mem_singleton.mpr rfl, hrow⟩
          · rw [List.getElem?_singleton, Option.ite_none_right_eq_some] at hi
            obtain ⟨rfl, heq⟩ := hi
            cases heq
            refine ⟨rfl, hkey, List.mem_singleton.mpr rfl, ?_⟩
            -- An earlier reference with this key would have an entry.
            intro q hq hkq
            obtain ⟨j, p, -, hj⟩ := h.listed hq hkq
            exact hnew _ (List.mem_of_getElem? hj) rfl

theorem Tables.Of.foldl {done refs : List (Nat × Reference)} {t : Tables} (h : Tables.Of done t) :
    Tables.Of (done ++ refs) (refs.foldl (fun t p => t.add p.1 p.2) t) := by
  induction refs generalizing done t with
  | nil =>
      rw [List.append_nil]
      exact h
  | cons p refs ih =>
      rw [List.append_cons]
      exact ih (h.add p.1 p.2)

/-- Writing the compacted slots into a pool. -/
theorem getElem?_setIndices {entries : List (Nat × Int × Nat)} (pool : Array Reference)
    (hnodup : (entries.map Prod.fst).Nodup) :
    (∀ {pos slot index}, (pos, slot, index) ∈ entries →
      (entries.foldl (fun pool e => pool.modify e.1 (setIndex e.2.2)) pool)[pos]? =
        (pool[pos]?).map (setIndex index)) ∧
    ∀ {pos : Nat}, pos ∉ entries.map Prod.fst →
      (entries.foldl (fun pool e => pool.modify e.1 (setIndex e.2.2)) pool)[pos]? = pool[pos]? := by
  induction entries generalizing pool with
  | nil => exact ⟨fun hmem => (by cases hmem), fun _ => rfl⟩
  | cons e entries ih =>
      rw [List.map_cons, List.nodup_cons] at hnodup
      obtain ⟨hin, hout⟩ := ih (pool.modify e.1 (setIndex e.2.2)) hnodup.2
      refine ⟨?_, ?_⟩
      · intro pos slot index hmem
        rw [List.foldl_cons]
        rcases List.mem_cons.mp hmem with rfl | hmem
        · rw [hout hnodup.1, Array.getElem?_modify, if_pos rfl]
        · have hne : e.1 ≠ pos := by
            rintro rfl
            exact hnodup.1 (List.mem_map.mpr ⟨_, hmem, rfl⟩)
          rw [hin hmem, Array.getElem?_modify, if_neg hne]
      · intro pos hpos
        rw [List.map_cons, List.mem_cons, not_or] at hpos
        rw [List.foldl_cons, hout hpos.2, Array.getElem?_modify, if_neg (Ne.symm hpos.1)]

theorem size_setIndices (entries : List (Nat × Int × Nat)) (pool : Array Reference) :
    (entries.foldl (fun pool e => pool.modify e.1 (setIndex e.2.2)) pool).size = pool.size := by
  induction entries generalizing pool with
  | nil => rfl
  | cons e entries ih => rw [List.foldl_cons, ih, Array.size_modify]

/-- `c'` is `c` with its member table. -/
structure Tabled (c c' : Class) : Prop where
  frame : c' = { c with
    table := c'.table, forwarding := c'.forwarding, pool := c'.pool }
  size_eq : c'.pool.size = c.pool.size
  /-- A member reference knows the place of the entry with its key. -/
  member : ∀ {pos ref key}, (pos, ref) ∈ c.references → ref.key? = some key →
    ∃ index p first, c'.pool[pos]? = some (setIndex index ref) ∧ c'.table[index]? = some p ∧
      c'.forwarding.lookup ref.slot = some p ∧ (p, first) ∈ c.references ∧
      first.key? = some key ∧ c'.pool[p]? = some (setIndex index first)
  forwarded : ∀ {slot p}, c'.forwarding.lookup slot = some p →
    ∃ pos ref key, (pos, ref) ∈ c.references ∧ ref.slot = slot ∧ ref.key? = some key
  other : ∀ {pos : Nat}, (∀ ref, (pos, ref) ∈ c.references → ref.key? = none) →
    c'.pool[pos]? = c.pool[pos]?
  /-- An entry is the first reference with its key. -/
  entry : ∀ {index : Nat} {p}, c'.table[index]? = some p → ∃ ref key before after,
    c.references = before ++ (p, ref) :: after ∧ ref.key? = some key ∧
    c'.pool[p]? = some (setIndex index ref) ∧ ∀ q ∈ before, q.2.key? ≠ some key
  distinct : ∀ {i j : Nat} {p q ref ref'}, c'.table[i]? = some p → c'.table[j]? = some q →
    (p, ref) ∈ c.references → (q, ref') ∈ c.references → ref.key? = ref'.key? → i = j
  sublist : c'.table.Sublist (c.references.map Prod.fst)

namespace Tables.Of

variable {c : Class} {t : Tables}

theorem positions_nodup (h : Tables.Of c.references t) (hlisted : c.listed.Nodup) :
    (t.entries.map Prod.fst).Nodup := by
  have hsub := h.entries_sublist.map Prod.fst
  rw [List.map_map, List.map_map] at hsub
  exact hsub.nodup (references_nodup hlisted)

theorem slots_nodup (h : Tables.Of c.references t)
    (hslots : (c.references.map fun p => p.2.slot).Nodup) (place : Nat → Nat) :
    ((t.entries.map fun e => (e.2.1, place e.2.2)).reverse.map Prod.fst).Nodup := by
  have hsub := h.entries_sublist.map Prod.snd
  rw [List.map_map, List.map_map] at hsub
  rw [List.map_reverse, List.nodup_reverse, List.map_map]
  exact hsub.nodup hslots

/-- The reference at an entry has its key. -/
theorem key_eq (h : Tables.Of c.references t) {index p : Nat} {key : Option Nat × Option Nat}
    {ref : Reference} (htab : t.table[index]? = some (p, key)) (hmem : (p, ref) ∈ c.references) :
    ref.key? = some key := by
  obtain ⟨first, before, after, hsplit, hkey, -⟩ := h.first htab
  have hfirst : (p, first) ∈ c.references := by
    rw [hsplit]
    exact List.mem_append_right _ List.mem_cons_self
  cases (Class.mem_references.mp hmem).2.symm.trans (Class.mem_references.mp hfirst).2
  exact hkey

/-- Entries with the same key are the same. -/
theorem index_inj {refs : List (Nat × Reference)} (h : Tables.Of refs t) {i j p q : Nat} {key : Option Nat × Option Nat}
    (hi : t.table[i]? = some (p, key)) (hj : t.table[j]? = some (q, key)) : i = j := by
  have hsame : (t.table.map Prod.snd)[i]? = (t.table.map Prod.snd)[j]? := by
    rw [List.getElem?_map, List.getElem?_map, hi, hj]
    rfl
  have hbound : i < (t.table.map Prod.snd).length := by
    rw [List.length_map]
    exact (List.getElem?_eq_some_iff.mp hi).1
  exact (List.getElem?_inj hbound h.nodup).mp hsame

end Tables.Of

theorem buildTable_tabled {c : Class} (hlisted : c.listed.Nodup)
    (hslots : (c.references.map fun p => p.2.slot).Nodup) : Tabled c (buildTable c) := by
  have hof : Tables.Of c.references (c.references.foldl (fun t p => t.add p.1 p.2) {}) :=
    Tables.Of.foldl Tables.Of.empty
  have hbuild : buildTable c = { c with
      table := (c.references.foldl (fun t p => t.add p.1 p.2) ({} : Tables)).table.map Prod.fst
      forwarding := ((c.references.foldl (fun t p => t.add p.1 p.2) ({} : Tables)).entries.map
        fun e => (e.2.1, ((c.references.foldl (fun t p => t.add p.1 p.2)
          ({} : Tables)).table.map Prod.fst).getD e.2.2 0)).reverse
      pool := (c.references.foldl (fun t p => t.add p.1 p.2) ({} : Tables)).entries.foldl
        (fun pool e => pool.modify e.1 (setIndex e.2.2)) c.pool } := rfl
  rw [hbuild]
  generalize c.references.foldl (fun t p => t.add p.1 p.2) ({} : Tables) = t at hof
  have hkeys := hof.slots_nodup hslots fun index => (t.table.map Prod.fst).getD index 0
  obtain ⟨hset, hsame⟩ := getElem?_setIndices c.pool (hof.positions_nodup hlisted)
  have hpool : ∀ {pos ref index slot}, (pos, ref) ∈ c.references → (pos, slot, index) ∈ t.entries →
      (t.entries.foldl (fun pool e => pool.modify e.1 (setIndex e.2.2)) c.pool)[pos]? =
        some (setIndex index ref) := by
    intro pos ref index slot hmem hentry
    rw [hset hentry, (Class.mem_references.mp hmem).2, Option.map_some]
  have htable : ∀ {index : Nat} {p}, (t.table.map Prod.fst)[index]? = some p →
      ∃ key, t.table[index]? = some (p, key) := by
    intro index p hp
    rw [List.getElem?_map] at hp
    obtain ⟨⟨p', key⟩, he, rfl⟩ := Option.map_eq_some_iff.mp hp
    exact ⟨key, he⟩
  constructor
  case frame => rfl
  case size_eq => exact size_setIndices _ _
  case sublist => exact hof.sublist
  case member =>
    intro pos ref key hmem hkey
    obtain ⟨index, p, hentry, htab⟩ := hof.listed hmem hkey
    obtain ⟨first, before, after, hsplit, hfirst, hfirstEntry, -⟩ := hof.first htab
    have hp : (t.table.map Prod.fst)[index]? = some p := by
      rw [List.getElem?_map, htab, Option.map_some]
    have hmemFirst : (p, first) ∈ c.references := by
      rw [hsplit]
      exact List.mem_append_right _ List.mem_cons_self
    refine ⟨index, p, first, hpool hmem hentry, hp, ?_, hmemFirst, hfirst,
      hpool hmemFirst hfirstEntry⟩
    rw [lookup_eq_some_of_nodup hkeys, List.mem_reverse]
    refine List.mem_map.mpr ⟨_, hentry, ?_⟩
    rw [List.getD_eq_getElem?_getD, hp, Option.getD_some]
  case forwarded =>
    intro slot p hlookup
    rw [lookup_eq_some_of_nodup hkeys, List.mem_reverse] at hlookup
    obtain ⟨⟨pos, slot, index⟩, hentry, heq⟩ := List.mem_map.mp hlookup
    cases heq
    obtain ⟨ref, key, -, hmem, hslot, hkey, -⟩ := hof.entry hentry
    exact ⟨pos, ref, key, hmem, hslot, hkey⟩
  case other =>
    intro pos hnone
    refine hsame fun hmem => ?_
    obtain ⟨⟨pos', slot, index⟩, hentry, rfl⟩ := List.mem_map.mp hmem
    obtain ⟨ref, key, p, href, -, hkey, -⟩ := hof.entry hentry
    rw [hnone ref href] at hkey
    cases hkey
  case entry =>
    intro index p hp
    obtain ⟨key, htab⟩ := htable hp
    obtain ⟨ref, before, after, hsplit, hkey, hentry, hbefore⟩ := hof.first htab
    have hmem : (p, ref) ∈ c.references := by
      rw [hsplit]
      exact List.mem_append_right _ List.mem_cons_self
    exact ⟨ref, key, before, after, hsplit, hkey, hpool hmem hentry, hbefore⟩
  case distinct =>
    intro i j p q ref ref' hi hj hmem hmem' hkey
    obtain ⟨key, hi⟩ := htable hi
    obtain ⟨key', hj⟩ := htable hj
    rw [hof.key_eq hi hmem, hof.key_eq hj hmem'] at hkey
    cases hkey
    exact hof.index_inj hi hj

end Registry

end ClassLinker
