import Mathlib.Data.List.Sort
import ClassLinker.Proofs.Closure.Reliable
import ClassLinker.Proofs.Registry.Survivors

/-! Links that hold the same. Two finished links inside each other have the same classes, whose
members and references are kept alike, and the same catalog entries; so all their counts agree,
whatever rows and ids the classes have. -/

namespace ClassLinker

/-- Things that are told apart by a key pass at most as often as things among which each that passes
has one with its key that passes. -/
theorem countP_le_of_keys {α β κ : Type} {xs : List α} {ys : List β} {p : α → Bool} {q : β → Bool}
    (key : α → κ) (key' : β → κ) (hnodup : (xs.map key).Nodup)
    (h : ∀ x ∈ xs, p x = true → ∃ y ∈ ys, key' y = key x ∧ q y = true) :
    xs.countP p ≤ ys.countP q := by
  have hsub : (xs.filter p).map key ⊆ (ys.filter q).map key' := by
    intro k hk
    obtain ⟨x, hx, rfl⟩ := List.mem_map.mp hk
    obtain ⟨hmem, hp⟩ := List.mem_filter.mp hx
    obtain ⟨y, hy, hkey, hq⟩ := h x hmem hp
    exact List.mem_map.mpr ⟨y, List.mem_filter.mpr ⟨hy, hq⟩, hkey⟩
  have hnodup' : ((xs.filter p).map key).Nodup := hnodup.sublist (List.filter_sublist.map key)
  simpa [List.countP_eq_length_filter] using (List.subperm_of_subset hnodup' hsub).length_le

/-- A class keeps a member that it declares. -/
def Class.Keeps (c : Class) (sig : Signature) : Prop :=
  ∃ d, c.declared? sig = some d ∧ d.kept = true

/-- What is known at a slot is the reference of that slot. -/
theorem Class.Indexed.known?_iff {c : Class} (h : c.Indexed) {slot : Int} {pos : Nat}
    {ref : Reference} :
    c.known? slot = some (pos, ref) ↔ (pos, ref) ∈ c.references ∧ ref.slot = slot := by
  rw [Class.known?_eq_some, h.lookup_iff, Class.mem_references]
  constructor
  · rintro ⟨⟨hlisted, ref', href', rfl⟩, href⟩
    cases href.symm.trans href'
    exact ⟨⟨hlisted, href⟩, rfl⟩
  · rintro ⟨⟨hlisted, href⟩, rfl⟩
    exact ⟨⟨hlisted, ref, href, rfl⟩, href⟩

/-- The classes are listed in their rows. -/
theorem Registry.Tidy.map_classes {r : Registry} (h : r.Tidy) :
    r.classes.map Prod.snd = r.rows.toList := by
  have hclasses : r.classes.map Prod.snd = (List.range r.rows.size).filterMap r.classAt? := by
    rw [classes, h.live_eq, List.map_filterMap]
    exact List.filterMap_congr fun row _ => by simp
  rw [hclasses]
  refine List.ext_getElem? fun i => ?_
  rw [getElem?_filterMap_of_isSome (fun row hrow => ?_) i]
  · by_cases hi : i < r.rows.size
    · rw [List.getElem?_range hi, Option.bind_some, classAt?, Array.getElem?_toList]
    · simp [hi]
  · obtain ⟨c, hc⟩ := exists_classAt? (List.mem_range.mp hrow)
    rw [hc]
    rfl

/-- When every class is kept, the kept classes are all the classes. -/
theorem Registry.Tidy.map_keptClasses {r : Registry} (h : r.Tidy)
    (hkept : ∀ {row c}, r.classAt? row = some c → c.kept = true) :
    r.keptClasses.map Prod.snd = r.rows.toList := by
  have hall : r.keptClasses = r.classes := by
    refine List.filter_eq_self.mpr fun x hx => ?_
    obtain ⟨row, -, hrow⟩ := List.mem_filterMap.mp hx
    obtain ⟨c, hc, rfl⟩ := Option.map_eq_some_iff.mp hrow
    exact hkept hc
  rw [hall, h.map_classes]

namespace Closure

open Registry Linker

/-- Two links of one source that hold the same. -/
structure Agree (s : Source) (l l' : Linker) : Prop where
  settled : Settled s l
  settled' : Settled s l'
  counted : l.Counted
  counted' : l'.Counted
  noArrays : s.NoArrays
  root_eq : l'.root = l.root
  holds_iff : ∀ {x}, (∀ m, x ≠ .lookup m) → (l.Holds x ↔ l'.Holds x)

variable {s : Source} {l l' : Linker}

/-- Links inside each other hold the same. -/
theorem agree_of_inside (hnames : s.NoArrays) (h : Ready s l' l) (h' : Ready s l l') :
    Agree s l l' where
  settled := h.settled
  settled' := h'.settled
  counted := h.counted
  counted' := h'.counted
  noArrays := hnames
  root_eq := h'.inside.root_eq
  holds_iff hlookup := ⟨within_of_holds h.settled.wired h.inside.within hlookup,
    within_of_holds h'.settled.wired h'.inside.within hlookup⟩

namespace Agree

theorem symm (h : Agree s l l') : Agree s l' l :=
  ⟨h.settled', h.settled, h.counted', h.counted, h.noArrays, h.root_eq.symm, fun hx =>
    (h.holds_iff hx).symm⟩

theorem alike (h : Agree s l l') : l.registry.Alike l'.registry :=
  h.settled.wired.alike h.settled'.wired h.noArrays h.root_eq

theorem has_iff (h : Agree s l l') {name : Text} : l.Has name ↔ l'.Has name :=
  h.holds_iff (x := .cls name) (by simp)

theorem builtins_eq (h : Agree s l l') : l'.builtins = l.builtins :=
  h.counted'.sorted.eq_of_mem_iff h.counted.sorted fun id =>
    (h.holds_iff (x := .builtin id) (by simp)).symm

section

variable {p q : Nat} {c c' : Class}

theorem exists_class (h : Agree s l l') (hc : l.registry.classAt? p = some c) :
    ∃ q c', l'.registry.classAt? q = some c' ∧ c'.name = c.name := by
  obtain ⟨q, hq⟩ := h.has_iff.mp ⟨p, h.settled.wired.tidy.find_self hc⟩
  obtain ⟨c', hc', hname⟩ := h.settled'.wired.tidy.exists_class hq
  exact ⟨q, c', hc', hname⟩

theorem class_alike (h : Agree s l l') (hc : l.registry.classAt? p = some c)
    (hc' : l'.registry.classAt? q = some c') (hname : c'.name = c.name) : c.Alike c' :=
  h.alike.classes (h.settled.wired.tidy.find_self hc) hc
    (hname ▸ h.settled'.wired.tidy.find_self hc') hc'

/-- Classes of one name keep the same members. -/
theorem keeps (h : Agree s l l') (hc : l.registry.classAt? p = some c)
    (hc' : l'.registry.classAt? q = some c') (hname : c'.name = c.name) {sig : Signature}
    {d : Declaration} (hd : c.declared? sig = some d) (hkept : d.kept = true) :
    ∃ d', c'.declared? sig = some d' ∧ d.Alike d' ∧ d'.kept = true := by
  have hholds : l.Holds (.member c.name sig) :=
    ⟨p, h.settled.wired.tidy.find_self hc, c, d, hc, hd, hkept⟩
  obtain ⟨q', hq', c₁, d', hc₁, hd', hkept'⟩ := (h.holds_iff (by simp)).mp hholds
  cases (hname ▸ h.settled'.wired.tidy.find_self hc').symm.trans hq'
  cases hc'.symm.trans hc₁
  have hrel := (h.class_alike hc hc' hname).declared? sig
  rw [hd, hd'] at hrel
  obtain ⟨d₁, hd₁, halike⟩ := rel_some hrel
  cases hd₁
  exact ⟨d', hd', halike, hkept'⟩

theorem keeps_iff (h : Agree s l l') (hc : l.registry.classAt? p = some c)
    (hc' : l'.registry.classAt? q = some c') (hname : c'.name = c.name) {sig : Signature} :
    c.Keeps sig ↔ c'.Keeps sig := by
  constructor
  · rintro ⟨d, hd, hkept⟩
    obtain ⟨d', hd', -, hkept'⟩ := h.keeps hc hc' hname hd hkept
    exact ⟨d', hd', hkept'⟩
  · rintro ⟨d, hd, hkept⟩
    obtain ⟨d', hd', -, hkept'⟩ := h.symm.keeps hc' hc hname.symm hd hkept
    exact ⟨d', hd', hkept'⟩

/-- Classes of one name keep the same references, in the same places. -/
theorem keepsRef (h : Agree s l l') (hc : l.registry.classAt? p = some c)
    (hc' : l'.registry.classAt? q = some c') (hname : c'.name = c.name) {pos : Nat}
    {ref : Reference} (hmem : (pos, ref) ∈ c.references) (hkept : ref.kept = true) :
    ∃ ref', (pos, ref') ∈ c'.references ∧ ref'.kept = true ∧ ref'.slot = ref.slot ∧
      ref'.body = ref.body := by
  have hw := h.settled.wired.tidy
  have hw' := h.settled'.wired.tidy
  have hknown := (hw.indexed hc).known?_iff.mpr ⟨hmem, rfl⟩
  have hholds : l.Holds (.ref c.name ref.slot) :=
    ⟨ref, reference?_eq_some.mpr ⟨p, c, pos, hw.find_self hc, hc, hknown⟩, hkept⟩
  obtain ⟨ref', href', hkept'⟩ := (h.holds_iff (by simp)).mp hholds
  obtain ⟨q', c₁, pos', hq', hc₁, hknown'⟩ := reference?_eq_some.mp href'
  cases (hname ▸ hw'.find_self hc').symm.trans hq'
  cases hc'.symm.trans hc₁
  obtain ⟨ref'', hknown'', hslot, hbody⟩ := (h.class_alike hc hc' hname).known hknown
  cases hknown'.symm.trans hknown''
  exact ⟨ref', ((hw'.indexed hc').known?_iff.mp hknown').1, hkept', hslot, hbody⟩

/-- Classes of one name that declare something have as many slots. -/
theorem maxSlot_eq (h : Agree s l l') (hc : l.registry.classAt? p = some c)
    (hc' : l'.registry.classAt? q = some c') (hname : c'.name = c.name) {sig : Signature}
    {d : Declaration} (hd : c.declared? sig = some d) : c'.maxSlot = c.maxSlot := by
  rcases h.settled.wired.origin hc with ⟨decl, hload, hdesc⟩ | harray
  · obtain ⟨c₁, hc₁, -, hdesc'⟩ := exists_described h.settled'.wired h.noArrays hload
      (hname ▸ h.settled'.wired.tidy.find_self hc')
    cases hc'.symm.trans hc₁
    rw [h.root_eq] at hdesc'
    exact maxSlot_of_poolShape (poolShape_of_registers hdesc.registers hdesc'.registers)
  · -- An array declares nothing.
    simp [Class.declared?, harray.methods_eq, harray.fields_eq] at hd

theorem keepsAt_iff (h : Agree s l l') (hc : l.registry.classAt? p = some c)
    (hc' : l'.registry.classAt? q = some c') (hname : c'.name = c.name) {slot : Int}
    {sort : RefSort} : c.KeepsAt slot sort ↔ c'.KeepsAt slot sort := by
  constructor
  · rintro ⟨pos, ref, hmem, hkept, rfl, rfl⟩
    obtain ⟨ref', hmem', hkept', hslot, hbody⟩ := h.keepsRef hc hc' hname hmem hkept
    exact ⟨pos, ref', hmem', hkept', hslot, by rw [hbody]⟩
  · rintro ⟨pos, ref, hmem, hkept, rfl, rfl⟩
    obtain ⟨ref', hmem', hkept', hslot, hbody⟩ := h.symm.keepsRef hc' hc hname.symm hmem hkept
    exact ⟨pos, ref', hmem', hkept', hslot, by rw [hbody]⟩

end

/-! ### Counts -/

/-- A weight of classes that does not grow from one link to the other has the same sum in both. -/
theorem sumOf_eq (h : Agree s l l') {w : Class → Nat}
    (hw : ∀ {l l' p q c c'}, Agree s l l' → l.registry.classAt? p = some c →
      l'.registry.classAt? q = some c' → c'.name = c.name → w c ≤ w c') :
    l'.registry.sumOf w = l.registry.sumOf w := by
  have hle : ∀ {l l'}, Agree s l l' → l.registry.sumOf w ≤ l'.registry.sumOf w := by
    intro l l' h
    refine total_le_of_keys Class.name Class.name h.settled.wired.tidy.names_nodup fun c hmem _ => ?_
    obtain ⟨p, hp⟩ := List.mem_iff_getElem?.mp hmem
    rw [Array.getElem?_toList] at hp
    obtain ⟨q, c', hc', hname⟩ := h.exists_class (show l.registry.classAt? p = some c from hp)
    exact ⟨c', Array.mem_toList_iff.mpr (Array.mem_of_getElem? hc'), hname, hw h hp hc' hname⟩
  exact Nat.le_antisymm (hle h.symm) (hle h)

theorem methods_le {p q : Nat} {c c' : Class} (h : Agree s l l')
    (hc : l.registry.classAt? p = some c) (hc' : l'.registry.classAt? q = some c')
    (hname : c'.name = c.name) : c.methods.countP Method.kept ≤ c'.methods.countP Method.kept := by
  have hnodup := h.settled.wired.tidy.wellFormed.signatures_nodup hc
  refine countP_le_of_keys Method.sig Method.sig (List.nodup_append.mp hnodup).1 fun m hm hkept => ?_
  obtain ⟨d', hd', halike, hkept'⟩ :=
    h.keeps hc hc' hname (Class.declared?_method hnodup hm) hkept
  cases d' with
  | field f => exact halike.elim
  | method m' =>
      exact ⟨m', Class.mem_methods_of_declared? hd', Method.Alike.sig_eq halike, hkept'⟩

theorem fields_le {p q : Nat} {c c' : Class} (h : Agree s l l')
    (hc : l.registry.classAt? p = some c) (hc' : l'.registry.classAt? q = some c')
    (hname : c'.name = c.name) : c.fields.countP Field.kept ≤ c'.fields.countP Field.kept := by
  have hnodup := h.settled.wired.tidy.wellFormed.signatures_nodup hc
  refine countP_le_of_keys Field.sig Field.sig (List.nodup_append.mp hnodup).2.1 fun f hf hkept => ?_
  obtain ⟨d', hd', halike, hkept'⟩ :=
    h.keeps hc hc' hname (Class.declared?_field hnodup hf) hkept
  cases d' with
  | method m => exact halike.elim
  | field f' =>
      obtain ⟨m, -, heq, -⟩ | ⟨f₁, hf₁, heq, -⟩ := Class.mem_of_declared? hd'
      · cases heq
      · cases heq
        exact ⟨f', hf₁, Field.Alike.sig_eq halike, hkept'⟩

theorem references_le {p q : Nat} {c c' : Class} (h : Agree s l l')
    (hc : l.registry.classAt? p = some c) (hc' : l'.registry.classAt? q = some c')
    (hname : c'.name = c.name) : (c.references.countP fun x => x.2.kept) ≤
      c'.references.countP fun x => x.2.kept := by
  have hnodup := (h.settled.wired.tidy.indexed hc).listed_nodup
  refine countP_le_of_keys Prod.fst Prod.fst (references_nodup hnodup) fun x hx hkept => ?_
  obtain ⟨ref', hmem', hkept', -⟩ := h.keepsRef hc hc' hname hx hkept
  exact ⟨(x.1, ref'), hmem', rfl, hkept'⟩

/-- All counts agree. -/
theorem stats_eq (h : Agree s l l') : l'.stats = l.stats := by
  have hkept := h.settled.wired.tidy.map_keptClasses h.settled.wired.kept
  have hkept' := h.settled'.wired.tidy.map_keptClasses h.settled'.wired.kept
  have hclasses := h.sumOf_eq (w := fun _ => 1) fun _ _ _ _ => Nat.le_refl _
  have hmethods := h.sumOf_eq fun h hc hc' hname => h.methods_le hc hc' hname
  have hfields := h.sumOf_eq fun h hc hc' hname => h.fields_le hc hc' hname
  have hrefs := h.sumOf_eq fun h hc hc' hname => h.references_le hc hc' hname
  have hexpansions : l'.expansions = l.expansions := by
    rw [h.counted'.expansions_eq, h.counted.expansions_eq]
    exact h.sumOf_eq fun h hc hc' hname => by
      rw [Class.keptCount_eq, Class.keptCount_eq]
      exact h.methods_le hc hc' hname
  simp only [Linker.stats, hkept, hkept', h.builtins_eq, hexpansions, Stats.mk.injEq, and_true]
  refine ⟨?_, hmethods, hfields, hrefs⟩
  simpa only [sumOf, total_map_one] using hclasses

end Agree

end Closure

end ClassLinker
