import ClassLinker.Proofs.Closure.Agree
import ClassLinker.Proofs.Program.Classes

/-! What a linked program keeps. A class of the program keeps the members and the references that it
kept when everything was resolved, under the same signatures and slots; the entry class has the
startup method and the references of its calls besides. -/

namespace ClassLinker

open Registry InitOrder Closure

section

variable {c c' : Class}

theorem Class.Laid.keeps_iff (h : c.Laid c') {sig : Signature} : c'.Keeps sig ↔ c.Keeps sig := by
  have hkeeps : ∀ {c c' : Class}, c.Laid c' → c.Keeps sig → c'.Keeps sig := by
    rintro c c' h ⟨d, hd, hkept⟩
    obtain ⟨d', hd', hlaid⟩ := h.declared?_some hd
    exact ⟨d', hd', hlaid.kept_eq.trans hkept⟩
  exact ⟨hkeeps h.symm, hkeeps h⟩

theorem Class.Laid.keepsAt_iff (h : c.Laid c') {slot : Int} {sort : RefSort} :
    c'.KeepsAt slot sort ↔ c.KeepsAt slot sort :=
  ⟨fun hc' => hc'.laid h.symm, fun hc => hc.laid h⟩

theorem Registry.Compacted.keeps_iff {ids : Renumbering}
    {remap : Nat → Nat → Except Inconsistency Nat} (h : Compacted ids remap c c')
    (hnodup : c.signatures.Nodup) {sig : Signature} : c'.Keeps sig ↔ c.Keeps sig := by
  have hrel := h.declared?_rel hnodup sig
  constructor
  · rintro ⟨d', hd', -⟩
    rw [hd'] at hrel
    obtain ⟨d, hd, -⟩ := rel_some_right hrel
    exact ⟨d, Option.filter_eq_some_iff.mp hd⟩
  · rintro ⟨d, hd, hkept⟩
    rw [hd, Option.filter_some_pos hkept] at hrel
    obtain ⟨d', hd', hreld⟩ := rel_some hrel
    exact ⟨d', hd', hreld.kept_eq.trans hkept⟩

theorem Registry.Compacted.keepsAt_iff {ids : Renumbering}
    {remap : Nat → Nat → Except Inconsistency Nat} (h : Compacted ids remap c c') {slot : Int}
    {sort : RefSort} : c'.KeepsAt slot sort ↔ c.KeepsAt slot sort := by
  refine ⟨?_, h.keepsAt⟩
  rintro ⟨pos, ref', hmem', -, rfl, rfl⟩
  obtain ⟨ref, body, index, hmem, hkept, hbody, rfl⟩ := h.exists_kept hmem'
  refine ⟨pos, ref, hmem, hkept, ?_, ?_⟩
  · rw [setIndex_frame]
    rfl
  · rw [sort_setIndex]
    exact hbody.sort_eq.symm

theorem InitOrder.keeps_withStartup (hnew : c.declared? Signature.startup = none)
    (ms : List Member) (deps : List RefAddr) {sig : Signature} :
    (withStartup ms deps c).Keeps sig ↔ c.Keeps sig ∨ sig = Signature.startup := by
  unfold Class.Keeps
  rw [declared?_withStartup hnew]
  split
  · rename_i hsig
    simp [hsig, startupMethod, Declaration.kept]
  · rename_i hsig
    simp [hsig]

theorem InitOrder.keepsAt_withStartup (hindexed : c.Indexed) (ms : List Member)
    (deps : List RefAddr) {slot : Int} {sort : RefSort} :
    (withStartup ms deps c).KeepsAt slot sort ↔ c.KeepsAt slot sort ∨
      sort = .member ∧ ∃ i < ms.length, slot = c.maxSlot + 1 + i := by
  have hmem : ∀ {pos ref}, (pos, ref) ∈ (withStartup ms deps c).references ↔ _ :=
    Class.mem_references_addCalls fun pos hpos => hindexed.listed_lt hpos
  constructor
  · rintro ⟨pos, ref, href, hkept, rfl, rfl⟩
    rcases hmem.mp href with hold | ⟨i, m, hm, -, rfl⟩
    · exact .inl ⟨pos, ref, hold, hkept, rfl, rfl⟩
    · exact .inr ⟨rfl, i, (List.getElem?_eq_some_iff.mp hm).1, rfl⟩
  · rintro (⟨pos, ref, hold, hkept, rfl, rfl⟩ | ⟨rfl, i, hi, rfl⟩)
    · exact ⟨pos, ref, hmem.mpr (.inl hold), hkept, rfl, rfl⟩
    · exact ⟨_, _, hmem.mpr (.inr ⟨i, ms[i], List.getElem?_eq_getElem hi, rfl, rfl⟩), rfl, rfl, rfl⟩

end

namespace Program.Built

variable {s : Source} {o : LinkOptions} {p : Program} {l : Linker} {c : Class}
  {deps : List RefAddr} {r₁ : Registry} {row : Nat} {c₂ : Class}

/-- What a class of a linked program keeps. -/
theorem exists_kept (h : Built s o p l c deps r₁) (hmem : (row, c₂) ∈ p.registry.classes) : ∃ cl, l.registry.classAt? row = some cl ∧
      c₂.name = cl.name ∧
      (∀ {sig}, c₂.Keeps sig ↔ cl.Keeps sig ∨ row = p.entryRow ∧ sig = Signature.startup) ∧
      ∀ {slot sort}, c₂.KeepsAt slot sort ↔ cl.KeepsAt slot sort ∨ row = p.entryRow ∧
        sort = .member ∧ ∃ i < (calls l p).length, slot = c.maxSlot + 1 + i := by
  obtain ⟨hrow, hc₂⟩ := mem_classes.mp hmem
  obtain ⟨cl, hcl, hname, -⟩ := h.exists_registered hrow hc₂
  obtain ⟨c₀, c₁, hc₀, hc₁, -, hlaid, hcompacted⟩ := h.exists_origin hrow hc₂
  have hkeeps : ∀ {sig}, c₂.Keeps sig ↔ c₀.Keeps sig := fun {sig} =>
    (hcompacted.keeps_iff (h.wellFormed.signatures_nodup hc₁)).trans hlaid.keeps_iff
  have hkeepsAt : ∀ {slot sort}, c₂.KeepsAt slot sort ↔ c₀.KeepsAt slot sort := fun {slot sort} =>
    hcompacted.keepsAt_iff.trans hlaid.keepsAt_iff
  rw [Registry.started, classAt?_modifyClass] at hc₀
  by_cases hentry : p.entryRow = row
  · subst hentry
    cases h.entryClass.symm.trans hcl
    rw [if_pos rfl, hcl, Option.map_some, Option.some.injEq] at hc₀
    subst hc₀
    refine ⟨c, hcl, hname, fun {sig} => ?_, fun {slot sort} => ?_⟩
    · rw [hkeeps, keeps_withStartup h.fresh]
      simp
    · rw [hkeepsAt, keepsAt_withStartup (h.settled.wired.tidy.indexed hcl)]
      simp
  · rw [if_neg hentry] at hc₀
    cases hcl.symm.trans hc₀
    refine ⟨cl, hcl, hname, fun {sig} => ?_, fun {slot sort} => ?_⟩
    · rw [hkeeps]
      simp [Ne.symm hentry]
    · rw [hkeepsAt]
      simp [Ne.symm hentry]

/-- The classes of a linked program have the names that were registered. -/
theorem exists_named (h : Built s o p l c deps r₁) (name : Text) :
    (∃ row c₂, (row, c₂) ∈ p.registry.classes ∧ c₂.name = name) ↔ l.Has name := by
  constructor
  · rintro ⟨row, c₂, hmem, rfl⟩
    obtain ⟨cl, hcl, hname, -⟩ := h.exists_kept hmem
    exact ⟨row, hname ▸ h.settled.wired.tidy.find_self hcl⟩
  · rintro ⟨row, hrow⟩
    obtain ⟨hlive, c₂, hc₂, -⟩ := h.exists_of_find? hrow
    have hmem := mem_classes.mpr ⟨hlive, hc₂⟩
    obtain ⟨cl, hcl, hname, -⟩ := h.exists_kept hmem
    exact ⟨row, c₂, hmem, hname.trans (h.settled.wired.tidy.wellFormed.find_name hrow hcl)⟩

/-- The entry class is the one with its name. -/
theorem entryRow_iff (h : Built s o p l c deps r₁) {cl : Class}
    (hcl : l.registry.classAt? row = some cl) : row = p.entryRow ↔ cl.name = p.main.className := by
  have htidy := h.settled.wired.tidy
  constructor
  · rintro rfl
    exact htidy.wellFormed.find_name h.row_eq hcl
  · intro hname
    exact Option.some.inj ((htidy.find_self hcl).symm.trans (hname ▸ h.row_eq))

end Program.Built

end ClassLinker
