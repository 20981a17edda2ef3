import ClassLinker.Proofs.Program.Startup

/-! The classes of a linked program. All that were registered are there, under their names, and a
class has its row as its id; its supertypes and the class of its elements come before it; and each
class reference has the id of a class. -/

namespace ClassLinker

open Registry InitOrder Closure

namespace Registry

variable {r : Registry}

theorem flatMap_classes {β : Type} (r : Registry) (g : Class → List β) :
    (r.classes.map Prod.snd).flatMap g =
      r.live.flatMap fun row => ((r.classAt? row).map g).getD [] := by
  unfold classes
  induction r.live with
  | nil => rfl
  | cons row rows ih => cases hc : r.classAt? row <;> simpa [hc] using ih

/-- When every class is kept, the rows of the kept classes are the live rows. -/
theorem keptRows_eq_live (hr : r.WellFormed)
    (hkept : ∀ {row c}, r.classAt? row = some c → c.kept = true) : r.keptRows = r.live := by
  have hall : r.keptClasses = r.classes := by
    refine List.filter_eq_self.mpr ?_
    rintro ⟨row, c⟩ hmem
    exact hkept (mem_classes.mp hmem).2
  refine List.ext_getElem? fun i => ?_
  rw [keptRows, hall, List.getElem?_map, getElem?_classes fun row hrow => hr.exists_class hrow]
  cases hi : r.live[i]? with
  | none => rfl
  | some row =>
      obtain ⟨c, hc⟩ := hr.exists_class (List.mem_of_getElem? hi)
      rw [Option.bind_some, hc]
      rfl

end Registry

namespace Program.Built

variable {s : Source} {o : LinkOptions} {p : Program} {l : Linker} {c : Class}
  {deps : List RefAddr} {r₁ : Registry} {row : Nat} {c₂ : Class}

/-- A class on the way: registered, with its startup method if it has one, laid out, compacted. -/
theorem exists_origin (h : Built s o p l c deps r₁) (hrow : row ∈ p.registry.live)
    (hc₂ : p.registry.classAt? row = some c₂) : ∃ c₀ c₁,
      (l.registry.started p.entryRow (calls l p) deps).classAt? row = some c₀ ∧
      r₁.classAt? row = some c₁ ∧ row ∈ r₁.keptRows ∧ c₀.Laid c₁ ∧
      Compacted r₁.newIds p.registry.compactSlot c₁ c₂ := by
  obtain ⟨c₁, hkept, hc₁, hcompacted⟩ := h.compactedTo.exists_old hrow hc₂
  obtain ⟨c₀, hc₀, hlaid⟩ := h.linkedTo.laid.exists_old hc₁
  exact ⟨c₀, c₁, hc₀, hc₁, hkept, hlaid, hcompacted⟩

theorem live_eq (h : Built s o p l c deps r₁) :
    p.registry.live = List.range l.registry.rows.size := by
  rw [h.compactedTo.live_eq, keptRows_eq_live h.wellFormed h.kept, h.linkedTo.laid.live_eq,
    h.tidy.live_eq, Registry.started, size_modifyClass]

theorem exists_class (h : Built s o p l c deps r₁) (hrow : row ∈ p.registry.live) :
    ∃ c₂, p.registry.classAt? row = some c₂ := by
  have hkept : row ∈ r₁.keptRows := h.compactedTo.live_eq ▸ hrow
  obtain ⟨-, c₁, hc₁, -⟩ := mem_keptRows.mp hkept
  obtain ⟨c₂, hc₂, -⟩ := h.compactedTo.classes hkept hc₁
  exact ⟨c₂, hc₂⟩

/-- The id of a class is its row. -/
theorem id_eq (h : Built s o p l c deps r₁) (hrow : row ∈ p.registry.live)
    (hc₂ : p.registry.classAt? row = some c₂) : c₂.id = row := by
  refine h.compactedTo.id_eq h.wellFormed ?_ hc₂
  rw [h.live_eq] at hrow ⊢
  exact List.getElem?_range (List.mem_range.mp hrow)

theorem find?_eq (h : Built s o p l c deps r₁) (name : Text) :
    p.registry.find? name = l.registry.find? name := by
  have hlaid : r₁.find? name = l.registry.find? name := h.linkedTo.laid.find?_eq name
  rw [← hlaid]
  refine Option.ext fun row => ?_
  rw [h.compactedTo.find?_iff]
  refine ⟨fun hfind => hfind.1, fun hfind => ⟨hfind, ?_⟩⟩
  rw [keptRows_eq_live h.wellFormed h.kept]
  exact h.wellFormed.find_live hfind

/-- A registered name belongs to a class whose id is its row. -/
theorem exists_of_find? (h : Built s o p l c deps r₁) {name : Text} {q : Nat}
    (hfind : l.registry.find? name = some q) :
    q ∈ p.registry.live ∧ ∃ c₂, p.registry.classAt? q = some c₂ ∧ c₂.id = q := by
  have hlive : q ∈ p.registry.live := by
    rw [h.compactedTo.live_eq]
    exact (h.compactedTo.find?_iff.mp ((h.find?_eq name).trans hfind)).2
  obtain ⟨c₂, hc₂⟩ := h.exists_class hlive
  exact ⟨hlive, c₂, hc₂, h.id_eq hlive hc₂⟩

/-- The references of a class of the program are found under its id. -/
theorem refAddr?_eq (h : Built s o p l c deps r₁) (hrow : row ∈ p.registry.live)
    (hc₂ : p.registry.classAt? row = some c₂) (slot : Int) :
    p.registry.refAddr? c₂.id slot = (c₂.slots.lookup slot).map (RefAddr.mk row) := by
  -- A class that is not part of the program knows no slots.
  have hsame : ∀ {q cq} {pos : Nat}, p.registry.classAt? q = some cq → cq.id = c₂.id →
      cq.slots.lookup slot = some pos → q = row := by
    intro q cq pos hcq hid hpos
    have hlive : q ∈ p.registry.live := by
      rw [h.compactedTo.live_eq]
      by_contra hdead
      rw [h.compactedTo.forgotten hdead hcq] at hpos
      cases hpos
    rw [← h.id_eq hlive hcq, hid, h.id_eq hrow hc₂]
  cases hfound : p.registry.refAddr? c₂.id slot with
  | none => rw [refAddr?_eq_none.mp hfound row c₂ hc₂ rfl, Option.map_none]
  | some a =>
      obtain ⟨cq, hcq, hid, hpos⟩ := exists_of_refAddr? hfound
      have hq := hsame hcq (Int.ofNat_inj.mp hid) hpos
      rw [hq] at hcq
      cases hc₂.symm.trans hcq
      rw [hpos, Option.map_some, ← hq]

/-- No two references of a class of the program share a slot. -/
theorem slots_nodup (h : Built s o p l c deps r₁) (hrow : row ∈ p.registry.live)
    (hc₂ : p.registry.classAt? row = some c₂) : (c₂.references.map fun q => q.2.slot).Nodup := by
  obtain ⟨c₀, c₁, -, hc₁, hkept, -, hcompacted⟩ := h.exists_origin hrow hc₂
  exact hcompacted.slots_nodup (h.wellFormed.indexed (mem_keptRows.mp hkept).1 hc₁)

/-- What a class was registered as stays. -/
theorem exists_registered (h : Built s o p l c deps r₁) (hrow : row ∈ p.registry.live)
    (hc₂ : p.registry.classAt? row = some c₂) : ∃ cl, l.registry.classAt? row = some cl ∧
      c₂.name = cl.name ∧ c₂.super = cl.super ∧ c₂.interfaces = cl.interfaces ∧
      c₂.kind = cl.kind ∧ c₂.element = cl.element ∧ c₂.elementType = cl.elementType := by
  obtain ⟨c₀, c₁, hc₀, -, -, hlaid, hcompacted⟩ := h.exists_origin hrow hc₂
  rw [Registry.started, classAt?_modifyClass] at hc₀
  split at hc₀
  · obtain ⟨cl, hcl, rfl⟩ := Option.map_eq_some_iff.mp hc₀
    refine ⟨cl, hcl, ?_⟩
    rw [hcompacted.frame, hlaid.frame, withStartup_frame]
    exact ⟨rfl, rfl, rfl, rfl, rfl, rfl⟩
  · refine ⟨c₀, hc₀, ?_⟩
    rw [hcompacted.frame, hlaid.frame]
    exact ⟨rfl, rfl, rfl, rfl, rfl, rfl⟩

/-- A class extends nothing exactly when it is the first; the class that any other extends comes
before it. -/
theorem super_cases (h : Built s o p l c deps r₁) (hrow : row ∈ p.registry.live)
    (hc₂ : p.registry.classAt? row = some c₂) :
    (row = 0 ∧ c₂.super = []) ∨
      (row ≠ 0 ∧ c₂.super ≠ [] ∧ ∃ q, l.registry.find? c₂.super = some q ∧ q < row) := by
  obtain ⟨cl, hcl, -, hsuper, -⟩ := h.exists_registered hrow hc₂
  have htidy := h.settled.wired.tidy
  have hlive := htidy.live_of_class hcl
  have hroot := htidy.hierarchy.root_iff hlive hcl
  rw [(htidy.exists_root hcl).1, Option.some.injEq] at hroot
  rw [hsuper]
  by_cases hempty : cl.super = []
  · exact .inl ⟨(hroot.mp hempty).symm, hempty⟩
  · exact .inr ⟨fun hzero => hempty (hroot.mpr hzero.symm), hempty,
      htidy.hierarchy.super_lt hlive hcl hempty⟩

theorem interface_lt (h : Built s o p l c deps r₁) (hrow : row ∈ p.registry.live)
    (hc₂ : p.registry.classAt? row = some c₂) {name : Text} (hname : name ∈ c₂.interfaces) :
    ∃ q, l.registry.find? name = some q ∧ q < row := by
  obtain ⟨cl, hcl, -, -, hinterfaces, -⟩ := h.exists_registered hrow hc₂
  have htidy := h.settled.wired.tidy
  exact htidy.hierarchy.interface_lt (htidy.live_of_class hcl) hcl (hinterfaces ▸ hname)

/-- A class is an ordinary one or an interface, or an array; the class of the elements of an array
of objects comes before it. -/
theorem kind_cases (h : Built s o p l c deps r₁) (hrow : row ∈ p.registry.live)
    (hc₂ : p.registry.classAt? row = some c₂) :
    c₂.kind = .ordinary ∨ c₂.kind = .interface ∨ c₂.kind = .primitiveArray ∨
      (c₂.kind = .objectArray ∧ ∃ q, l.registry.find? c₂.element = some q ∧ q < row) := by
  obtain ⟨cl, hcl, -, -, -, hkind, helement, -⟩ := h.exists_registered hrow hc₂
  rw [hkind, helement]
  rcases h.settled.wired.origin hcl with ⟨d, -, hdesc⟩ | harray
  · rw [hdesc.kind_eq]
    split
    · exact .inr (.inl rfl)
    · exact .inl rfl
  · rcases harray.shape with ⟨-, hprimitive, -⟩ | ⟨hobject, -, hfound⟩
    · exact .inr (.inr (.inl hprimitive))
    · exact .inr (.inr (.inr ⟨hobject, hfound⟩))

/-- The class of an array of primitives has the code of its element type. -/
theorem exists_primitiveArray (h : Built s o p l c deps r₁) (hnames : s.NoArrays) {t : Primitive}
    (hhas : l.Has (Primitive.arrayName t.code)) : ∃ row c₂, row ∈ p.registry.live ∧
      p.registry.classAt? row = some c₂ ∧ c₂.kind = .primitiveArray ∧
      c₂.elementType = t.code := by
  obtain ⟨row, cl, hcl, hname, harray⟩ := exists_array h.settled.wired hnames rfl hhas
  have htidy := h.settled.wired.tidy
  obtain ⟨hlive, c₂, hc₂, -⟩ := h.exists_of_find? (htidy.find_self hcl)
  obtain ⟨cl', hcl', -, -, -, hkind, -, hcode⟩ := h.exists_registered hlive hc₂
  cases hcl.symm.trans hcl'
  refine ⟨row, c₂, hlive, hc₂, ?_⟩
  rw [hkind, hcode]
  rcases harray.shape with ⟨t', hprimitive, hname', hcode', -⟩ | ⟨-, helement, -⟩
  · refine ⟨hprimitive, ?_⟩
    rw [hname'] at hname
    rw [hcode']
    have hletter : t'.letter = t.letter := by
      simpa [Primitive.arrayName, Primitive.ofCode?_code] using hname
    have hsame := Primitive.ofLetter?_letter t'
    rw [hletter, Primitive.ofLetter?_letter] at hsame
    rw [Option.some.inj hsame]
  · rw [hname] at helement
    cases helement

/-- A class reference has the id of a class. -/
theorem exists_target (h : Built s o p l c deps r₁) (hrow : row ∈ p.registry.live)
    (hc₂ : p.registry.classAt? row = some c₂) {pos : Nat} {ref : Reference} {name : Text}
    {target : Option Nat} (hmem : (pos, ref) ∈ c₂.references)
    (hbody : ref.body = .classRef name target) : ∃ row' ct, row' ∈ p.registry.live ∧
      p.registry.classAt? row' = some ct ∧ target = some ct.id := by
  obtain ⟨c₀, c₁, -, hc₁, hkept, -, hcompacted⟩ := h.exists_origin hrow hc₂
  obtain ⟨old, body, index, hold, hkeptr, hrenumbered, rfl⟩ := hcompacted.exists_kept hmem
  have hsort : old.body.sort = .cls := by
    have hindex := sort_setIndex index (rewriteRef c₂.id body old)
    rw [hbody] at hindex
    exact hrenumbered.sort_eq.symm.trans hindex.symm
  have hres := h.linkedTo.resolvedIn hkept hc₁ hold hkeptr
  cases hbodyOld : old.body with
  | literal v =>
      rw [hbodyOld] at hsort
      cases hsort
  | memberRef m t d k i =>
      rw [hbodyOld] at hsort
      cases hsort
  | classRef name' id =>
      rw [hbodyOld] at hrenumbered hres
      obtain ⟨oldId, new, rfl, hnew, rfl⟩ := hrenumbered
      obtain ⟨row', ct, hfind, hct, -, hid⟩ := hres
      cases hid
      obtain ⟨hlive, ct', hct', -, hid'⟩ :=
        h.compactedTo.exists_renumbered h.wellFormed (h.wellFormed.find_live hfind) hct hnew
      refine ⟨row', ct', hlive, hct', ?_⟩
      rw [hid']
      exact (RefBody.classRef.inj hbody).2.symm

end Program.Built

end ClassLinker
