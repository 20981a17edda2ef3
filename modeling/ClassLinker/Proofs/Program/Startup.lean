import ClassLinker.Proofs.Program.Link
import ClassLinker.Proofs.Registry.Survivors

/-! The startup method of a linked program. Its slots were new ones when it was added; in the end its
code goes through the member table of the entry class, and the entries there are the initializers of
the program in their order and then the entry method. -/

namespace ClassLinker

open Registry InitOrder Closure Step

/-- What the entry at an index of the member table of a class designates: the member with the name
of the target class and the linked signature, and the name of the class that declares it. -/
def Registry.designated? (r : Registry) (c : Class) (index : Nat) : Option (Member × Text) := do
  let entry ← c.entry? index
  match entry.body with
  | .memberRef _ (some target) (some declaring) (some link) _ =>
      let named ← (r.byId? target).bind r.classAt?
      let owner ← (r.byId? declaring).bind r.classAt?
      let sig ← r.signatures[link]?
      return (⟨named.name, sig⟩, owner.name)
  | _ => none

/-- A member is declared and kept in the class that it names, in a row of its own. -/
theorem designated?_of_standsFor {r₁ r₂ : Registry} {c' : Class} {index : Nat} {m : Member}
    (hr₁ : r₁.WellFormed) (hcompacted : r₁.CompactedTo r₂) (hdeclared : r₁.DeclaresKept m)
    (hstands : StandsFor r₁ r₂ c' index m) :
    r₂.designated? c' index = some (m, m.className) := by
  obtain ⟨entry, target, declaring, link, hentry, hbody, ⟨row, ct, hrow, hct, hname, htarget⟩, hsig,
    row', d, co, hfind, hlive, hco, hdeclaring⟩ := hstands.exists_entry
  obtain ⟨p, cp, dp, hp, hcp, hdp, -⟩ := hdeclared
  -- The lookup finds the declaration in the class itself, so this class also declares the member.
  obtain ⟨hfind₁, -⟩ := hcompacted.find?_iff.mp hrow
  cases hp.symm.trans hfind₁
  cases (findMember_of_declared hp hcp hdp).symm.trans hfind
  cases hct.symm.trans hco
  have hid := hcompacted.byId?_eq hr₁ hlive hct
  subst htarget hdeclaring
  unfold designated?
  rw [hentry]
  simp only [Option.bind_eq_bind, Option.bind_some, hbody, hid, hct, hsig, hname]
  rfl

theorem Registry.DeclaresKept.laid {r r' : Registry} {m : Member} (h : r.DeclaresKept m)
    (hlaid : r.Laid r') : r'.DeclaresKept m := by
  obtain ⟨row, c, d, hrow, hc, hd, hkept⟩ := h
  obtain ⟨c', hc', hlaidc⟩ := hlaid.classes hc
  obtain ⟨d', hd', hlaidd⟩ := hlaidc.declared?_some hd
  exact ⟨row, c', d', (hlaid.find?_eq _).trans hrow, hc', hd', hlaidd.kept_eq.trans hkept⟩

theorem Registry.DeclaresKept.started {r : Registry} {row : Nat} {c : Class} {m : Member}
    (h : r.DeclaresKept m) (hc : r.classAt? row = some c)
    (hnew : c.declared? Signature.startup = none) (ms : List Member) (deps : List RefAddr) :
    (r.started row ms deps).DeclaresKept m := by
  obtain ⟨p, cp, d, hp, hcp, hd, hkept⟩ := h
  obtain ⟨cp', hcp', -, hd'⟩ := declared?_started hc hnew hcp hd
  exact ⟨p, cp', d, hp, hcp', hd', hkept⟩

namespace Program.Built

variable {s : Source} {o : LinkOptions} {p : Program} {l : Linker} {c : Class}
  {deps : List RefAddr} {r₁ : Registry}

/-- The members that the startup method calls. -/
def calls (l : Linker) (p : Program) : List Member :=
  startupCalls l.registry p.main p.initOrder

theorem declaresKept (h : Built s o p l c deps r₁) {m : Member} (hm : m ∈ calls l p) :
    r₁.DeclaresKept m :=
  ((declaresKept_of_call h.entry.declaresKept hm).started h.entryClass h.fresh _ _).laid
    h.linkedTo.laid

theorem wellFormed (h : Built s o p l c deps r₁) : r₁.WellFormed :=
  h.linkedTo.laid.wellFormed h.tidy.wellFormed

/-- The entry class on the way: with its startup method, laid out, and compacted. -/
theorem exists_entryClass (h : Built s o p l c deps r₁) : ∃ c₁ c₂,
    r₁.classAt? p.entryRow = some c₁ ∧ (withStartup (calls l p) deps c).Laid c₁ ∧
      p.entryRow ∈ r₁.keptRows ∧ p.registry.classAt? p.entryRow = some c₂ ∧
      Compacted r₁.newIds p.registry.compactSlot c₁ c₂ := by
  have hstarted : (l.registry.started p.entryRow (calls l p) deps).classAt? p.entryRow =
      some (withStartup (calls l p) deps c) := by
    rw [Registry.started, classAt?_modifyClass, if_pos rfl, h.entryClass, Option.map_some]
  obtain ⟨c₁, hc₁, hlaid⟩ := h.linkedTo.laid.classes hstarted
  have hkept : c₁.kept = true := by
    rw [hlaid.kept_eq, kept_withStartup]
    exact h.settled.wired.kept h.entryClass
  have hlive : p.entryRow ∈ r₁.live := by
    rw [h.linkedTo.laid.live_eq]
    exact h.tidy.live_of_class hstarted
  have hrow := mem_keptRows.mpr ⟨hlive, c₁, hc₁, hkept⟩
  obtain ⟨c₂, hc₂, hcompacted⟩ := h.compactedTo.classes hrow hc₁
  exact ⟨c₁, c₂, hc₁, hlaid, hrow, hc₂, hcompacted⟩

/-- The slot of each call of the startup method is compacted to an entry for its member. -/
theorem compactSlot_call (h : Built s o p l c deps r₁) {c₁ c₂ : Class}
    (hc₁ : r₁.classAt? p.entryRow = some c₁) (hlaid : (withStartup (calls l p) deps c).Laid c₁)
    (hrow : p.entryRow ∈ r₁.keptRows) (hc₂ : p.registry.classAt? p.entryRow = some c₂)
    {k : Nat} {m : Member} (hm : (calls l p)[k]? = some m) :
    ∃ index, p.registry.compactSlot c₂.id (c.maxSlot + 1 + k).toNat = .ok index ∧
      index < c₂.table.length ∧ p.registry.designated? c₂ index = some (m, m.className) := by
  have hindexed := h.settled.wired.tidy.indexed h.entryClass
  have hmem : (c.pool.size + k, callRef c.id (c.maxSlot + 1 + k) m) ∈
      (withStartup (calls l p) deps c).references :=
    (Class.mem_references_addCalls fun _ hpos => hindexed.listed_lt hpos).mpr
      (.inr ⟨k, m, hm, rfl, rfl⟩)
  obtain ⟨⟨pos, ref⟩, hmem₁, -, hlaidr⟩ := forall₂_mem_left hlaid.references hmem
  obtain ⟨t, d, i, hbody⟩ := hlaidr.member rfl
  have hmentions : c₁.Mentions pos ref m := ⟨hmem₁, hlaidr.kept_eq, t, d, i, none, hbody⟩
  have hmax := hindexed.maxSlot_nonneg
  have hslot : ref.slot = ((c.maxSlot + 1 + k).toNat : Nat) := by
    rw [hlaidr.slot_eq, Int.toNat_of_nonneg (by omega)]
    rfl
  obtain ⟨index, hindex, hlt, hstands⟩ := exists_standsFor h.linkedTo h.tidy.wellFormed
    h.compactedTo hrow hc₁ hc₂ hmentions hslot
  exact ⟨index, hindex, hlt, designated?_of_standsFor h.wellFormed h.compactedTo
    (h.declaresKept (List.mem_of_getElem? hm)) hstands⟩

/-- The final code of the startup method calls through the entries for its members. -/
theorem exists_startup (h : Built s o p l c deps r₁) : ∃ m c₂ slots,
    p.startup? = some m ∧ p.registry.classAt? p.entryRow = some c₂ ∧
      c₂.name = p.main.className ∧ m.code = Code.invokeAll slots ++ [Opcode.ret] ∧
      List.Forall₂ (fun x index => index < c₂.table.length ∧ index < 65536 ∧
        p.registry.designated? c₂ index = some (x, x.className)) (calls l p) slots := by
  obtain ⟨c₁, c₂, hc₁, hlaid, hrow, hc₂, hcompacted⟩ := h.exists_entryClass
  have hlive := (mem_keptRows.mp hrow).1
  have hindexed := h.settled.wired.tidy.indexed h.entryClass
  have hdeclared : (withStartup (calls l p) deps c).declared? Signature.startup =
      some (.method (startupMethod c (calls l p).length deps)) := by
    rw [declared?_withStartup h.fresh, if_pos rfl]
  obtain ⟨d₁, hd₁, hlaidd⟩ := hlaid.declared?_some hdeclared
  have hrel := hcompacted.declared?_rel (h.wellFormed.signatures_nodup hc₁) Signature.startup
  cases d₁ with
  | field f => exact hlaidd.elim
  | method m₁ =>
      have hkept : Declaration.kept (.method m₁) = true := Method.Laid.kept_eq hlaidd
      rw [hd₁, Option.filter_some_pos hkept] at hrel
      obtain ⟨d₂, hd₂, hreld⟩ := rel_some hrel
      cases d₂ with
      | field f => exact hreld.elim
      | method m₂ =>
          have hraw : m₁.rawCode = Code.invokeAll (slotNumbers c (calls l p).length) ++
              [Opcode.ret] := by
            rw [show m₁ = _ from hlaidd]
            rfl
          have hcode : m₁.hasCode = true := by
            simp [Method.hasCode, hraw]
          have hreld' : Relocates (p.registry.compactSlot c₂.id) m₁ m₂ := hreld
          rw [Relocates, if_pos hcode] at hreld'
          obtain ⟨code, hrelocate, rfl⟩ := hreld'
          rw [hraw] at hrelocate
          have hslot : ∀ slot ∈ slotNumbers c (calls l p).length, slot < 65536 := by
            intro slot hslot
            obtain ⟨k, hk, rfl⟩ := List.mem_map.mp hslot
            have hlt : k < (calls l p).length := List.mem_range.mp hk
            have hroom : c.maxSlot + (calls l p).length ≤ 0xFFFF := h.room
            have hmax := hindexed.maxSlot_nonneg
            omega
          obtain ⟨slots, hslots, rfl⟩ := Code.relocate_invokeAll hslot hrelocate
          refine ⟨{ m₁ with relocated := some (Code.invokeAll slots ++ [Opcode.ret]) }, c₂, slots,
            ?_, hc₂, ?_, rfl, ?_⟩
          · rw [startup?, hc₂, Option.bind_some]
            exact Class.find?_of_declared? hd₂
          · rw [hcompacted.name_eq, hlaid.name_eq, name_withStartup]
            exact h.settled.wired.tidy.wellFormed.find_name h.row_eq h.entryClass
          · obtain ⟨hlength, hget⟩ := List.forall₂_iff_get.mp hslots
            have hcalls : (calls l p).length = slots.length := by
              rw [← hlength, slotNumbers, List.length_map, List.length_range]
            refine List.forall₂_iff_get.mpr ⟨hcalls, fun k hk hk' => ?_⟩
            obtain ⟨index, hindex, hlt, hdesignated⟩ := h.compactSlot_call hc₁ hlaid hrow hc₂
              (List.getElem?_eq_getElem hk)
            have hget' := hget k (hlength.symm ▸ hk') hk'
            simp only [slotNumbers, List.get_eq_getElem, List.getElem_map,
              List.getElem_range] at hget'
            cases hindex.symm.trans hget'
            exact ⟨hlt, hlt.trans (hcompacted.table_length_lt (h.wellFormed.indexed hlive hc₁)),
              hdesignated⟩

end Program.Built

/-! ### The initializers of the final registry -/

theorem Registry.DeclaresKept.of_started {r : Registry} {row : Nat} {c : Class} {m : Member}
    {ms : List Member} {deps : List RefAddr} (h : (r.started row ms deps).DeclaresKept m)
    (hc : r.classAt? row = some c) (hnew : c.declared? Signature.startup = none)
    (hsig : m.sig ≠ Signature.startup) : r.DeclaresKept m := by
  obtain ⟨p, cp, d, hp, hcp, hd, hkept⟩ := h
  rw [Registry.started, classAt?_modifyClass] at hcp
  split at hcp
  case isFalse => exact ⟨p, cp, d, hp, hcp, hd, hkept⟩
  case isTrue hrow =>
      subst hrow
      rw [hc, Option.map_some] at hcp
      cases hcp
      rw [declared?_withStartup hnew, if_neg hsig] at hd
      exact ⟨row, c, d, hp, hc, hd, hkept⟩

/-- When every class is kept, compaction keeps what the classes declare and keep. -/
theorem Registry.CompactedTo.declaresKept_iff {r r' : Registry} (h : r.CompactedTo r')
    (hr : r.WellFormed) (hkept : ∀ {row c}, r.classAt? row = some c → c.kept = true) (m : Member) :
    r'.DeclaresKept m ↔ r.DeclaresKept m := by
  constructor
  · rintro ⟨row, c', d', hrow, hc', hd', -⟩
    obtain ⟨hrow, hlive⟩ := h.find?_iff.mp hrow
    obtain ⟨c, -, hc, hcompacted⟩ := h.exists_old (h.live_eq ▸ hlive) hc'
    have hrel := hcompacted.declared?_rel (hr.signatures_nodup hc) m.sig
    rw [hd'] at hrel
    obtain ⟨d, hd, -⟩ := rel_some_right hrel
    obtain ⟨hd, hkeptd⟩ := Option.filter_eq_some_iff.mp hd
    exact ⟨row, c, d, hrow, hc, hd, hkeptd⟩
  · rintro ⟨row, c, d, hrow, hc, hd, hkeptd⟩
    have hlive : row ∈ r.keptRows := mem_keptRows.mpr ⟨hr.find_live hrow, c, hc, hkept hc⟩
    obtain ⟨c', hc', hcompacted⟩ := h.classes hlive hc
    have hrel := hcompacted.declared?_rel (hr.signatures_nodup hc) m.sig
    rw [hd, Option.filter_some_pos hkeptd] at hrel
    obtain ⟨d', hd', hreld⟩ := rel_some hrel
    exact ⟨row, c', d', h.find?_iff.mpr ⟨hrow, hlive⟩, hc', hd', hreld.kept_eq.trans hkeptd⟩

theorem mem_initializedClasses {r : Registry} {order : List Text} {name : Text} :
    name ∈ initializedClasses r order ↔
      name ∈ order ∧ r.DeclaresKept ⟨name, Signature.initializer⟩ := by
  refine ⟨fun h => ⟨List.mem_of_mem_filter h, declaresKept_of_initialized h⟩, ?_⟩
  rintro ⟨hname, row, c, d, hrow, hc, hd, hkept⟩
  refine List.mem_filter.mpr ⟨hname, ?_⟩
  simp only at hrow hd
  simp [hrow, hc, hd, hkept]

/-- The initializers that are called depend on which are kept. -/
theorem initializedClasses_congr {r r' : Registry} (h : ∀ name,
    r.DeclaresKept ⟨name, Signature.initializer⟩ ↔ r'.DeclaresKept ⟨name, Signature.initializer⟩)
    (order : List Text) : initializedClasses r order = initializedClasses r' order := by
  refine List.filter_congr fun name hname => ?_
  rw [Bool.eq_iff_iff]
  have hiff : ∀ r : Registry, name ∈ initializedClasses r order ↔ _ :=
    fun r => List.mem_filter.trans (and_iff_right hname)
  rw [← hiff r, ← hiff r', mem_initializedClasses, mem_initializedClasses, h name]

namespace Program.Built

variable {s : Source} {o : LinkOptions} {p : Program} {l : Linker} {c : Class}
  {deps : List RefAddr} {r₁ : Registry}

theorem kept (h : Built s o p l c deps r₁) {row : Nat} {c₁ : Class}
    (hc₁ : r₁.classAt? row = some c₁) : c₁.kept = true := by
  obtain ⟨c', hc', hlaid⟩ := h.linkedTo.laid.exists_old hc₁
  exact hlaid.kept_eq.trans (kept_started h.settled.wired hc')

theorem declaresKept_iff (h : Built s o p l c deps r₁) {m : Member}
    (hsig : m.sig ≠ Signature.startup) :
    p.registry.DeclaresKept m ↔ l.registry.DeclaresKept m := by
  rw [h.compactedTo.declaresKept_iff h.wellFormed h.kept]
  constructor
  · intro hm
    exact (hm.laid h.linkedTo.laid.symm).of_started h.entryClass h.fresh hsig
  · intro hm
    exact (hm.started h.entryClass h.fresh _ _).laid h.linkedTo.laid

/-- What a class of the program declares is kept, in the class of its name. -/
theorem declaresKept_of_declared (h : Built s o p l c deps r₁) {row : Nat} {cn : Class}
    {sig : Signature} {d : Declaration} (hrow : row ∈ p.registry.live)
    (hcn : p.registry.classAt? row = some cn) (hd : cn.declared? sig = some d) :
    p.registry.DeclaresKept ⟨cn.name, sig⟩ := by
  have hlive : row ∈ r₁.keptRows := h.compactedTo.live_eq ▸ hrow
  obtain ⟨c₁, -, hc₁, hcompacted⟩ := h.compactedTo.exists_old hrow hcn
  have hnamed : r₁.SelfNamed :=
    h.linkedTo.laid.selfNamed fun _ hc => h.tidy.find_self hc
  have hfind : p.registry.find? cn.name = some row := by
    rw [hcompacted.name_eq]
    exact h.compactedTo.find?_iff.mpr ⟨hnamed (mem_keptRows.mp hlive).1 hc₁, hlive⟩
  have hrel := hcompacted.declared?_rel (h.wellFormed.signatures_nodup hc₁) sig
  rw [hd] at hrel
  obtain ⟨d₁, hd₁, hreld⟩ := rel_some_right hrel
  exact ⟨row, cn, d, hfind, hcn, hd,
    hreld.kept_eq.trans (Option.filter_eq_some_iff.mp hd₁).2⟩

/-- The initializers that run are those that were kept when the startup method was added. -/
theorem initializedClasses_eq (h : Built s o p l c deps r₁) :
    initializedClasses p.registry p.initOrder = initializedClasses l.registry p.initOrder := by
  have hsig : Signature.initializer ≠ Signature.startup := by decide
  exact initializedClasses_congr (fun _ => h.declaresKept_iff hsig) p.initOrder

/-- Every class that has an initializer in the end is among those whose initializers run. -/
theorem initializer_runs (h : Built s o p l c deps r₁) {row : Nat} {cn : Class}
    {d : Declaration} (hrow : row ∈ p.registry.live) (hcn : p.registry.classAt? row = some cn)
    (hd : cn.declared? Signature.initializer = some d) :
    cn.name ∈ initializedClasses p.registry p.initOrder := by
  have hsig : Signature.initializer ≠ Signature.startup := by decide
  have hdeclares := h.declaresKept_of_declared hrow hcn hd
  obtain ⟨q, cl, dl, hq, hcl, hdl, hkeptl⟩ := (h.declaresKept_iff hsig).mp hdeclares
  have htidy := h.settled.wired.tidy
  have hmem : (q, cl) ∈ l.registry.keptClasses :=
    mem_keptClasses.mpr ⟨htidy.live_of_class hcl, hcl, h.settled.wired.kept hcl⟩
  obtain ⟨-, horder⟩ := order_sound h.scheduled
  obtain ⟨hname, -⟩ := horder hmem hdl hkeptl
  rw [htidy.wellFormed.find_name hq hcl] at hname
  exact mem_initializedClasses.mpr ⟨hname, hdeclares⟩

end Program.Built

namespace Program

/-- The startup method of a linked program decodes into one static call for each initializer and one
for the entry method, and a return. The calls go through the member table of the entry class. Those
of the initializers designate, in the order of initialization and each once, the classes that have a
kept initializer, declared there, and these are all in the program; the last call designates the
entry method, declared in the entry class. -/
theorem startup_runs_initializers (s : Source) (o : LinkOptions) (p : Program)
    (hok : link s o = .ok p) : ∃ (m : Method) (c : Class) (names : List Text) (calls : List Nat)
      (main : Nat),
      p.startup? = some m ∧ p.registry.classAt? p.entryRow = some c ∧ c.name = o.entry ∧
      (Code.decode m.code).ending = .complete ∧
      (Code.decode m.code).instrs.map (fun i => (i.op, i.slot?)) =
        (calls ++ [main]).map (fun slot => (Opcode.invokestatic, some slot)) ++
          [(Opcode.ret, none)] ∧
      (∀ slot ∈ calls ++ [main], slot < c.table.length) ∧
      calls.map (p.registry.designated? c) =
        names.map (fun name => some (⟨name, Signature.initializer⟩, name)) ∧
      names.Sublist p.initOrder ∧ names.Nodup ∧
      (∀ name, name ∈ names ↔
        name ∈ p.initOrder ∧ p.registry.DeclaresKept ⟨name, Signature.initializer⟩) ∧
      (∀ row cn, row ∈ p.registry.live → p.registry.classAt? row = some cn →
        (cn.declared? Signature.initializer).isSome = true → cn.name ∈ names) ∧
      p.registry.designated? c main = some (o.withDefaults.main, o.entry) := by
  obtain ⟨l, c₀, deps, r₁, h⟩ := link_ok hok
  obtain ⟨m, c, slots, hm, hc, hname, hcode, hslots⟩ := h.exists_startup
  have hmain : p.main = o.withDefaults.main := h.main_eq
  obtain ⟨calls, last, hcalls, hlast, rfl⟩ := forall₂_append_left hslots
  obtain ⟨main, rfl⟩ : ∃ main, last = [main] := List.length_eq_one_iff.mp hlast.length_eq.symm
  obtain ⟨⟨hlt, -, hdesignated⟩, -⟩ := List.forall₂_cons.mp hlast
  rw [List.forall₂_map_left_iff] at hcalls
  obtain ⟨hnodup, -⟩ := order_sound h.scheduled
  have hsub : (initializedClasses p.registry p.initOrder).Sublist p.initOrder :=
    List.filter_sublist
  have hbound : ∀ slot ∈ calls ++ [main], slot < c.table.length ∧ slot < 65536 := by
    intro slot hslot
    obtain ⟨x, -, hlt, hsmall, -⟩ := forall₂_mem_right hslots hslot
    exact ⟨hlt, hsmall⟩
  refine ⟨m, c, initializedClasses p.registry p.initOrder, calls, main, hm, hc,
    hname.trans (congrArg Member.className hmain), ?_, ?_, fun slot hslot => (hbound slot hslot).1,
    ?_, hsub, hnodup.sublist hsub, fun name => mem_initializedClasses, ?_, ?_⟩
  · rw [hcode, Code.decode_invokeAll]
  · rw [hcode, Code.decode_invokeAll]
    exact callInstructions_slots 0 fun slot hslot => (hbound slot hslot).2
  · rw [h.initializedClasses_eq]
    refine map_eq_of_forall₂ (fun hx => ?_) hcalls
    exact hx.2.2
  · intro row cn hrow hcn hd
    obtain ⟨d, hd⟩ := Option.isSome_iff_exists.mp hd
    exact h.initializer_runs hrow hcn hd
  · rw [hdesignated, hmain]
    rfl

theorem startup_runs_initializers_initialized : ∃ p m c i j,
    link initializedSource bareOptions = .ok p ∧ p.startup? = some m ∧
      p.registry.classAt? p.entryRow = some c ∧
      (Code.decode m.code).instrs.map (fun i => (i.op, i.slot?)) =
        [(Opcode.invokestatic, some i), (Opcode.invokestatic, some j), (Opcode.ret, none)] ∧
      p.registry.designated? c i = some (Member.mk "A" Signature.initializer, Text.ofString "A") ∧
      p.registry.designated? c j =
        some (Member.mk "Main" Signature.defaultEntry, Text.ofString "Main") := by
  have hdefaults : bareOptions.withDefaults = bareOptions := by decide
  have hcheck : Step.yields (resolve initializedSource bareOptions
      { root := bareOptions.runtime.root }) (fun _ l =>
        (schedule l.registry []).toOption = some [Text.ofString "A"] &&
        initializedClasses l.registry ["A"] = [Text.ofString "A"] &&
        Step.yields (addStartup bareOptions.entry bareOptions.entryMethod ["A"] l.registry)
          fun _ _ => true) = true := by decide +kernel
  obtain ⟨⟨⟩, l, hresolve, hcheck⟩ := Step.exists_of_yields hcheck
  simp only [Bool.and_eq_true, decide_eq_true_eq] at hcheck
  obtain ⟨⟨horder, hnames⟩, hadded⟩ := hcheck
  obtain ⟨row, r, hadded, -⟩ := Step.exists_of_yields hadded
  cases hsched : schedule l.registry [] with
  | error e => rw [hsched] at horder; cases horder
  | ok order =>
      rw [hsched] at horder
      cases horder
      obtain ⟨p, c₀, deps, r₁, hlink, horder, hbuilt⟩ := exists_link (s := initializedSource)
        (o := bareOptions) (by decide) (hdefaults.symm ▸ hresolve)
        (hdefaults.symm ▸ hsched) (hdefaults.symm ▸ hadded)
      obtain ⟨m, c, names, calls, main, hm, hc, -, -, hinstrs, -, hcalls, hsub, hnodup, hiff,
        -, hmain⟩ := startup_runs_initializers _ _ _ hlink
      rw [horder] at hsub hiff
      have hruns : Text.ofString "A" ∈ initializedClasses p.registry p.initOrder := by
        rw [hbuilt.initializedClasses_eq, horder, hnames]
        exact List.mem_singleton_self _
      have hname : Text.ofString "A" ∈ names :=
        (hiff _).mpr (horder ▸ mem_initializedClasses.mp hruns)
      obtain rfl : names = [Text.ofString "A"] := by
        rcases List.sublist_singleton.mp hsub with rfl | rfl
        · cases hname
        · rfl
      obtain ⟨i, rfl, hi⟩ := List.map_eq_singleton_iff.mp hcalls
      exact ⟨p, m, c, i, main, hlink, hm, hc, hinstrs, hi, hmain.trans (by rw [hdefaults]; rfl)⟩

end Program

end ClassLinker
