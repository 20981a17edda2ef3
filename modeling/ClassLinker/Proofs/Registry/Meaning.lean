import ClassLinker.Proofs.Registry.Compact

/-! What compaction preserves. Four renamings are at work: classes get new ids, members get link ids,
equal references of a class share an entry of its member table, and the code gets the places of these
entries. Together they leave every member instruction with the member that it named. -/

namespace ClassLinker

/-- Numbers that increase between two bounds are no more than the bounds are apart. -/
theorem length_le_of_increasing {xs : List Int} {lo hi : Int} (hsorted : xs.Pairwise (· < ·))
    (hlo : ∀ x ∈ xs, lo < x) (hhi : ∀ x ∈ xs, x ≤ hi) (hle : lo ≤ hi) : xs.length ≤ hi - lo := by
  induction xs generalizing lo with
  | nil =>
      rw [List.length_nil]
      omega
  | cons x xs ih =>
      obtain ⟨hx, hxs⟩ := List.pairwise_cons.mp hsorted
      have hrest := ih hxs hx (fun y hy => hhi y (List.mem_cons_of_mem _ hy))
        (hhi x List.mem_cons_self)
      have := hlo x List.mem_cons_self
      rw [List.length_cons]
      omega

namespace Class

/-- The entry of the member table of a class at an index. -/
def entry? (c : Class) (index : Nat) : Option Reference :=
  (c.table[index]?).bind fun pos => c.pool[pos]?

/-- A kept reference of a class names a member. -/
structure Mentions (c : Class) (pos : Nat) (ref : Reference) (m : Member) : Prop where
  mem : (pos, ref) ∈ c.references
  kept : ref.kept = true
  body : ∃ target declaring link index, ref.body = .memberRef m target declaring link index

end Class

namespace Registry

/-- The entry at an index of a class of the compacted registry `r'` stands for a member of the
registry `r` before: it has the new ids of the class that the member names and of the class that a
lookup finds it in, and the link id of its signature. -/
structure StandsFor (r r' : Registry) (c' : Class) (index : Nat) (m : Member) : Prop where
  exists_entry : ∃ entry target declaring link, c'.entry? index = some entry ∧
    entry.body = .memberRef m (some target) (some declaring) (some link) (some index) ∧
    (∃ row ct, r'.find? m.className = some row ∧ r'.classAt? row = some ct ∧
      ct.name = m.className ∧ ct.id = target) ∧
    r'.signatures[link]? = some m.sig ∧
    ∃ row d co, r.findMember m = .ok (row, d) ∧ row ∈ r'.live ∧ r'.classAt? row = some co ∧
      co.id = declaring

/-- What compaction makes of a kept method: its code has the same length and the same bytes but for
the slots of member instructions, and these are the places of entries that stand for the members
named before. -/
structure CodeKept (r r' : Registry) (c c' : Class) (m m' : Method) : Prop where
  sig_eq : m'.sig = m.sig
  rawCode_eq : m'.rawCode = m.rawCode
  length_eq : m.hasCode = true → m'.code.length = m.rawCode.length
  bytes_eq : m.hasCode = true → ∀ k, (∀ i ∈ (Code.decode m.rawCode).instrs, ¬ i.HasSlotAt k) →
    m'.code[k]? = m.rawCode[k]?
  member : ∀ i ∈ (Code.decode m.rawCode).instrs, Opcode.operand i.op = .memberSlot →
    ∃ a ref named index, r.refAddr? c.id (bigEndian (i.operands.take 2)) = some a ∧
      r.refAt? a = some ref ∧ c.Mentions a.pos ref named ∧ m'.code[i.pc]? = some i.op ∧
      bigEndian ((m'.code.drop (i.pc + 1)).take 2) = index ∧ index < c'.table.length ∧
      StandsFor r r' c' index named

/-- The member table of a compacted class has one entry for every member that its kept references
named before, and the entries are in the order of the lowest slots of these. -/
structure TableOf (c c' : Class) : Prop where
  complete : ∀ {pos ref m}, c.Mentions pos ref m →
    ∃ (index : Nat) (p : Nat) (first : Reference), c'.table[index]? = some p ∧ c.Mentions p first m
  lowest : ∀ {index : Nat} {p}, c'.table[index]? = some p → ∃ first m, c.Mentions p first m ∧
    ∀ {pos ref}, c.Mentions pos ref m → first.slot ≤ ref.slot
  increasing : ∀ {i j : Nat} {p q first second}, i < j → c'.table[i]? = some p →
    c'.table[j]? = some q → c.pool[p]? = some first → c.pool[q]? = some second →
    first.slot < second.slot
  distinct : ∀ {i j : Nat} {p q first second m}, c'.table[i]? = some p → c'.table[j]? = some q →
    c.Mentions p first m → c.Mentions q second m → i = j

/-! ### References of a linked registry -/

/-- The kept references of the kept classes of a linked registry have the ids of what they name. -/
theorem LinkedTo.resolvedIn {r r₁ : Registry} (h : r.LinkedTo r₁) {row pos : Nat} {c : Class}
    {ref : Reference} (hrow : row ∈ r₁.keptRows) (hc : r₁.classAt? row = some c)
    (hmem : (pos, ref) ∈ c.references) (hkept : ref.kept = true) :
    ref.body.ResolvedIn r₁ r₁.signatures := by
  obtain ⟨c₀, hc₀, hlaid⟩ := h.laid.exists_old hc
  obtain ⟨⟨pos₀, ref₀⟩, hmem₀, hpos, href⟩ := forall₂_mem_right hlaid.references hmem
  simp only at hpos href
  subst hpos
  rw [h.laid.keptRows_eq] at hrow
  obtain ⟨ref', href', hres⟩ := h.resolved hrow hc₀ hmem₀ (href.kept_eq ▸ hkept)
  have hsame : r₁.refAt? ⟨row, pos⟩ = some ref :=
    refAt?_eq_some.mpr ⟨c, hc, (Class.mem_references.mp hmem).2⟩
  cases hsame.symm.trans href'
  exact h.laid.resolvedIn hres

/-- Two references with the ids of one target class and one signature name the same member. -/
theorem eq_of_resolvedIn {r : Registry} {sigs : List Signature} (hr : r.WellFormed)
    {m m' : Member} {t k d d' i i' : Option Nat}
    (h : (RefBody.memberRef m t d k i).ResolvedIn r sigs)
    (h' : (RefBody.memberRef m' t d' k i').ResolvedIn r sigs) : m' = m := by
  obtain ⟨row, c, -, -, -, n, hrow, hc, -, ht, -, -, -, -, hn, hsig⟩ := h
  obtain ⟨row', c', -, -, -, n', hrow', hc', -, ht', -, -, -, -, hn', hsig'⟩ := h'
  have hid : c.id = c'.id := Option.some.inj (ht.symm.trans ht')
  cases hr.row_eq_of_id (hr.find_live hrow) (hr.find_live hrow') hc hc' hid
  cases hc.symm.trans hc'
  cases hn.symm.trans hn'
  cases m with
  | mk className sig =>
      cases m' with
      | mk className' sig' =>
          rw [Member.mk.injEq]
          exact ⟨(hr.find_name hrow' hc).symm.trans (hr.find_name hrow hc),
            Option.some.inj (hsig'.symm.trans hsig)⟩

/-! ### Compacted classes -/

namespace Compacted

variable {ids : Renumbering} {remap : Nat → Nat → Except Inconsistency Nat} {c c' : Class}

theorem name_eq (h : Compacted ids remap c c') : c'.name = c.name := by
  obtain ⟨c₁, c₂, hp, ht, hrelocated⟩ := h.steps
  rw [hrelocated.frame, ht.frame, hp.frame]

theorem id_eq (h : Compacted ids remap c c') : c'.id = (ids.lookup c.id).getD c.id := by
  obtain ⟨c₁, c₂, hp, ht, hrelocated⟩ := h.steps
  rw [hrelocated.frame, ht.frame]
  exact hp.id_eq

/-- The table has a place for every two bytes of a slot. -/
theorem table_length_lt (h : Compacted ids remap c c') (hc : c.Indexed) :
    c'.table.length < 65536 := by
  obtain ⟨c₁, c₂, hp, ht, hrelocated⟩ := h.steps
  have hslots : ((keptSlots c).map Prod.snd).Nodup := keptSlots_slots_nodup hc
  have hsorted := hp.slots_sorted hslots
  have hrange : ∀ slot ∈ c₁.references.map (fun p => p.2.slot), 0 < slot ∧ slot ≤ lastSlot := by
    intro slot hslot
    obtain ⟨⟨pos, ref₁⟩, hmem₁, rfl⟩ := List.mem_map.mp hslot
    obtain ⟨ref, body, hmem, -, -, -, rfl⟩ := hp.mem_references.mp hmem₁
    obtain ⟨hlisted, hpool⟩ := Class.mem_references.mp hmem
    exact ⟨(hc.slot_range hlisted hpool).1, (hc.slot_range hlisted hpool).2.1⟩
  have hlength := length_le_of_increasing hsorted (fun x hx => (hrange x hx).1)
    (fun x hx => (hrange x hx).2) (by decide)
  have htable := ht.sublist.length_le
  rw [show c'.table = c₂.table by rw [hrelocated.frame]]
  simp only [List.length_map, lastSlot] at hlength htable
  omega

end Compacted

namespace CompactedTo

variable {r r' : Registry} {row : Nat} {c c' : Class}

theorem exists_old (h : CompactedTo r r') (hrow : row ∈ r'.live) (hc' : r'.classAt? row = some c') :
    ∃ c, row ∈ r.keptRows ∧ r.classAt? row = some c ∧ Compacted r.newIds r'.compactSlot c c' := by
  rw [h.live_eq] at hrow
  obtain ⟨-, c, hc, -⟩ := mem_keptRows.mp hrow
  obtain ⟨c₁, hc₁, hcompacted⟩ := h.classes hrow hc
  cases hc'.symm.trans hc₁
  exact ⟨c, hrow, hc, hcompacted⟩

/-- The id of a compacted class is its place. -/
theorem id_eq (h : CompactedTo r r') (hr : r.WellFormed) {i : Nat} (hi : r'.live[i]? = some row)
    (hc' : r'.classAt? row = some c') : c'.id = i := by
  obtain ⟨c, hrow, hc, hcompacted⟩ := h.exists_old (List.mem_of_getElem? hi) hc'
  rw [h.live_eq] at hi
  rw [hcompacted.id_eq, lookup_newIds hr hi hc, Option.getD_some]

/-- A renumbered class is there under its new id. -/
theorem exists_renumbered (h : CompactedTo r r') (hr : r.WellFormed) (hlive : row ∈ r.live)
    (hc : r.classAt? row = some c) {new : Nat} (hnew : r.newIds.lookup c.id = some new) :
    row ∈ r'.live ∧ ∃ c', r'.classAt? row = some c' ∧ c'.name = c.name ∧ c'.id = new := by
  obtain ⟨row₁, c₁, hi, hc₁, hid⟩ := (lookup_newIds_iff hr).mp hnew
  have hkept := List.mem_of_getElem? hi
  cases hr.row_eq_of_id (mem_keptRows.mp hkept).1 hlive hc₁ hc hid
  obtain ⟨c', hc', hcompacted⟩ := h.classes hkept hc
  rw [← h.live_eq] at hi hkept
  exact ⟨hkept, c', hc', hcompacted.name_eq, h.id_eq hr hi hc'⟩

theorem compactSlot_ok (h : CompactedTo r r') (hr : r.WellFormed) (hrow : row ∈ r.keptRows)
    (hc' : r'.classAt? row = some c') {slot index : Nat} :
    r'.compactSlot c'.id slot = .ok index ↔ ∃ p ref m t d k,
      c'.forwarding.lookup (slot : Int) = some p ∧ c'.pool[p]? = some ref ∧
      ref.body = .memberRef m t d k (some index) :=
  Registry.compactSlot_ok (fun hi hc => h.id_eq hr hi hc)
    (fun hc hrow => h.dropped (h.live_eq ▸ hrow) hc) (h.live_eq ▸ hrow) hc'

end CompactedTo

/-! ### Linked and compacted -/

section

variable {r r₁ r₂ : Registry} {row : Nat} {c c' : Class}

/-- The slot of a reference that names a member is compacted to the place of an entry that stands
for it. -/
theorem exists_standsFor (hlinked : r.LinkedTo r₁) (hr : r.WellFormed)
    (hcompacted : r₁.CompactedTo r₂) (hrow : row ∈ r₁.keptRows) (hc : r₁.classAt? row = some c)
    (hc' : r₂.classAt? row = some c') {pos slot : Nat} {ref : Reference} {m : Member}
    (hm : c.Mentions pos ref m) (hslot : ref.slot = slot) :
    ∃ index, r₂.compactSlot c'.id slot = .ok index ∧ index < c'.table.length ∧
      StandsFor r₁ r₂ c' index m := by
  have hr₁ := hlinked.laid.wellFormed hr
  obtain ⟨c₃, hc₃, hsteps⟩ := hcompacted.classes hrow hc
  cases hc'.symm.trans hc₃
  obtain ⟨c₁, c₂, hp, ht, hrelocated⟩ := hsteps.steps
  obtain ⟨t, d, k, i, hbody⟩ := hm.body
  obtain ⟨index, p, first, entry, m', d', i', hforward, hentry, hfirst⟩ :=
    exists_entryOf hr₁ hp ht hm.mem hm.kept hbody
  obtain ⟨m'', target, declaring, link, i'', target', declaring', hfirst', hnew, hnew', hentryBody⟩ :=
    hentry.body
  have hsame : m'' = m' ∧ some target = t ∧ some declaring = d' ∧ link = k := by
    rw [hfirst] at hfirst'
    cases hfirst'
    exact ⟨rfl, rfl, rfl, rfl⟩
  obtain ⟨rfl, rfl, rfl, rfl⟩ := hsame
  have hres := hlinked.resolvedIn hrow hc hm.mem hm.kept
  have hres' := hlinked.resolvedIn hrow hc hentry.mem hentry.kept
  rw [hbody] at hres
  rw [hfirst] at hres'
  cases eq_of_resolvedIn hr₁ hres hres'
  obtain ⟨rowt, ct, rowd, cd, decl, n, hfind, hct, hkept, ht', hmember, hcd, -, hd', hn, hsig⟩ := hres'
  cases ht'
  cases hd'
  cases hn
  obtain ⟨hlivet, ct', hct', hnamet, hidt⟩ :=
    hcompacted.exists_renumbered hr₁ (hr₁.find_live hfind) hct hnew
  obtain ⟨named, cd', hnamed, hcd', -⟩ := findMember_ok hmember
  cases hcd.symm.trans hcd'
  obtain ⟨hlived, cd', hcd', -, hidd⟩ :=
    hcompacted.exists_renumbered hr₁ (hr₁.find_live hnamed) hcd hnew'
  have htable : c'.table[index]? = some p := by
    rw [hrelocated.frame]
    exact hentry.table
  have hpool : c'.pool[p]? = some entry := by
    rw [hrelocated.frame]
    exact hentry.pool
  refine ⟨index, ?_, (List.getElem?_eq_some_iff.mp htable).1, ⟨entry, target', declaring', n, ?_⟩⟩
  · rw [hcompacted.compactSlot_ok hr₁ hrow hc']
    refine ⟨p, entry, _, _, _, _, ?_, hpool, hentryBody⟩
    rw [hrelocated.frame, ← hslot]
    exact hforward
  · refine ⟨by rw [Class.entry?, htable]; exact hpool, hentryBody, ⟨rowt, ct', ?_, hct', ?_, hidt⟩,
      by rw [hcompacted.signatures_eq]; exact hsig, ⟨rowd, decl, cd', hmember, hlived, hcd', hidd⟩⟩
    · exact hcompacted.find?_iff.mpr ⟨hfind, hcompacted.live_eq ▸ hlivet⟩
    · exact hnamet.trans (hr₁.find_name hfind hct)

/-- A slot that is compacted is that of a reference which names a member. -/
theorem exists_mentions (hcompacted : r₁.CompactedTo r₂) (hr₁ : r₁.WellFormed)
    (hrow : row ∈ r₁.keptRows) (hc : r₁.classAt? row = some c) (hc' : r₂.classAt? row = some c')
    {slot index : Nat} (hslot : r₂.compactSlot c'.id slot = .ok index) :
    ∃ pos ref m, c.Mentions pos ref m ∧ ref.slot = slot := by
  obtain ⟨p, -, -, -, -, -, hforward, -, -⟩ := (hcompacted.compactSlot_ok hr₁ hrow hc').mp hslot
  obtain ⟨c₃, hc₃, hsteps⟩ := hcompacted.classes hrow hc
  cases hc'.symm.trans hc₃
  obtain ⟨c₁, c₂, hp, ht, hrelocated⟩ := hsteps.steps
  rw [hrelocated.frame] at hforward
  obtain ⟨pos, ref₁, ⟨target, link⟩, hmem₁, hslot₁, hkey⟩ := ht.forwarded hforward
  obtain ⟨ref, body, hmem, hkept, hrenumbered, -, rfl⟩ := hp.mem_references.mp hmem₁
  obtain ⟨m, declaring, i, hbody⟩ := Reference.key?_eq_some.mp hkey
  have hbody : body = .memberRef m target declaring link i := hbody
  subst hbody
  cases hrefBody : ref.body with
  | literal v =>
      rw [hrefBody] at hrenumbered
      cases hrenumbered
  | classRef name t =>
      rw [hrefBody] at hrenumbered
      obtain ⟨old, new, -, -, heq⟩ := hrenumbered
      cases heq
  | memberRef m' t d k i' =>
      exact ⟨pos, ref, m', ⟨hmem, hkept, _, _, _, _, hrefBody⟩, hslot₁⟩

/-- A relocated method keeps the members that its code names. -/
theorem codeKept_of_relocates (hlinked : r.LinkedTo r₁) (hr : r.WellFormed)
    (hcompacted : r₁.CompactedTo r₂) (hrow : row ∈ r₁.keptRows) (hc : r₁.classAt? row = some c)
    (hc' : r₂.classAt? row = some c') {m m' : Method}
    (hm : Relocates (r₂.compactSlot c'.id) m m') : CodeKept r₁ r₂ c c' m m' := by
  have hr₁ := hlinked.laid.wellFormed hr
  have hindexed := hr₁.indexed (mem_keptRows.mp hrow).1 hc
  unfold Relocates at hm
  split at hm
  · rename_i hcode
    obtain ⟨code, hok, rfl⟩ := hm
    obtain ⟨hcomplete, js, hjs, rfl⟩ := Code.relocate_ok.mp hok
    have hdecodes := Code.decodes hcomplete
    refine ⟨rfl, rfl, fun _ => hdecodes.relocated_length hjs, fun _ k hk => ?_, fun i hi hop => ?_⟩
    · exact hdecodes.relocated_getElem? hjs (by simpa only [Nat.zero_add] using hk)
    · obtain ⟨j, -, hj⟩ := forall₂_mem_left hjs hi
      obtain ⟨index, hindex, -⟩ := (Instruction.relocate_member hop).mp hj
      obtain ⟨pos, ref, named, hnamed, hslot⟩ :=
        exists_mentions hcompacted hr₁ hrow hc hc' hindex
      obtain ⟨index', hindex', hlt, hstands⟩ :=
        exists_standsFor hlinked hr hcompacted hrow hc hc' hnamed hslot
      cases hindex.symm.trans hindex'
      obtain ⟨hlisted, hpool⟩ := Class.mem_references.mp hnamed.mem
      have hlookup := hindexed.lookup_iff.mpr ⟨hlisted, ref, hpool, hslot⟩
      obtain ⟨c₃, hc₃, hsteps⟩ := hcompacted.classes hrow hc
      cases hc'.symm.trans hc₃
      obtain ⟨hopcode, hbytes⟩ := hdecodes.relocated_slot hjs hi hop hindex
        (hlt.trans (hsteps.table_length_lt hindexed))
      exact ⟨⟨row, pos⟩, ref, named, index, hr₁.refAddr?_iff.mpr ⟨c, hc, rfl, hlookup⟩,
        refAt?_eq_some.mpr ⟨c, hc, hpool⟩, hnamed, hopcode, hbytes, hlt, hstands⟩
  · rename_i hcode
    subst hm
    have hraw : m'.rawCode = [] := by simpa [Method.hasCode] using hcode
    refine ⟨rfl, rfl, fun h => absurd h hcode, fun h => absurd h hcode, ?_⟩
    rw [hraw]
    intro i hi
    exact absurd hi (by simp [Code.decode, Code.decodeFrom_nil])

end

end Registry

/-! ### Member tables -/

namespace Class.Mentions

open Registry

variable {r r₁ : Registry} {row : Nat} {c : Class} {pos pos' : Nat} {ref ref' : Reference}
  {m : Member}

/-- References that name one member have the same ids of its class and of its signature. -/
theorem same_ids (hlinked : r.LinkedTo r₁) (hrow : row ∈ r₁.keptRows)
    (hc : r₁.classAt? row = some c) (h : c.Mentions pos ref m) (h' : c.Mentions pos' ref' m) :
    ∃ t k d d' i i', ref.body = .memberRef m t d k i ∧ ref'.body = .memberRef m t d' k i' := by
  obtain ⟨t, d, k, i, hbody⟩ := h.body
  obtain ⟨t', d', k', i', hbody'⟩ := h'.body
  have hres := hlinked.resolvedIn hrow hc h.mem h.kept
  have hres' := hlinked.resolvedIn hrow hc h'.mem h'.kept
  rw [hbody] at hres
  rw [hbody'] at hres'
  obtain ⟨rowt, ct, -, -, -, n, hfind, hct, -, rfl, -, -, -, -, rfl, hsig⟩ := hres
  obtain ⟨rowt', ct', -, -, -, n', hfind', hct', -, rfl, -, -, -, -, rfl, hsig'⟩ := hres'
  cases hfind.symm.trans hfind'
  cases hct.symm.trans hct'
  obtain ⟨hlt, -⟩ := List.getElem?_eq_some_iff.mp hsig
  cases (List.getElem?_inj hlt hlinked.nodup).mp (hsig.trans hsig'.symm)
  exact ⟨_, _, d, d', i, i', hbody, hbody'⟩

/-- What becomes of a kept reference. -/
theorem renumbered {ids : Renumbering} {c₁ : Class}
    (hp : Pruned ids { c with slots := [] } c₁) (h : c.Mentions pos ref m) :
    ∃ body, Renumbered ids ref.body body ∧ (pos, rewriteRef c₁.id body ref) ∈ c₁.references := by
  obtain ⟨body, hrenumbered, hset⟩ := hp.rewritten h.mem h.kept
  exact ⟨body, hrenumbered,
    hp.mem_references.mpr ⟨ref, body, h.mem, h.kept, hrenumbered, hset, rfl⟩⟩

/-- References that name one member are told apart by nothing when the table is built. -/
theorem same_key (hlinked : r.LinkedTo r₁) (hrow : row ∈ r₁.keptRows)
    (hc : r₁.classAt? row = some c) (h : c.Mentions pos ref m) (h' : c.Mentions pos' ref' m)
    {ids : Renumbering} {body body' : RefBody} (hbody : Renumbered ids ref.body body)
    (hbody' : Renumbered ids ref'.body body') (owner : Nat) :
    (rewriteRef owner body ref).key? = (rewriteRef owner body' ref').key? := by
  obtain ⟨t, k, d, d', i, i', hnamed, hnamed'⟩ := h.same_ids hlinked hrow hc h'
  obtain ⟨target, new, rfl, hnew, hkey⟩ := hbody.key hnamed owner
  obtain ⟨target', new', hsame, hnew', hkey'⟩ := hbody'.key hnamed' owner
  cases hsame
  cases hnew.symm.trans hnew'
  rw [hkey, hkey']

end Class.Mentions

namespace Registry

variable {r r₁ : Registry} {row : Nat} {c c' : Class}

/-- The slots of the entries of a table increase. -/
theorem Tabled.increasing {ids : Renumbering} {c₁ c₂ : Class}
    (hp : Pruned ids { c with slots := [] } c₁) (ht : Tabled c₁ c₂) (hc : c.Indexed)
    {i j p q : Nat} {first second : Reference} (hij : i < j) (hi : c₂.table[i]? = some p)
    (hj : c₂.table[j]? = some q) (hfirst : c.pool[p]? = some first)
    (hsecond : c.pool[q]? = some second) : first.slot < second.slot := by
  have hslots : ((keptSlots c).map Prod.snd).Nodup := keptSlots_slots_nodup hc
  have hsorted := List.pairwise_map.mp (hp.slots_sorted hslots)
  obtain ⟨refs, hsub, heq⟩ := List.sublist_map_iff.mp ht.sublist
  have hentry : ∀ {k x : Nat} {ref : Reference}, c₂.table[k]? = some x → c.pool[x]? = some ref →
      ∃ hk : k < refs.length, refs[k].2.slot = ref.slot := by
    intro k x ref hx href
    rw [heq, List.getElem?_map, Option.map_eq_some_iff] at hx
    obtain ⟨⟨x', ref₁⟩, hget, rfl⟩ := hx
    obtain ⟨hk, hgk⟩ := List.getElem?_eq_some_iff.mp hget
    obtain ⟨ref₀, body, hmem, -, -, -, rfl⟩ :=
      hp.mem_references.mp (hsub.subset (List.mem_of_getElem? hget))
    cases href.symm.trans (Class.mem_references.mp hmem).2
    exact ⟨hk, by rw [hgk]; rfl⟩
  obtain ⟨hi', hslot⟩ := hentry hi hfirst
  obtain ⟨hj', hslot'⟩ := hentry hj hsecond
  have hlt := List.pairwise_iff_getElem.mp (hsorted.sublist hsub) i j hi' hj' hij
  rwa [hslot, hslot'] at hlt

/-- An entry has the lowest slot of the references that name its member. -/
theorem Tabled.lowest (hlinked : r.LinkedTo r₁) (hr : r.WellFormed) (hrow : row ∈ r₁.keptRows)
    (hc : r₁.classAt? row = some c) {c₁ c₂ : Class}
    (hp : Pruned r₁.newIds { c with slots := [] } c₁) (ht : Tabled c₁ c₂) {index p : Nat}
    (hindex : c₂.table[index]? = some p) : ∃ first m, c.Mentions p first m ∧
      ∀ {pos ref}, c.Mentions pos ref m → first.slot ≤ ref.slot := by
  have hindexed := (hlinked.laid.wellFormed hr).indexed (mem_keptRows.mp hrow).1 hc
  have hslots : ((keptSlots c).map Prod.snd).Nodup := keptSlots_slots_nodup hindexed
  have hsorted := List.pairwise_map.mp (hp.slots_sorted hslots)
  obtain ⟨ref₁, key, before, after, hsplit, hkey, hpool, hbefore⟩ := ht.entry hindex
  have hmem₁ : (p, ref₁) ∈ c₁.references := by
    rw [hsplit]
    exact List.mem_append_right _ List.mem_cons_self
  obtain ⟨first, hentry⟩ := entryOf_of_tabled hp hmem₁ hkey hindex hpool
  obtain ⟨m, target, declaring, link, i, -, -, hfirst, -⟩ := hentry.body
  have hm : c.Mentions p first m := ⟨hentry.mem, hentry.kept, _, _, _, _, hfirst⟩
  refine ⟨first, m, hm, fun {pos ref} hm' => ?_⟩
  obtain ⟨body, hbody, hmem⟩ := hm.renumbered hp
  obtain ⟨body', hbody', hmem'⟩ := hm'.renumbered hp
  have hsame : rewriteRef c₁.id body first = ref₁ := Option.some.inj
    ((Class.mem_references.mp hmem).2.symm.trans (Class.mem_references.mp hmem₁).2)
  subst hsame
  have hkey' := hm.same_key hlinked hrow hc hm' hbody hbody' c₁.id
  -- Nothing with this key stands before the entry, and slots increase.
  rw [hsplit, List.pairwise_append] at hsorted
  rw [hsplit, List.mem_append] at hmem'
  rcases hmem' with hin | hin
  · exact absurd (hkey'.symm.trans hkey) (hbefore _ hin)
  · rcases List.mem_cons.mp hin with heq | hin
    · have hslot : ref.slot = first.slot := congrArg (fun q => q.2.slot) heq
      omega
    · exact Int.le_of_lt ((List.pairwise_cons.mp hsorted.2.1).1 _ hin)

/-- The member table of a compacted class. -/
theorem tableOf_of_compacted (hlinked : r.LinkedTo r₁) (hr : r.WellFormed)
    (hrow : row ∈ r₁.keptRows) (hc : r₁.classAt? row = some c)
    {remap : Nat → Nat → Except Inconsistency Nat} (hsteps : Compacted r₁.newIds remap c c') :
    TableOf c c' := by
  have hr₁ := hlinked.laid.wellFormed hr
  obtain ⟨c₁, c₂, hp, ht, hrelocated⟩ := hsteps.steps
  have htable : c'.table = c₂.table := by rw [hrelocated.frame]
  constructor
  · intro pos ref m hm
    obtain ⟨t, d, k, i, hbody⟩ := hm.body
    obtain ⟨index, p, first, entry, m', d', i', -, hentry, hfirst⟩ :=
      exists_entryOf hr₁ hp ht hm.mem hm.kept hbody
    have hres := hlinked.resolvedIn hrow hc hm.mem hm.kept
    have hres' := hlinked.resolvedIn hrow hc hentry.mem hentry.kept
    rw [hbody] at hres
    rw [hfirst] at hres'
    cases eq_of_resolvedIn hr₁ hres hres'
    exact ⟨index, p, first, htable ▸ hentry.table, hentry.mem, hentry.kept, _, _, _, _, hfirst⟩
  · intro index p hindex
    exact ht.lowest hlinked hr hrow hc hp (htable ▸ hindex)
  · intro i j p q first second hij hi hj
    exact ht.increasing hp (hr₁.indexed (mem_keptRows.mp hrow).1 hc) hij (htable ▸ hi)
      (htable ▸ hj)
  · intro i j p q first second m hi hj hm hm'
    obtain ⟨body, hbody, hmem⟩ := hm.renumbered hp
    obtain ⟨body', hbody', hmem'⟩ := hm'.renumbered hp
    exact ht.distinct (htable ▸ hi) (htable ▸ hj) hmem hmem'
      (hm.same_key hlinked hrow hc hm' hbody hbody' c₁.id)

/-- What linking and compacting a registry preserve: exactly the kept classes survive, with their
kept methods and with their member tables. -/
theorem compact_preserves {r₂ : Registry} (hr : r.WellFormed) (hnamed : r.SelfNamed)
    (hlink : link r = .ok () r₁) (hcompact : compact r₁ = .ok () r₂) :
    r₂.live = r₁.keptRows ∧ relocate r₂ = .ok () r₂ ∧
      ∀ {row c}, row ∈ r₁.keptRows → r₁.classAt? row = some c →
        ∃ c', r₂.classAt? row = some c' ∧ c'.name = c.name ∧
          List.Forall₂ (CodeKept r₁ r₂ c c') (c.methods.filter Method.kept) c'.methods ∧
          TableOf c c' := by
  have hlinked := link_spec hlink
  have hcompacted := compact_spec (hlinked.laid.wellFormed hr) (hlinked.laid.selfNamed hnamed)
    hcompact
  refine ⟨hcompacted.live_eq, hcompacted.relocated, fun {row c} hrow hc => ?_⟩
  obtain ⟨c', hc', hsteps⟩ := hcompacted.classes hrow hc
  refine ⟨c', hc', hsteps.name_eq, ?_, tableOf_of_compacted hlinked hr hrow hc hsteps⟩
  obtain ⟨c₁, c₂, hp, ht, hrelocated⟩ := hsteps.steps
  have hmethods : c₂.methods = c.methods.filter Method.kept := by rw [ht.frame, hp.frame]
  have hid : c'.id = c₂.id := by rw [hrelocated.frame]
  rw [← hmethods]
  refine hrelocated.methods.imp fun {m m'} hm => ?_
  exact codeKept_of_relocates hlinked hr hcompacted hrow hc hc' (hid ▸ hm)

end Registry

end ClassLinker
