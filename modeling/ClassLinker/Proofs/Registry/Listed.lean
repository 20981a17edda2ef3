import ClassLinker.Proofs.Registry.LaidOut

/-! What holds of every registry, whatever led to it. A compaction that fails after it has begun
forgets the names of classes that stay listed and leaves ids behind that are not those of the places.
A name still stands for a listed class, no class declares a signature twice, and a class that is not
kept has its id and no reference that is kept. -/

namespace ClassLinker

namespace Registry

open RegistryM Step

theorem signatures_eq_marks (c : Class) : c.signatures = c.marks.map Mark.sig := by
  rw [Class.signatures, Class.marks, List.map_append, List.map_map, List.map_map]
  rfl

/-- Names stand for listed classes, signatures tell the members of a class apart, and nothing of a
listed class is kept before the class is. -/
structure Listed (r : Registry) : Prop where
  named : ∀ {name row}, r.find? name = some row →
    row ∈ r.live ∧ ∃ c, r.classAt? row = some c ∧ c.name = name
  signatures_nodup : ∀ {row c}, r.classAt? row = some c → c.signatures.Nodup
  dropped : ∀ {i row c}, r.live[i]? = some row → r.classAt? row = some c → c.kept = false →
    c.id = i ∧ ∀ ref ∈ c.pool, ref.owner = i ∧ ref.kept = false

theorem listed_empty : ({} : Registry).Listed := by
  constructor
  · intro name row h
    cases h
  · intro row c hc
    cases hc
  · intro i row c hi
    cases hi

/-- The names that are left when those of dropped classes are forgotten. -/
theorem find?_of_dropNames {r : Registry} {name : Text} {row : Nat}
    (h : r.dropNames.find? name = some row) : r.find? name = some row ∧
      ∀ {p c}, p ∈ r.live → r.classAt? p = some c → c.kept = false → c.name ≠ name := by
  unfold dropNames find? at h
  rw [lookup_filter r.names (fun name => !(r.classes.filterMap fun p =>
    if p.2.kept then none else some p.2.name).contains name)] at h
  split at h
  case isTrue hleft =>
      refine ⟨h, fun {p c} hp hc hkept hname => ?_⟩
      rw [Bool.not_eq_true', List.contains_eq_mem, decide_eq_false_iff_not] at hleft
      refine hleft (List.mem_filterMap.mpr ⟨(p, c), mem_classes.mpr ⟨hp, hc⟩, ?_⟩)
      rw [if_neg (by rw [hkept]; decide), hname]
  case isFalse => cases h

namespace Listed

variable {r r' : Registry} {stale : Bool}

/-- When all classes are kept, only names and signatures matter. -/
theorem of_kept (hkept : ∀ row ∈ r.live, ∀ c, r.classAt? row = some c → c.kept = true)
    (hnamed : ∀ {name row}, r.find? name = some row →
      row ∈ r.live ∧ ∃ c, r.classAt? row = some c ∧ c.name = name)
    (hsig : ∀ {row c}, r.classAt? row = some c → c.signatures.Nodup) : r.Listed := by
  refine ⟨hnamed, hsig, fun {i row c} hi hc hdropped => ?_⟩
  rw [hkept row (List.mem_of_getElem? hi) c hc] at hdropped
  cases hdropped

theorem modifyClass (h : r.Listed) {row : Nat} {f : Class → Class}
    (hname : ∀ c, (f c).name = c.name)
    (hsig : ∀ {c}, r.classAt? row = some c → c.signatures.Nodup → (f c).signatures.Nodup)
    (hdropped : ∀ {i c}, r.live[i]? = some row → r.classAt? row = some c → (f c).kept = false →
      (f c).id = i ∧ ∀ ref ∈ (f c).pool, ref.owner = i ∧ ref.kept = false) :
    (r.modifyClass row f).Listed := by
  refine ⟨fun {name p} hp => ?_, fun {p c'} hc' => ?_, fun {i p c'} hi hc' hkept => ?_⟩
  · obtain ⟨hlive, c, hc, rfl⟩ := h.named hp
    refine ⟨hlive, ?_⟩
    rw [classAt?_modifyClass, hc]
    split
    · exact ⟨f c, rfl, hname c⟩
    · exact ⟨c, rfl, rfl⟩
  · obtain ⟨c, hc, ⟨rfl, rfl⟩ | ⟨-, rfl⟩⟩ := classAt?_of_modifyClass hc'
    · exact hsig hc (h.signatures_nodup hc)
    · exact h.signatures_nodup hc
  · obtain ⟨c, hc, ⟨rfl, rfl⟩ | ⟨-, rfl⟩⟩ := classAt?_of_modifyClass hc'
    · exact hdropped hi hc hkept
    · exact h.dropped hi hc hkept

/-- A change of a class that does not concern what is listed of it. -/
theorem modifyElsewhere (h : r.Listed) {row : Nat} {f : Class → Class}
    (hname : ∀ c, (f c).name = c.name) (hsig : ∀ c, (f c).signatures = c.signatures)
    (hkept : ∀ c, (f c).kept = false → c.kept = false) (hid : ∀ c, (f c).id = c.id)
    (hpool : ∀ c, (f c).pool = c.pool) : (r.modifyClass row f).Listed := by
  refine h.modifyClass hname (fun {c} _ hnodup => by rwa [hsig c]) fun {i c} hi hc hdropped => ?_
  rw [hid, hpool]
  exact h.dropped hi hc (hkept c hdropped)

theorem modifyMethod (h : r.Listed) {row : Nat} {sig : Signature} {f : Method → Method}
    (hf : ∀ m, (f m).mark = m.mark) : (r.modifyMethod row sig f).Listed := by
  refine h.modifyElsewhere (f := fun c => { c with
    methods := c.methods.map fun m => if m.sig = sig then f m else m }) (fun _ => rfl)
    (fun c => ?_) (fun _ => id) (fun _ => rfl) fun _ => rfl
  rw [signatures_eq_marks, signatures_eq_marks, marks_modifyMethod hf]

theorem sameButChildren (h : r.Listed) (hsame : SameButChildren r r') : r'.Listed := by
  refine ⟨fun {name row} hrow => ?_, fun {row c'} hc' => ?_, fun {i row c'} hi hc' hkept => ?_⟩
  · obtain ⟨hlive, c, hc, hname⟩ := h.named ((hsame.find?_eq name).symm.trans hrow)
    obtain ⟨children, hc'⟩ := hsame.classes hc
    exact ⟨hsame.live_eq ▸ hlive, _, hc', hname⟩
  · obtain ⟨c, hc, heq⟩ := hsame.exists_old hc'
    have hnodup : c.signatures.Nodup := h.signatures_nodup hc
    rwa [heq]
  · obtain ⟨c, hc, heq⟩ := hsame.exists_old hc'
    rw [heq] at hkept ⊢
    exact h.dropped (c := c) (hsame.live_eq ▸ hi) hc hkept

theorem laid (h : r.Listed) (hlaid : r.Laid r') : r'.Listed := by
  refine ⟨fun {name row} hrow => ?_, fun {row c'} hc' => ?_, fun {i row c'} hi hc' hkept => ?_⟩
  · obtain ⟨hlive, c, hc, hname⟩ := h.named ((hlaid.find?_eq name).symm.trans hrow)
    obtain ⟨c', hc', hclass⟩ := hlaid.classes hc
    exact ⟨hlaid.live_eq ▸ hlive, c', hc', hclass.name_eq.trans hname⟩
  · obtain ⟨c, hc, hclass⟩ := hlaid.exists_old hc'
    rw [hclass.signatures_eq]
    exact h.signatures_nodup hc
  · obtain ⟨c, hc, hclass⟩ := hlaid.exists_old hc'
    obtain ⟨hid, hrefs⟩ := h.dropped (hlaid.live_eq ▸ hi) hc (hclass.kept_eq.symm.trans hkept)
    refine ⟨hclass.id_eq.trans hid, fun ref' href' => ?_⟩
    obtain ⟨pos, hpos⟩ := Array.mem_iff_getElem?.mp href'
    obtain ⟨ref, href, hreflaid⟩ := hclass.pool_old hpos
    rw [hreflaid.owner_eq, hreflaid.kept_eq]
    exact hrefs ref (Array.mem_of_getElem? href)

/-- A class that is stored and not listed yet. -/
theorem store (h : r.Listed) (hlt : ∀ row ∈ r.live, row < r.rows.size) {c : Class}
    (hsig : c.signatures.Nodup) : (r.store c).Listed := by
  have hlive : ∀ {row}, row ∈ r.live → (r.store c).classAt? row = r.classAt? row := fun hrow => by
    rw [classAt?_store, if_neg (Nat.ne_of_lt (hlt _ hrow))]
  refine ⟨fun {name row} hrow => ?_, fun {row c'} hc' => ?_, fun {i row c'} hi hc' => ?_⟩
  · obtain ⟨hmem, hclass⟩ := h.named hrow
    exact ⟨hmem, by rwa [hlive hmem]⟩
  · rw [classAt?_store] at hc'
    split at hc'
    · cases hc'
      exact hsig
    · exact h.signatures_nodup hc'
  · rw [hlive (List.mem_of_getElem? hi)] at hc'
    exact h.dropped hi hc'

/-- Listing a stored class under its name. -/
theorem enlist (h : r.Listed) {row : Nat} {c : Class} (hc : r.classAt? row = some c)
    (hid : c.id = r.live.length) (hpool : c.pool = #[]) : (r.enlist row c.name).Listed := by
  refine ⟨fun {name p} hp => ?_, h.signatures_nodup, fun {i p c'} hi hc' hkept => ?_⟩
  · change ((c.name, row) :: r.names).lookup name = some p at hp
    rw [List.lookup_cons] at hp
    split at hp
    · rename_i heq
      cases hp
      exact ⟨List.mem_append_right _ (List.mem_singleton.mpr rfl), c, hc, (eq_of_beq heq).symm⟩
    · obtain ⟨hlive, hclass⟩ := h.named hp
      exact ⟨List.mem_append_left _ hlive, hclass⟩
  · change (r.live ++ [row])[i]? = some p at hi
    rw [List.getElem?_append] at hi
    split at hi
    · exact h.dropped hi hc' hkept
    · rename_i hge
      rw [List.getElem?_singleton] at hi
      split at hi
      · rename_i hzero
        cases hi
        cases hc.symm.trans hc'
        rw [hpool]
        exact ⟨hid.trans (by omega), fun ref href => nomatch href⟩
      · cases hi

theorem addRef (h : r.Listed) (row : Nat) (slot : Int) (body : RefBody) :
    (r.modifyClass row (Class.addRef slot body)).Listed := by
  refine h.modifyClass (fun _ => rfl) (fun _ hnodup => hnodup) fun {i c} hi hc hdropped => ?_
  obtain ⟨hid, hrefs⟩ := h.dropped hi hc hdropped
  refine ⟨hid, fun ref href => ?_⟩
  rcases Array.mem_push.mp href with href | rfl
  · exact hrefs ref href
  · exact ⟨hid, rfl⟩

/-- A reference is kept only when its class is. -/
theorem keepRef (h : r.Listed) {a : RefAddr} {ref : Reference} (href : r.refAt? a = some ref)
    (howner : ∃ row c, r.byId? ref.owner = some row ∧ r.classAt? row = some c ∧ c.kept = true) :
    (r.modifyClass a.row fun c => { c with pool := c.pool.modify a.pos markRef }).Listed := by
  obtain ⟨row, cr, hrow, hcr, hkeptOwner⟩ := howner
  refine h.modifyClass (fun _ => rfl) (fun _ hnodup => hnodup) fun {i c} hi hc hdropped => ?_
  -- A class that is not kept owns its references, and the owner of this one is kept.
  obtain ⟨hid, hrefs⟩ := h.dropped hi hc hdropped
  obtain ⟨c', hc', hpos⟩ := refAt?_eq_some.mp href
  cases hc.symm.trans hc'
  have hbyId : r.byId? ref.owner = r.live[i]? := by
    rw [(hrefs ref (Array.mem_of_getElem? hpos)).1, byId?, if_neg (by omega), Int.toNat_natCast]
  rw [hbyId, hi] at hrow
  cases hrow
  cases hc.symm.trans hcr
  cases hkeptOwner.symm.trans hdropped

theorem edit (h : r.Listed) {op : Operation} {row : Nat} {f : Class → Class}
    (hedit : Edit r op row f) : (r.modifyClass row f).Listed := by
  cases hedit with
  | createMethod _ hc hnew =>
      refine h.modifyClass (fun _ => rfl) (fun {c} hc' hnodup => ?_) fun {i c} hi hc =>
        h.dropped (c := c) hi hc
      cases hc.symm.trans hc'
      exact Class.nodup_append_method hnodup hnew
  | createField _ hc hnew =>
      refine h.modifyClass (fun _ => rfl) (fun {c} hc' hnodup => ?_) fun {i c} hi hc =>
        h.dropped (c := c) hi hc
      cases hc.symm.trans hc'
      exact Class.nodup_append_field hnodup hnew
  | createRef => exact h.addRef _ _ _
  | allocSlot =>
      exact h.modifyElsewhere (fun _ => rfl) (fun _ => rfl) (fun _ => id) (fun _ => rfl) fun _ => rfl
  | keepClass =>
      exact h.modifyElsewhere (fun _ => rfl) (fun _ => rfl) (fun _ h => by cases h)
        (fun _ => rfl) fun _ => rfl
  | @keepMember _ sig =>
      refine h.modifyElsewhere (fun c => ?_) (signatures_markMember · sig) (fun c => ?_)
        (fun c => ?_) fun c => ?_
      all_goals unfold markMember; split <;> first | rfl | exact id
  | keepRef _ href howner => exact h.keepRef href howner
  | annotate _ hf => exact h.modifyMethod fun m => Method.Annotated.mark_eq (hf m)

/-- A name that is left is that of a kept class. -/
theorem named_of_dropNames (h : r.Listed) {name : Text} {row : Nat}
    (hrow : r.dropNames.find? name = some row) :
    row ∈ r.keptRows ∧ ∃ c, r.classAt? row = some c ∧ c.name = name := by
  obtain ⟨hrow, hleft⟩ := find?_of_dropNames hrow
  obtain ⟨hlive, c, hc, hname⟩ := h.named hrow
  refine ⟨mem_keptRows.mpr ⟨hlive, c, hc, ?_⟩, c, hc, hname⟩
  by_contra hkept
  exact hleft hlive hc (Bool.not_eq_true _ ▸ hkept) hname

end Listed

/-- `u` is `r` while its kept classes are pruned: what is not kept has lost its name, and no class is
dropped yet. -/
structure Pruning (r u : Registry) : Prop where
  listed : u.Listed
  live_eq : u.live = r.live
  names_eq : u.names = r.dropNames.names
  classes : ∀ {row c}, r.classAt? row = some c →
    ∃ c', u.classAt? row = some c' ∧ c'.name = c.name ∧ c'.kept = c.kept

namespace Pruning

variable {r u : Registry}

theorem modifyClass (h : Pruning r u) {row : Nat} {f : Class → Class} (hrow : row ∈ r.keptRows)
    (hname : ∀ c, (f c).name = c.name) (hkept : ∀ c, (f c).kept = c.kept)
    (hsig : ∀ c, c.signatures.Nodup → (f c).signatures.Nodup) :
    Pruning r (u.modifyClass row f) := by
  refine ⟨h.listed.modifyClass hname (fun {c} _ => hsig c) fun {i c} _ hc hdropped => ?_, h.live_eq,
    h.names_eq, fun {p c} hc => ?_⟩
  · obtain ⟨-, c₀, hc₀, hkept₀⟩ := mem_keptRows.mp hrow
    obtain ⟨c', hc', -, hkept'⟩ := h.classes hc₀
    cases hc.symm.trans hc'
    rw [hkept, hkept', hkept₀] at hdropped
    cases hdropped
  · obtain ⟨c', hc', hname', hkept'⟩ := h.classes hc
    rw [classAt?_modifyClass, hc']
    split
    · exact ⟨f c', rfl, (hname c').trans hname', (hkept c').trans hkept'⟩
    · exact ⟨c', rfl, hname', hkept'⟩

theorem pruneClass (h : Pruning r u) (ids : Renumbering) {row : Nat} (hrow : row ∈ r.keptRows) :
    Pruning r (final (pruneClass ids row u)) := by
  refine final_pruneClass (P := Pruning r) (fun _ => h) (fun c isKept hc => ?_) fun hf hv => ?_
  · rw [modifyClass_congr (f := fun _ => stripped ids isKept c) (g := stripped ids isKept) hc rfl]
    refine h.modifyClass hrow (fun _ => rfl) (fun _ => rfl) fun c hnodup => ?_
    rw [signatures_eq_marks] at hnodup ⊢
    rw [marks_stripped]
    exact hnodup.sublist (List.filter_sublist.map Mark.sig)
  · refine hv.modifyClass hrow (fun c => (hf c).2.2) (fun c => (hf c).2.1) fun c hnodup => ?_
    rwa [signatures_eq_marks, (hf c).1, ← signatures_eq_marks]

theorem of_listed (h : r.Listed) : Pruning r r.unindexed := by
  have hold : ∀ {row c'}, r.unindexed.classAt? row = some c' →
      ∃ c, r.classAt? row = some c ∧ c' = { c with slots := [] } := by
    intro row c' hc'
    rw [classAt?_unindexed] at hc'
    obtain ⟨c, hc, rfl⟩ := Option.map_eq_some_iff.mp hc'
    exact ⟨c, hc, rfl⟩
  have hnew : ∀ {row c}, r.classAt? row = some c →
      r.unindexed.classAt? row = some { c with slots := [] } := by
    intro row c hc
    rw [classAt?_unindexed, hc, Option.map_some]
  refine ⟨⟨fun {name row} hrow => ?_, fun {row c'} hc' => ?_, fun {i row c'} hi hc' hkept => ?_⟩,
    rfl, rfl, fun {row c} hc => ⟨_, hnew hc, rfl, rfl⟩⟩
  · obtain ⟨hmem, c, hc, hname⟩ := h.named_of_dropNames hrow
    exact ⟨(mem_keptRows.mp hmem).1, _, hnew hc, hname⟩
  · obtain ⟨c, hc, rfl⟩ := hold hc'
    exact h.signatures_nodup (c := c) hc
  · obtain ⟨c, hc, rfl⟩ := hold hc'
    exact h.dropped (c := c) hi hc hkept

/-- Once all classes are pruned, those that have lost their names are dropped. -/
theorem tabled (h : Pruning r u) (hr : r.Listed) (hnodup : r.keptRows.Nodup) :
    (tabled r.keptRows u).Listed := by
  obtain ⟨rows, hframe, -⟩ := buildTables_frame { u with live := r.keptRows }
  have hclass : ∀ {row c'}, (Registry.tabled r.keptRows u).classAt? row = some c' →
      ∃ c, u.classAt? row = some c ∧ c'.kept = c.kept ∧ c'.signatures = c.signatures := by
    intro row c' hc'
    rw [Registry.tabled, classAt?_buildTables hnodup] at hc'
    obtain ⟨c, hc, rfl⟩ := Option.map_eq_some_iff.mp hc'
    refine ⟨c, hc, ?_⟩
    split <;> exact ⟨rfl, rfl⟩
  refine .of_kept (fun row hrow c' hc' => ?_) (fun {name row} hrow => ?_) fun {row c'} hc' => ?_
  · rw [Registry.tabled, hframe] at hrow
    obtain ⟨-, c₀, hc₀, hkept₀⟩ := mem_keptRows.mp hrow
    obtain ⟨c, hc, hkept, -⟩ := hclass hc'
    obtain ⟨c₁, hc₁, -, hkept₁⟩ := h.classes hc₀
    cases hc.symm.trans hc₁
    exact hkept.trans (hkept₁.trans hkept₀)
  · rw [Registry.tabled, hframe, find?, h.names_eq] at hrow
    obtain ⟨hmem, c₀, hc₀, hname⟩ := hr.named_of_dropNames hrow
    obtain ⟨c, hc, hname', -⟩ := h.classes hc₀
    refine ⟨by rw [Registry.tabled, hframe]; exact hmem, buildTable c, ?_, hname'.trans hname⟩
    rw [Registry.tabled, classAt?_buildTables hnodup]
    exact (congrArg (Option.map _) hc).trans (congrArg some (if_pos hmem))
  · obtain ⟨c, hc, -, hsig⟩ := hclass hc'
    rw [hsig]
    exact h.listed.signatures_nodup hc

end Pruning

namespace Listed

variable {r : Registry} {stale : Bool}

/-- Wherever compaction stops: a class that has lost its name is dropped when all classes are pruned,
and before that it stays listed. -/
theorem compact (h : r.Listed) (hr : r.Settled stale) : (final (Registry.compact r)).Listed := by
  have hnames : r.dropNames.Listed := by
    refine ⟨fun {name row} hrow => ?_, h.signatures_nodup, h.dropped⟩
    obtain ⟨hmem, hclass⟩ := h.named_of_dropNames hrow
    exact ⟨(mem_keptRows.mp hmem).1, hclass⟩
  obtain hfinal | ⟨u, hu, hok⟩ := final_compact h hnames (.of_listed h)
    (fun row hrow _ hu => hu.pruneClass r.newIds hrow) Pruning.listed
    (fun hu => hu.tabled h hr.held.keptRows_nodup) fun hu => hu.modifyMethod fun _ => rfl
  · exact hfinal
  · rw [hok]
    exact ⟨hu.named, hu.signatures_nodup, hu.dropped⟩

/-- Every operation, whether or not it succeeds. -/
theorem apply (h : r.Listed) (hr : r.Settled stale) (op : Operation) : (op.apply r).Listed := by
  refine apply_induction h op (fun hedit => h.edit hedit) (fun {spec} _ => ?_)
    (fun _ => h.laid (link_laid r)) (fun _ => h.compact hr)
    fun _ => final_relocate h fun hw => hw.modifyMethod fun _ => rfl
  have hstored := h.store hr.held.live_lt (c := spec.toClass r.live.length) List.nodup_nil
  exact final_createClass h hstored
    (fun _ => hstored.enlist (by rw [classAt?_store, if_pos rfl]) rfl rfl)
    fun hsame hu => hu.sameButChildren hsame

theorem foldl (h : r.Listed) (hr : r.Settled stale) (ops : List Operation) :
    (ops.foldl Operation.apply r).Listed := by
  induction ops generalizing r stale with
  | nil => exact h
  | cons op ops ih => exact ih (h.apply hr op) (hr.apply op)

end Listed

end Registry

end ClassLinker
