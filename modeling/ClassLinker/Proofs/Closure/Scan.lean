import ClassLinker.Proofs.Closure.Uses

/-! Scanning a method records exactly its uses, and touches nothing but the class of the method. -/

namespace ClassLinker

/-- The class with its next slot reserved. -/
def Class.reserve (c : Class) : Class := { c with maxSlot := c.maxSlot + 1 }

namespace Registry

open RegistryM

theorem createRef_tidy {r r' : Registry} (h : r.Tidy) {row : Nat} {slot : Int} {body : RefBody}
    {a : RefAddr} (hok : createRef row slot body r = .ok a r') : r'.Tidy := by
  have hwf := createRef_wellFormed h.wellFormed row slot body
  rw [hok] at hwf
  obtain ⟨-, c, -, -, -, -, rfl, -⟩ := createRef_ok.mp hok
  exact h.modifyClass hwf fun c => ⟨rfl, rfl, rfl, rfl⟩

theorem allocSlot_tidy {r r' : Registry} (h : r.Tidy) {row : Nat} {slot : Int}
    (hok : allocSlot row r = .ok slot r') : r'.Tidy := by
  have hwf := allocSlot_wellFormed h.wellFormed row
  rw [hok] at hwf
  obtain ⟨-, c, -, -, rfl, -⟩ := allocSlot_ok.mp hok
  exact h.modifyClass hwf fun c => ⟨rfl, rfl, rfl, rfl⟩

end Registry

namespace Closure

open LinkM RegistryM Step Registry

/-- A step that only works on the class in one row: it adds members and references to it, none of
them kept, and may add references to array classes for it. -/
structure Builds (row : Nat) (l l' : Linker) : Prop where
  frame : l' = { l with
    registry := { l.registry with rows := l'.registry.rows }, arrayRefs := l'.arrayRefs }
  size_eq : l'.registry.rows.size = l.registry.rows.size
  other : ∀ {p}, p ≠ row → l'.registry.classAt? p = l.registry.classAt? p
  this : ∀ {c}, l.registry.classAt? row = some c → ∃ c', l'.registry.classAt? row = some c' ∧
    c' = { c with
      methods := c'.methods, fields := c'.fields, pool := c'.pool, listed := c'.listed
      slots := c'.slots, maxSlot := c'.maxSlot } ∧
    c.PoolExtends c' ∧
    ∀ {pos : Nat} {ref}, c'.pool[pos]? = some ref → c.pool[pos]? = some ref ∨ ref.kept = false
  arrays : ∀ {key a}, l.arrayRefs.lookup key = some a → l'.arrayRefs.lookup key = some a
  arrays_old : ∀ {key a}, l'.arrayRefs.lookup key = some a →
    l.arrayRefs.lookup key = some a ∨ key.1 = row

namespace Builds

variable {row : Nat} {l l' l'' : Linker}

theorem refl (row : Nat) (l : Linker) : Builds row l l where
  frame := rfl
  size_eq := rfl
  other _ := rfl
  this {c} hc := ⟨c, hc, rfl, .refl c, fun href => Or.inl href⟩
  arrays ha := ha
  arrays_old ha := Or.inl ha

theorem trans (h : Builds row l l') (h' : Builds row l' l'') : Builds row l l'' where
  frame := by rw [h'.frame, h.frame]
  size_eq := h'.size_eq.trans h.size_eq
  other hp := (h'.other hp).trans (h.other hp)
  this {c} hc := by
    obtain ⟨c', hc', heq, hext, hnew⟩ := h.this hc
    obtain ⟨c'', hc'', heq', hext', hnew'⟩ := h'.this hc'
    refine ⟨c'', hc'', by rw [heq', heq], hext.trans hext', ?_⟩
    intro pos ref href
    rcases hnew' href with href | hkept
    · exact hnew href
    · exact Or.inr hkept
  arrays ha := h'.arrays (h.arrays ha)
  arrays_old ha := by
    rcases h'.arrays_old ha with ha | hrow
    · exact h.arrays_old ha
    · exact Or.inr hrow

/-- A change of the class alone. -/
theorem modifyClass (l : Linker) (row : Nat) {f : Class → Class}
    (hf : ∀ c, l.registry.classAt? row = some c → f c = { c with
      methods := (f c).methods, fields := (f c).fields, pool := (f c).pool, listed := (f c).listed
      slots := (f c).slots, maxSlot := (f c).maxSlot } ∧ c.PoolExtends (f c) ∧
      ∀ {pos : Nat} {ref}, (f c).pool[pos]? = some ref → c.pool[pos]? = some ref ∨
        ref.kept = false) :
    Builds row l { l with registry := l.registry.modifyClass row f } where
  frame := rfl
  size_eq := size_modifyClass ..
  other {p} hp := by rw [classAt?_modifyClass, if_neg (Ne.symm hp)]
  this {c} hc := ⟨f c, by rw [classAt?_modifyClass, if_pos rfl, hc, Option.map_some], hf c hc⟩
  arrays ha := ha
  arrays_old ha := Or.inl ha

/-- Remembering a reference to an array class that the class did not have. -/
theorem addArray (l : Linker) {row : Nat} {name : Text} (a : RefAddr)
    (hnew : l.arrayRefs.lookup (row, name) = none) :
    Builds row l { l with arrayRefs := ((row, name), a) :: l.arrayRefs } where
  frame := rfl
  size_eq := rfl
  other _ := rfl
  this {c} hc := ⟨c, hc, rfl, .refl c, fun href => Or.inl href⟩
  arrays {key b} hb := by
    have hne : key ≠ (row, name) := by
      rintro rfl
      rw [hnew] at hb
      cases hb
    rw [List.lookup_cons, beq_false_of_ne hne]
    exact hb
  arrays_old {key b} hb := by
    by_cases hkey : key = (row, name)
    · exact Or.inr (by rw [hkey])
    · rw [List.lookup_cons, beq_false_of_ne hkey] at hb
      exact Or.inl hb

end Builds

/-- The state while the last method of the class in a row is scanned: from the state `start`, in
which it was the method `bare`, the given uses have been recorded. -/
structure Scanning (declared : List Int) (row : Nat) (start : Linker) (before : List Method)
    (fields : List Field) (bare : Method) (uses : List Use) (l : Linker) : Prop where
  builds : Builds row start l
  tidy : l.registry.Tidy
  before_ne : ∀ m ∈ before, m.sig ≠ bare.sig
  scanned : ∃ c m, l.registry.classAt? row = some c ∧ c.methods = before ++ [m] ∧
    c.fields = fields ∧ bare.SameButDeps m ∧ c.Filled declared row (l.arraysOf row) ∧
    m.Records c row (l.arraysOf row) uses

namespace Scanning

variable {declared : List Int} {row : Nat} {start l l' : Linker} {before : List Method}
  {fields : List Field} {bare : Method} {uses : List Use}

/-- Recording one more use. -/
theorem note (h : Scanning declared row start before fields bare uses l) {u : Use}
    {f : Method → Method} (hf : ∀ m : Method, m.SameButDeps (f m))
    (hrecords : ∀ c m, l.registry.classAt? row = some c → m.Records c row (l.arraysOf row) uses →
      (f m).Records c row (l.arraysOf row) (uses ++ [u])) :
    Scanning declared row start before fields bare (uses ++ [u])
      { l with registry := l.registry.modifyMethod row bare.sig f } := by
  obtain ⟨c, m, hc, hmethods, hfields, hsame, hfilled, hrec⟩ := h.scanned
  have hsame' : bare.SameButDeps (f m) := hsame.trans (hf m)
  have hlast : (c.methods.map fun m => if m.sig = bare.sig then f m else m) =
      before ++ [f m] := by
    rw [hmethods, List.map_append, List.map_cons, List.map_nil, if_pos hsame.sig_eq]
    congr 1
    rw [List.map_congr_left (g := id), List.map_id]
    intro b hb
    exact if_neg (h.before_ne b hb)
  have hwf : (l.registry.modifyMethod row bare.sig f).WellFormed := by
    apply h.tidy.wellFormed.modifyClass
    intro c' hc'
    cases hc.symm.trans hc'
    have hnodup := h.tidy.wellFormed.signatures_nodup hc
    refine ⟨rfl, rfl, ?_, fun _ => ?_, fun slot pos hs => Or.inl ⟨pos, hs⟩⟩
    · unfold Class.signatures at hnodup ⊢
      dsimp only
      rw [hlast]
      rw [hmethods] at hnodup
      simpa only [List.map_append, List.map_cons, List.map_nil, hsame.sig_eq, hsame'.sig_eq]
        using hnodup
    · exact (h.tidy.indexed hc).of_frame rfl (fun _ => rfl) rfl rfl (Int.le_refl _)
  have hext : ∀ methods, c.PoolExtends { c with methods := methods } := fun _ =>
    ⟨rfl, fun hs => hs, fun {_ ref} href => ⟨ref, href, rfl, rfl⟩⟩
  refine ⟨h.builds.trans ?_, h.tidy.modifyClass hwf fun c => ⟨rfl, rfl, rfl, rfl⟩, h.before_ne, ?_⟩
  · refine Builds.modifyClass l row fun c _ => ⟨rfl, ?_, fun href => Or.inl href⟩
    exact ⟨rfl, fun hs => hs, fun {_ ref} href => ⟨ref, href, rfl, rfl⟩⟩
  · refine ⟨{ c with methods := before ++ [f m] }, f m, ?_, rfl, hfields, hsame', ?_, ?_⟩
    · rw [modifyMethod, classAt?_modifyClass, if_pos rfl, hc, Option.map_some, hlast]
    · exact ⟨hfilled.listed_all, hfilled.known, hfilled.origin, hfilled.added⟩
    · exact (hrecords c m hc hrec).mono (hext _) fun ha => ha

/-- Changing the pool of the class keeps what was recorded. -/
theorem rebuild (h : Scanning declared row start before fields bare uses l)
    (hbuilds : Builds row l l') (htidy : l'.registry.Tidy)
    (hclass : ∀ c, l.registry.classAt? row = some c → c.Filled declared row (l.arraysOf row) →
      ∃ c', l'.registry.classAt? row = some c' ∧ c'.methods = c.methods ∧ c'.fields = c.fields ∧
        c'.Filled declared row (l'.arraysOf row)) :
    Scanning declared row start before fields bare uses l' := by
  obtain ⟨c, m, hc, hmethods, hfields, hsame, hfilled, hrec⟩ := h.scanned
  obtain ⟨c', hc', hmethods', hfields', hfilled'⟩ := hclass c hc hfilled
  obtain ⟨c'', hc'', -, hext, -⟩ := hbuilds.this hc
  cases hc'.symm.trans hc''
  exact ⟨h.builds.trans hbuilds, htidy, h.before_ne, c', m, hc', hmethods'.trans hmethods,
    hfields'.trans hfields, hsame, hfilled', hrec.mono hext fun ha => hbuilds.arrays ha⟩

end Scanning

theorem Filled.listed_addRef {declared : List Int} {row : Nat} {arrays : Text → Option RefAddr}
    {c : Class} (h : c.Filled declared row arrays) (slot : Int) (body : RefBody) :
    ∀ {pos}, pos < (c.addRef slot body).pool.size → pos ∈ (c.addRef slot body).listed := by
  intro pos hpos
  simp only [Class.addRef, Array.size_push] at hpos ⊢
  by_cases hlt : pos < c.pool.size
  · exact List.mem_append_left _ (h.listed_all hlt)
  · exact List.mem_append_right _ (List.mem_singleton.mpr (by omega))

/-- An added reference to an array class is at a slot that was free. -/
theorem Filled.addRef {declared : List Int} {row : Nat} {arrays arrays' : Text → Option RefAddr}
    {c : Class} {slot : Int} {name : Text} (h : c.Filled declared row arrays)
    (hfree : c.slots.lookup slot = none)
    (hself : arrays' name = some ⟨row, c.pool.size⟩)
    (hother : ∀ t, t ≠ name → arrays' t = arrays t) (hnew : arrays name = none) :
    (c.addRef slot (.classRef name none)).Filled declared row arrays' := by
  have hext := Class.PoolExtends.addRef c hfree (.classRef name none)
  have hundeclared : slot ∉ declared := by
    intro hmem
    obtain ⟨pos, hpos⟩ := h.known slot hmem
    rw [hfree] at hpos
    cases hpos
  have hkeep : ∀ {t a}, arrays t = some a → arrays' t = some a := by
    intro t a ha
    have hne : t ≠ name := by
      rintro rfl
      rw [hnew] at ha
      cases ha
    rw [hother t hne]
    exact ha
  refine ⟨Filled.listed_addRef h _ _, ?_, ?_, ?_⟩
  · intro s hs
    obtain ⟨pos, hpos⟩ := h.known s hs
    exact ⟨pos, hext.slots hpos⟩
  · intro pos ref href
    simp only [Class.addRef, Array.getElem?_push] at href
    split at href
    · rename_i heq
      cases href
      exact Or.inr ⟨name, none, rfl, heq ▸ hself⟩
    · rcases h.origin href with hmem | ⟨t, id, hbody, ha⟩
      · exact Or.inl hmem
      · exact Or.inr ⟨t, id, hbody, hkeep ha⟩
  · intro t a ha
    by_cases ht : t = name
    · subst ht
      cases hself.symm.trans ha
      exact ⟨rfl, _, none, Array.getElem?_push_size, rfl, hundeclared⟩
    · rw [hother t ht] at ha
      obtain ⟨hrow, ref, id, href, hbody, hslot⟩ := h.added ha
      obtain ⟨ref', href', hbody', hslot'⟩ := hext.pool href
      exact ⟨hrow, ref', id, href', hbody'.trans hbody, hslot' ▸ hslot⟩

theorem arraysOf_cons (l : Linker) (id : Nat) (name : Text) (a : RefAddr) (id' : Nat) (t : Text) :
    ({ l with arrayRefs := ((id, name), a) :: l.arrayRefs } : Linker).arraysOf id' t =
      if id' = id ∧ t = name then some a else l.arraysOf id' t := by
  unfold Linker.arraysOf
  by_cases hkey : (id', t) = (id, name)
  · cases hkey
    simp
  · rw [List.lookup_cons, beq_false_of_ne hkey, if_neg]
    rintro ⟨rfl, rfl⟩
    exact hkey rfl

variable {declared : List Int} {row : Nat} {start l l' : Linker} {before : List Method}
  {fields : List Field} {bare : Method} {uses : List Use}

/-- Looking up or adding the reference to an array class changes no recorded use. -/
theorem arrayRef_scanning {name : Text} {a : RefAddr}
    (h : Scanning declared row start before fields bare uses l)
    (hok : arrayRef row name l = .ok a l') :
    Scanning declared row start before fields bare uses l' ∧ Builds row l l' ∧
      l'.arraysOf row name = some a := by
  obtain ⟨c, m, hc, hmethods, hfields, hsame, hfilled, hrec⟩ := h.scanned
  simp only [arrayRef, bind_ok, readClass_ok, get_ok, and_assoc] at hok
  obtain ⟨c', _, hc', rfl, _, _, rfl, rfl, hok⟩ := hok
  cases hc.symm.trans hc'
  rw [h.tidy.id_eq hc] at hok
  cases hlookup : l.arrayRefs.lookup (row, name) with
  | some b =>
      simp only [hlookup, pure_ok] at hok
      obtain ⟨rfl, rfl⟩ := hok
      exact ⟨h, .refl row l, hlookup⟩
  | none =>
      simp only [hlookup, bind_ok, onRegistry_ok, modify_ok, pure_ok] at hok
      obtain ⟨slot, _, ⟨r₁, halloc, rfl⟩, b, _, ⟨r₂, hcreate, rfl⟩, _, _, rfl, rfl, rfl⟩ := hok
      have htidy₁ : r₁.Tidy := allocSlot_tidy h.tidy halloc
      have htidy₂ : r₂.Tidy := createRef_tidy htidy₁ hcreate
      obtain ⟨-, c', hc', -, rfl, -⟩ := allocSlot_ok.mp halloc
      cases hc.symm.trans hc'
      obtain ⟨-, c₁, hc₁, -, -, hfree, rfl, rfl⟩ := createRef_ok.mp hcreate
      have hclass₁ : (l.registry.modifyClass row Class.reserve).classAt? row = some c.reserve := by
        rw [classAt?_modifyClass, if_pos rfl, hc, Option.map_some]
      cases hclass₁.symm.trans hc₁
      have hnone : c.slots.lookup slot = none :=
        refAddr?_eq_none.mp hfree row c.reserve hclass₁ rfl
      have hreserve : Builds row l { l with registry := l.registry.modifyClass row .reserve } :=
        Builds.modifyClass l row fun c' _ =>
          ⟨rfl, ⟨rfl, fun hs => hs, fun {_ ref} href => ⟨ref, href, rfl, rfl⟩⟩,
            fun href => Or.inl href⟩
      have hadd := Builds.modifyClass { l with registry := l.registry.modifyClass row .reserve } row
        (f := Class.addRef slot (.classRef name none)) fun c' hc' => by
          cases hclass₁.symm.trans hc'
          refine ⟨rfl, .addRef c.reserve hnone _, fun {pos ref} href => ?_⟩
          simp only [Class.addRef, Array.getElem?_push] at href
          split at href
          · cases href
            exact Or.inr rfl
          · exact Or.inl href
      have hbuilds := hreserve.trans (hadd.trans (Builds.addArray _ ⟨row, c.pool.size⟩ hlookup))
      refine ⟨h.rebuild hbuilds htidy₂ ?_, hbuilds, List.lookup_cons_self ..⟩
      intro c' hc' hfilled'
      cases hc.symm.trans hc'
      refine ⟨c.reserve.addRef slot (.classRef name none), ?_, rfl, rfl, ?_⟩
      · show ((l.registry.modifyClass row Class.reserve).modifyClass row _).classAt? row = _
        rw [classAt?_modifyClass, if_pos rfl, hclass₁, Option.map_some]
      · have hreserved : c.reserve.Filled declared row (l.arraysOf row) :=
          ⟨hfilled.listed_all, hfilled.known, hfilled.origin, hfilled.added⟩
        refine Filled.addRef hreserved hnone ?_ ?_ hlookup
        · exact List.lookup_cons_self ..
        · intro t ht
          exact (arraysOf_cons ..).trans (if_neg fun heq => ht heq.2)

theorem slot_names_iff {c : Class} {slot : Int} {pos : Nat} {b : RefAddr}
    (hslot : c.slots.lookup slot = some pos) :
    b.row = row ∧ c.slots.lookup slot = some b.pos ↔ b = ⟨row, pos⟩ := by
  obtain ⟨brow, bpos⟩ := b
  rw [hslot, Option.some.injEq, RefAddr.mk.injEq, eq_comm (a := pos)]

/-- Recording a class reference for a use that stands for it alone. -/
theorem noteClass (h : Scanning declared row start before fields bare uses l) {u : Use}
    {a : RefAddr} (hfits : ∀ c, l.registry.classAt? row = some c → u.Fits c (l.arraysOf row))
    (hnames : ∀ c, l.registry.classAt? row = some c →
      ∀ b, u.Names c row (l.arraysOf row) b ↔ b = a)
    (hbody : ∀ c, l.registry.classAt? row = some c → a.row = row ∧
      ∃ ref target id, c.pool[a.pos]? = some ref ∧ ref.body = .classRef target id)
    (hcode : ∀ code, .primitives code ≠ u) (hid : ∀ id, .builtin id ≠ u) :
    Scanning declared row start before fields bare (uses ++ [u])
      { l with registry := addClassDep row bare.sig a l.registry } := by
  rw [addClassDep_eq]
  refine h.note (fun _ => rfl) fun c m hc hrec => ?_
  refine hrec.extend (hfits c hc) (fun b => ?_) (fun b hb => ?_) (fun b hb => Or.inl hb)
    (fun b hb => Or.inl hb) (fun code => by simp [hcode code]) (fun id => by simp [hid id])
    (Nat.le_add_right _ _)
  · rw [hnames c hc b]
    simp only [Method.DependsOn, Method.mem_note]
    grind
  · rcases Method.mem_note.mp hb with hb | rfl
    · exact Or.inl hb
    · exact Or.inr (hbody c hc)

/-- Recording the class reference at a slot, for the use of the slot as such or as a constant. -/
theorem noteClassAt (h : Scanning declared row start before fields bare uses l) {u : Use}
    {slot : Int} {c : Class} {pos : Nat} {ref : Reference} {target : Text} {id : Option Nat}
    (hu : u = .classAt slot ∨ u = .constant slot) (hc : l.registry.classAt? row = some c)
    (hknown : c.known? slot = some (pos, ref)) (hbody : ref.body = .classRef target id) :
    Scanning declared row start before fields bare (uses ++ [u])
      { l with registry := addClassDep row bare.sig ⟨row, pos⟩ l.registry } := by
  obtain ⟨hslot, hpool⟩ := Class.known?_eq_some.mp hknown
  refine noteClass h (fun c' hc' => ?_) (fun c' hc' b => ?_) (fun c' hc' => ?_) ?_ ?_
  · cases hc.symm.trans hc'
    obtain rfl | rfl := hu
    · exact ⟨pos, ref, target, id, hknown, hbody⟩
    · exact ⟨pos, ref, hknown, Or.inr ⟨target, id, hbody⟩⟩
  · cases hc.symm.trans hc'
    obtain rfl | rfl := hu
    · exact slot_names_iff hslot
    · exact slot_names_iff hslot
  · cases hc.symm.trans hc'
    exact ⟨rfl, ref, target, id, hpool, hbody⟩
  · obtain rfl | rfl := hu <;> simp
  · obtain rfl | rfl := hu <;> simp

theorem noteMember (h : Scanning declared row start before fields bare uses l) {slot : Int}
    {c : Class} {pos : Nat} {ref : Reference} {target : Member} {t d k i : Option Nat}
    (hc : l.registry.classAt? row = some c) (hknown : c.known? slot = some (pos, ref))
    (hbody : ref.body = .memberRef target t d k i) :
    Scanning declared row start before fields bare (uses ++ [.member slot])
      { l with registry := addMemberDep row bare.sig ⟨row, pos⟩ l.registry } := by
  obtain ⟨hslot, hpool⟩ := Class.known?_eq_some.mp hknown
  rw [addMemberDep_eq]
  refine h.note (fun _ => rfl) fun c' m hc' hrec => ?_
  cases hc.symm.trans hc'
  refine hrec.extend ⟨pos, ref, target, t, d, k, i, hknown, hbody⟩ (fun b => ?_)
    (fun b hb => Or.inl hb) (fun b hb => Or.inl hb) (fun b hb => ?_)
    (fun code => by simp) (fun id => by simp) (Method.length_note_le _ _)
  · rw [Use.Names, slot_names_iff hslot]
    simp only [Method.DependsOn, Method.mem_note]
    grind
  · rcases Method.mem_note.mp hb with hb | rfl
    · exact Or.inl hb
    · exact Or.inr ⟨rfl, ref, target, t, d, k, i, hpool, hbody⟩

theorem noteLiteral (h : Scanning declared row start before fields bare uses l) {slot : Int}
    {c : Class} {pos : Nat} {ref : Reference} {v : Literal}
    (hc : l.registry.classAt? row = some c) (hknown : c.known? slot = some (pos, ref))
    (hbody : ref.body = .literal v) :
    Scanning declared row start before fields bare (uses ++ [.constant slot])
      { l with registry := addLiteralDep row bare.sig ⟨row, pos⟩ l.registry } := by
  obtain ⟨hslot, hpool⟩ := Class.known?_eq_some.mp hknown
  rw [addLiteralDep_eq]
  refine h.note (fun _ => rfl) fun c' m hc' hrec => ?_
  cases hc.symm.trans hc'
  refine hrec.extend ⟨pos, ref, hknown, Or.inl ⟨v, hbody⟩⟩ (fun b => ?_)
    (fun b hb => Or.inl hb) (fun b hb => ?_) (fun b hb => Or.inl hb)
    (fun code => by simp) (fun id => by simp) (Nat.le_add_right _ _)
  · rw [Use.Names, slot_names_iff hslot]
    simp only [Method.DependsOn, Method.mem_note]
    grind
  · rcases Method.mem_note.mp hb with hb | rfl
    · exact Or.inl hb
    · exact Or.inr ⟨rfl, ref, v, hpool, hbody⟩

theorem notePrimitives (h : Scanning declared row start before fields bare uses l) {code : Int}
    (hcode : ∃ p, Primitive.ofCode? code = some p) :
    Scanning declared row start before fields bare (uses ++ [.primitives code])
      { l with registry := addArrayDep row bare.sig code l.registry } := by
  rw [addArrayDep_eq]
  refine h.note (fun _ => rfl) fun c m _ hrec => ?_
  exact hrec.extend hcode (fun b => by simp [Method.DependsOn, Use.Names])
    (fun b hb => Or.inl hb) (fun b hb => Or.inl hb) (fun b hb => Or.inl hb)
    (fun n => by simp [Method.mem_note]) (fun id => by simp) (Nat.le_add_right _ _)

theorem noteBuiltin (h : Scanning declared row start before fields bare uses l) (id : Int) :
    Scanning declared row start before fields bare (uses ++ [.builtin id])
      { l with registry := addBuiltin row bare.sig id l.registry } := by
  rw [addBuiltin_eq]
  refine h.note (fun _ => rfl) fun c m _ hrec => ?_
  exact hrec.extend trivial (fun b => by simp [Method.DependsOn, Use.Names])
    (fun b hb => Or.inl hb) (fun b hb => Or.inl hb) (fun b hb => Or.inl hb)
    (fun n => by simp) (fun n => by simp [Method.mem_note]) (Nat.le_add_right _ _)

theorem refAtSlot?_ok (htidy : l.registry.Tidy) {c : Class}
    (hc : l.registry.classAt? row = some c) {slot : Int} {o : Option (RefAddr × Reference)}
    (hok : refAtSlot? row slot l = .ok o l') :
    l' = l ∧ o = (c.known? slot).map fun (pos, ref) => (⟨row, pos⟩, ref) := by
  simp only [refAtSlot?, bind_ok, readClass_ok, get_ok, pure_ok, and_assoc] at hok
  obtain ⟨c', _, hc', rfl, _, _, rfl, rfl, rfl, rfl⟩ := hok
  cases hc.symm.trans hc'
  refine ⟨rfl, ?_⟩
  rw [htidy.refAddr?_eq hc]
  cases hpos : c.slots.lookup slot with
  | none => simp [Class.known?, hpos]
  | some pos =>
      cases hpool : c.pool[pos]? <;> simp [Class.known?, hpos, hpool, Registry.refAt?, hc]

theorem classRefAt_ok (htidy : l.registry.Tidy) {c : Class}
    (hc : l.registry.classAt? row = some c) {slot : Int} {a : RefAddr} {target : Text}
    (hok : classRefAt row slot l = .ok (a, target) l') :
    l' = l ∧ ∃ pos ref id, a = ⟨row, pos⟩ ∧ c.known? slot = some (pos, ref) ∧
      ref.body = .classRef target id := by
  simp only [classRefAt, bind_ok] at hok
  obtain ⟨o, l₁, hslot, hok⟩ := hok
  obtain ⟨rfl, rfl⟩ := refAtSlot?_ok htidy hc hslot
  cases hknown : c.known? slot with
  | none => simp [hknown] at hok
  | some found =>
      obtain ⟨pos, ref⟩ := found
      simp only [hknown, Option.map_some] at hok
      cases hbody : ref.body with
      | classRef t id =>
          simp only [hbody, pure_ok, Prod.mk.injEq] at hok
          obtain ⟨⟨rfl, rfl⟩, rfl⟩ := hok
          exact ⟨rfl, pos, ref, id, rfl, rfl, hbody⟩
      | memberRef m t d k i => simp [hbody] at hok
      | literal v => simp [hbody] at hok

@[simp]
theorem record_ok {f : Registry → Registry} {u : Unit} :
    record f l = .ok u l' ↔ { l with registry := f l.registry } = l' := Step.modify_ok

/-- Recording the class reference at a slot. -/
theorem classRefAt_scanning {slot : Int} {a : RefAddr} {target : Text}
    (h : Scanning declared row start before fields bare uses l)
    (hok : classRefAt row slot l = .ok (a, target) l') :
    l' = l ∧ Scanning declared row start before fields bare (uses ++ [.classAt slot])
      { l with registry := addClassDep row bare.sig a l.registry } := by
  obtain ⟨c, m, hc, -⟩ := h.scanned
  obtain ⟨rfl, pos, ref, id, rfl, hknown, hbody⟩ := classRefAt_ok h.tidy hc hok
  exact ⟨rfl, noteClassAt h (.inl rfl) hc hknown hbody⟩

/-- Recording the reference to the array class for the class at a slot. -/
theorem arrayRef_noted {slot : Int} {pos : Nat} {ref : Reference} {target : Text}
    {id : Option Nat} {a : RefAddr} {c : Class}
    (h : Scanning declared row start before fields bare uses l)
    (hok : arrayRef row (arrayOf target) l = .ok a l') (hc : l.registry.classAt? row = some c)
    (hknown : c.known? slot = some (pos, ref)) (hbody : ref.body = .classRef target id) :
    Scanning declared row start before fields bare (uses ++ [.arrayAt slot])
      { l' with registry := addClassDep row bare.sig a l'.registry } := by
  obtain ⟨h', hbuilds, harray⟩ := arrayRef_scanning h hok
  obtain ⟨c', m, hc', -, -, -, hfilled, -⟩ := h'.scanned
  obtain ⟨c'', hc'', -, hext, -⟩ := hbuilds.this hc
  cases hc'.symm.trans hc''
  obtain ⟨ref', hknown', hbody', -⟩ := hext.known? hknown
  rw [hbody] at hbody'
  refine noteClass h' ?_ ?_ ?_ (by simp) (by simp)
  · intro c'' hc''
    cases hc'.symm.trans hc''
    exact ⟨pos, ref', target, id, a, hknown', hbody', harray⟩
  · intro c'' hc'' b
    cases hc'.symm.trans hc''
    constructor
    · rintro ⟨pos₁, ref₁, t₁, id₁, hknown₁, hbody₁, harray₁⟩
      cases hknown'.symm.trans hknown₁
      cases hbody'.symm.trans hbody₁
      exact Option.some.inj (harray₁.symm.trans harray)
    · rintro rfl
      exact ⟨pos, ref', target, id, hknown', hbody', harray⟩
  · intro c'' hc''
    cases hc'.symm.trans hc''
    obtain ⟨hrow, ref'', id'', href'', hbody'', -⟩ := hfilled.added harray
    exact ⟨hrow, ref'', _, id'', href'', hbody''⟩

/-- What an instruction may trigger is recorded first. -/
theorem triggers_scanning {op : UInt8}
    (h : Scanning declared row start before fields bare uses l)
    (hok : (Builtin.triggers op).forM (fun id => record (addBuiltin row bare.sig id)) l = .ok () l') :
    Scanning declared row start before fields bare (uses ++ Use.ofOpcode op) l' := by
  refine forM_accumulates (P := fun done s => Scanning declared row start before
    fields bare (uses ++ done.map fun id : Nat => Use.builtin id) s) ?_ (by simpa using h) hok
  intro done id s t hs ht
  obtain rfl := record_ok.mp ht
  rw [List.map_append, ← List.append_assoc]
  exact noteBuiltin hs id

/-- An instruction that makes an array of a class depends on the class and on the array class. -/
theorem classSlot_scanning {slot : Int} {a : RefAddr} {target : Text} {makesArray : Prop}
    [Decidable makesArray] (h : Scanning declared row start before fields bare uses l)
    (hslot : classRefAt row slot l = .ok (a, target) l)
    (hok : (if makesArray then do
        let b ← arrayRef row (arrayOf target)
        record (addClassDep row bare.sig b)
      else pure () : LinkM Unit) { l with registry := addClassDep row bare.sig a l.registry } =
        .ok () l') :
    Scanning declared row start before fields bare
      (uses ++ .classAt slot :: if makesArray then [.arrayAt slot] else []) l' := by
  obtain ⟨c, m, hc, -⟩ := h.scanned
  obtain ⟨-, pos, ref, id, rfl, hknown, hbody⟩ := classRefAt_ok h.tidy hc hslot
  have hnoted := noteClassAt h (.inl rfl) hc hknown hbody
  by_cases harray : makesArray
  · rw [if_pos harray] at hok ⊢
    simp only [bind_ok, record_ok] at hok
    obtain ⟨b, l₃, hadd, rfl⟩ := hok
    -- Recording changes the method alone, so the slot is known as before.
    obtain ⟨methods, hc₂⟩ : ∃ methods, (addClassDep row bare.sig ⟨row, pos⟩ l.registry).classAt? row =
        some { c with methods := methods } := by
      rw [addClassDep_eq, modifyMethod, classAt?_modifyClass, if_pos rfl, hc]
      exact ⟨_, rfl⟩
    have hboth := arrayRef_noted hnoted hadd hc₂ hknown hbody
    rwa [List.append_assoc] at hboth
  · rw [if_neg harray] at hok ⊢
    obtain ⟨-, rfl⟩ := pure_ok.mp hok
    exact hnoted

/-- Scanning an instruction records what it uses. -/
theorem scanInstruction_scanning {i : Instruction}
    (h : Scanning declared row start before fields bare uses l)
    (hok : scanInstruction row bare.sig i l = .ok () l') :
    Scanning declared row start before fields bare (uses ++ Use.ofInstruction i) l' := by
  simp only [scanInstruction, bind_ok] at hok
  obtain ⟨_, l₁, htriggers, hok⟩ := hok
  have h₁ := triggers_scanning h htriggers
  rw [Use.ofInstruction, ← List.append_assoc]
  generalize uses ++ Use.ofOpcode i.op = uses₁ at h₁ ⊢
  obtain ⟨c, m, hc, -⟩ := h₁.scanned
  cases hop : Opcode.operand i.op with
  | none =>
      simp only [hop, pure_ok] at hok
      obtain ⟨-, rfl⟩ := hok
      simpa using h₁
  | memberSlot =>
      simp only [hop, bind_ok] at hok
      obtain ⟨o, l₂, hslot, hok⟩ := hok
      obtain ⟨rfl, rfl⟩ := refAtSlot?_ok h₁.tidy hc hslot
      cases hknown : c.known? (i.slot?.getD 0) with
      | none => simp only [hknown, Option.map_none, fail_ok] at hok
      | some found =>
          obtain ⟨pos, owner, slot, kept, body⟩ := found
          cases body with
          | memberRef target t d k j =>
              simp only [hknown, Option.map_some, record_ok] at hok
              subst hok
              exact noteMember h₁ hc hknown rfl
          | classRef target id => simp only [hknown, Option.map_some, fail_ok] at hok
          | literal v => simp only [hknown, Option.map_some, fail_ok] at hok
  | classSlot =>
      simp only [hop, bind_ok, mapError_ok, record_ok] at hok
      obtain ⟨⟨a, target⟩, l₂, hslot, _, _, rfl, hok⟩ := hok
      obtain ⟨rfl, -⟩ := classRefAt_ok h₁.tidy hc hslot
      exact classSlot_scanning h₁ hslot hok
  | constantSlot =>
      simp only [hop, bind_ok] at hok
      obtain ⟨o, l₂, hslot, hok⟩ := hok
      obtain ⟨rfl, rfl⟩ := refAtSlot?_ok h₁.tidy hc hslot
      cases hknown : c.known? (i.slot?.getD 0) with
      | none => simp only [hknown, Option.map_none, fail_ok] at hok
      | some found =>
          obtain ⟨pos, ref⟩ := found
          simp only [hknown, Option.map_some] at hok
          cases hbody : ref.body with
          | literal v =>
              simp only [hbody, record_ok] at hok
              subst hok
              exact noteLiteral h₁ hc hknown hbody
          | classRef target id =>
              simp only [hbody, record_ok] at hok
              subst hok
              exact noteClassAt h₁ (.inr rfl) hc hknown hbody
          | memberRef m t d k j => simp only [hbody, fail_ok] at hok
  | arrayType =>
      simp only [hop, bind_ok, ite_ok, fail_ok, false_and, exists_false, and_false, false_or,
        record_ok] at hok
      obtain ⟨hcode, rfl⟩ := hok
      refine notePrimitives h₁ ?_
      cases hp : Primitive.ofCode? (i.arrayType?.getD 0).toNat with
      | none => simp [hp] at hcode
      | some p => exact ⟨p, rfl⟩
  | dynamicSlot =>
      simp [hop] at hok

/-- Scanning a method records what it uses, and its code decodes completely. -/
theorem scan_scanning {code : Bytes} {handlers : List Handler} {throws : List Int}
    (h : Scanning declared row start before fields bare [] l)
    (hok : scan row bare.sig code handlers throws l = .ok () l') :
    (Code.decode code).ending = .complete ∧
      Scanning declared row start before fields bare (Use.ofMethod code handlers throws) l' := by
  simp only [scan, bind_ok] at hok
  obtain ⟨_, l₁, hinstrs, hok⟩ := hok
  have h₁ : Scanning declared row start before fields bare
      ((Code.decode code).instrs.flatMap Use.ofInstruction) l₁ := by
    refine forM_accumulates (P := fun done s => Scanning declared row start before
      fields bare (done.flatMap Use.ofInstruction) s) ?_ h hinstrs
    intro done i s t hs ht
    rw [List.flatMap_append, List.flatMap_cons, List.flatMap_nil, List.append_nil]
    exact scanInstruction_scanning hs ht
  have hcomplete : (Code.decode code).ending = .complete := by
    cases hend : (Code.decode code).ending with
    | complete => rfl
    | fault cause => simp [hend] at hok
    | stuck pc => simp [hend] at hok
  refine ⟨hcomplete, ?_⟩
  simp only [hcomplete, bind_ok] at hok
  obtain ⟨_, l₃, hhandlers, hthrows⟩ := hok
  rw [Use.ofMethod]
  generalize (Code.decode code).instrs.flatMap Use.ofInstruction = uses₁ at h₁ ⊢
  have h₂ : Scanning declared row start before fields bare (uses₁ ++ Use.ofHandlers handlers) l₃ := by
    refine forM_accumulates (P := fun done s => Scanning declared row start before
      fields bare (uses₁ ++ Use.ofHandlers done) s) ?_ (by simpa [Use.ofHandlers] using h₁) hhandlers
    intro done handler s t hs ht
    rw [Use.ofHandlers, List.flatMap_append, List.flatMap_cons, List.flatMap_nil, List.append_nil,
      ← List.append_assoc]
    simp only [ite_ok, bind_ok, mapError_ok, record_ok, pure_ok] at ht
    rcases ht with ⟨hcatch, ⟨a, target⟩, s', hslot, rfl⟩ | ⟨hcatch, -, rfl⟩
    · obtain ⟨rfl, hs'⟩ := classRefAt_scanning hs hslot
      rw [if_pos hcatch]
      exact hs'
    · rw [if_neg hcatch, List.append_nil]
      exact hs
  refine forM_accumulates (P := fun done s => Scanning declared row start before
    fields bare (uses₁ ++ Use.ofHandlers handlers ++ done.map .classAt) s) ?_ (by simpa using h₂)
    hthrows
  intro done slot s t hs ht
  rw [List.map_append, ← List.append_assoc]
  simp only [bind_ok, mapError_ok, record_ok] at ht
  obtain ⟨⟨a, target⟩, s', hslot, rfl⟩ := ht
  obtain ⟨rfl, hs'⟩ := classRefAt_scanning hs hslot
  exact hs'

end Closure

end ClassLinker
