import ClassLinker.Proofs.Closure.Complete

/-! Requiring members. Following the dependencies of a newly kept method leaves them all met, so
requiring one member keeps a link complete; once nothing is left to require, the link is closed. -/

namespace ClassLinker

namespace Closure

open LinkM RegistryM Step Registry Linker

/-- A step that was asked for an item: besides what it follows, it keeps only references of a given
set, and the catalog entries that it keeps are met. -/
structure Serves (s : Source) (x : Item) (D : RefAddr → Prop) (l l' : Linker) : Prop extends
    Follows s x l l' where
  refs : ∀ {a}, l'.registry.KeepsRef a → l.registry.KeepsRef a ∨ D a
  entries : ∀ {id}, id ∈ l'.builtins → id ∈ l.builtins ∨
    ∃ b, Builtin.catalog[id]? = some b ∧ l'.BuiltinMet l'.pending b

namespace Serves

variable {s : Source} {x y : Item} {D : RefAddr → Prop} {l l' l'' : Linker}

theorem refl (hw : l.Wired s) (x : Item) (D : RefAddr → Prop) : Serves s x D l l :=
  ⟨.refl hw x, fun ha => Or.inl ha, fun hid => Or.inl hid⟩

theorem trans (h : Serves s x D l l') (h' : Serves s x D l' l'') : Serves s x D l l'' := by
  refine ⟨h.toFollows.trans h'.toFollows, ?_, ?_⟩
  · intro a ha
    rcases h'.refs ha with ha | ha
    · exact h.refs ha
    · exact Or.inr ha
  · intro id hid
    rcases h'.entries hid with hid | hmet
    · rcases h.entries hid with hid | ⟨b, hb, hmet⟩
      · exact Or.inl hid
      · exact Or.inr ⟨b, hb, hmet.grows h.wired h'.grows (fun hm => Or.inl (h'.pending hm))
          h'.builtins⟩
    · exact Or.inr hmet

theorem of_brought (h : Serves s y D l l')
    (hbrought : ∀ {r Q}, ClosedUnder s l.root r Q → l'.registry.Grows r → Q x → Q y) :
    Serves s x D l l' := ⟨h.toFollows.of_brought hbrought, h.refs, h.entries⟩

end Serves

variable {s : Source} {D : RefAddr → Prop} {l l' : Linker}

theorem loadClass_serves {name : Text} {row : Nat} (hw : l.Wired s)
    (hok : loadClass s name l = .ok row l') : Serves s (.cls name) D l l' ∧ l'.Has name := by
  obtain ⟨hfollows, hrow, hrefs, hbuiltins⟩ := loadClass_follows hw hok
  refine ⟨⟨hfollows, fun ha => Or.inl (hrefs ha), ?_⟩, row, hrow⟩
  intro id hid
  rw [hbuiltins] at hid
  exact Or.inl hid

theorem push_serves {m : Member} (hw : l.Wired s) :
    Serves s (.lookup m) D l { l with pending := m :: l.pending } :=
  ⟨push_follows hw, fun ha => Or.inl ha, fun hid => Or.inl hid⟩

theorem keepRef_serves {a : RefAddr} {fresh : Bool} {c : Class} {ref : Reference}
    (hw : l.Wired s) (hc : l.registry.classAt? a.row = some c) (href : c.pool[a.pos]? = some ref)
    (ha : D a) (hok : onRegistry (keepRef a) l = .ok fresh l') :
    Serves s (.ref c.name ref.slot) D l l' ∧ l'.registry.KeepsRef a := by
  obtain ⟨hfollows, hkept, hback⟩ := keepRef_follows hw hc href hok
  obtain ⟨r, -, rfl⟩ := onRegistry_ok.mp hok
  refine ⟨⟨hfollows, ?_, fun hid => Or.inl hid⟩, hkept⟩
  intro b hb
  rcases hback hb with hb | rfl
  · exact Or.inl hb
  · exact Or.inr ha

/-! ### Catalog entries -/

/-- Marking an entry, its steps and the entries of their classes. -/
theorem keepEntries_follows {n : Nat} {kept ids : List Nat} (hw : l.Wired s)
    (hids : ∀ e ∈ ids, ∃ b, Builtin.catalog[e]? = some b ∧
      (e = n ∨ ∃ a, Builtin.catalog[n]? = some a ∧ e ∈ a.steps))
    (hkept : ∀ k, k ∈ kept ↔ k ∈ l.builtins ∨ ∃ e ∈ ids, k = e ∨
      k = ((Builtin.catalog[e]?).map Builtin.classEntry).getD e)
    (hsorted : l.builtins.Pairwise (· < ·) → kept.Pairwise (· < ·)) :
    Follows s (.builtin n) l { l with builtins := kept } where
  wired := ⟨hw.tidy, hw.kept, hw.origin, hw.arrays_lt⟩
  grows := .refl _
  root_eq := rfl
  arrays _ := rfl
  members hk := hk
  builtins hid := (hkept _).mpr (Or.inl hid)
  pending hm := hm
  initializers hle hc := absurd (classAt?_lt hc) (Nat.not_lt.mpr hle)
  within {r Q} hclosed hr hx hin := by
    have hstep : ∀ e ∈ ids, Q (.builtin e) := by
      intro e he
      obtain ⟨b, -, rfl | ⟨a, ha, hmem⟩⟩ := hids e he
      · exact hx
      · exact hclosed hx (.step ha hmem)
    refine ⟨hin.classes, hin.members, hin.refs, ?_, hin.pending⟩
    intro k hk
    rcases (hkept k).mp hk with hk | ⟨e, he, rfl | rfl⟩
    · exact hin.builtins hk
    · exact hstep k he
    · obtain ⟨b, hb, -⟩ := hids e he
      rw [hb]
      exact hclosed (hstep e he) (.classEntry hb)
  counted hl := ⟨hsorted hl.sorted, hl.expansions_eq⟩

/-- Loading the class of an entry and having its member required. -/
theorem loadEntry_serves {b : Builtin} {n : Nat} (hw : l.Wired s) (hb : Builtin.catalog[n]? = some b)
    (hok : (do
      discard (loadClass s b.className)
      if b.isMember then push ⟨b.className, b.member, b.descriptor⟩ : LinkM Unit) l =
        .ok () l') :
    (Serves s (.builtin n) D l l' ∧ l'.builtins = l.builtins) ∧ l'.Has b.className ∧
      (b.isMember = true → l'.Met l'.pending b.target) := by
  simp only [bind_ok, discard_ok] at hok
  obtain ⟨_, l₁, ⟨row, hload⟩, hok⟩ := hok
  obtain ⟨-, -, -, hbuiltins⟩ := loadClass_follows hw hload
  obtain ⟨hserves, hhas⟩ := loadClass_serves (D := D) hw hload
  have hfirst : Serves s (.builtin n) D l l₁ :=
    hserves.of_brought fun hclosed _ hx => hclosed hx (.builtinClass hb)
  by_cases hmember : b.isMember = true
  · rw [if_pos hmember, push_ok] at hok
    obtain rfl := hok
    refine ⟨⟨hfirst.trans ((push_serves hserves.wired).of_brought fun hclosed _ hx =>
      hclosed hx (.builtinMember hb hmember)), hbuiltins⟩, hhas, ?_⟩
    intro _
    exact Or.inl List.mem_cons_self
  · rw [if_neg hmember, pure_ok] at hok
    obtain ⟨-, rfl⟩ := hok
    exact ⟨⟨hfirst, hbuiltins⟩, hhas, fun h => absurd h hmember⟩

/-- Doing so for an entry and its steps. -/
theorem loadEntries_serves {n : Nat} {ids : List Nat} (hw : l.Wired s)
    (hids : ∀ e ∈ ids, e = n ∨ ∃ a, Builtin.catalog[n]? = some a ∧ e ∈ a.steps)
    (hok : (ids.filterMap fun (e : Nat) => Builtin.lookup? e).forM (fun b => do
      discard (loadClass s b.className)
      if b.isMember then push ⟨b.className, b.member, b.descriptor⟩ : Builtin → LinkM Unit) l =
        .ok () l') :
    (Serves s (.builtin n) D l l' ∧ l'.builtins = l.builtins) ∧
      ∀ e ∈ ids, ∀ b, Builtin.catalog[e]? = some b → l'.Has b.className ∧
        (b.isMember = true → l'.Met l'.pending b.target) := by
  have hrun : (Serves s (.builtin n) D l l' ∧ l'.builtins = l.builtins) ∧
      ∀ b ∈ ids.filterMap fun (e : Nat) => Builtin.lookup? e, l'.Has b.className ∧
        (b.isMember = true → l'.Met l'.pending b.target) := by
    refine forM_collects
      (R := fun u v => Serves s (.builtin n) D u v ∧ v.builtins = u.builtins)
      (Q := fun (b : Builtin) (u : Linker) => u.Has b.className ∧
        (b.isMember = true → u.Met u.pending b.target))
      ⟨.refl hw _ D, rfl⟩ (fun h h' => ⟨h.1.trans h'.1, h'.2.trans h.2⟩) ?_ ?_ hok
    · intro b u v _ hsu huv hQ
      refine ⟨hQ.1.grows huv.1.grows, fun hm => ?_⟩
      exact (hQ.2 hm).grows hsu.1.wired huv.1.grows fun hm => Or.inl (huv.1.pending hm)
    · intro b u v hb hsu hstep
      obtain ⟨e, he, hlookup⟩ := List.mem_filterMap.mp hb
      rw [Builtin.lookup?_natCast] at hlookup
      obtain ⟨⟨hserves, heq⟩, hQ⟩ := loadEntry_serves (D := D) hsu.1.wired hlookup hstep
      refine ⟨⟨hserves.of_brought fun hclosed _ hx => ?_, heq⟩, hQ⟩
      rcases hids e he with rfl | ⟨a, ha, hmem⟩
      · exact hx
      · exact hclosed hx (.step ha hmem)
  refine ⟨hrun.1, fun e he b hb => hrun.2 b (List.mem_filterMap.mpr ⟨e, he, ?_⟩)⟩
  rw [Builtin.lookup?_natCast, hb]

/-- The entry of the class of a kept entry needs nothing but that class. -/
theorem classEntry_met {b : Builtin} {todo : List Member} (hb : b ∈ Builtin.catalog)
    (hhas : l.Has b.className) (hentry : b.classEntry ∈ l.builtins) :
    ∃ e, Builtin.catalog[b.classEntry]? = some e ∧ l.BuiltinMet todo e := by
  obtain ⟨e, he, hclass, hmember, hself, hsteps⟩ := Builtin.classEntry_of_mem b hb
  refine ⟨e, he, hclass ▸ hhas, fun hm => ?_, hself ▸ hentry, fun next hnext => ?_⟩
  · rw [hmember] at hm
    cases hm
  · rw [hsteps] at hnext
    cases hnext

/-- Keeping a catalog entry. -/
theorem keepBuiltin_serves {id : Int} (hw : l.Wired s) (hok : keepBuiltin s id l = .ok () l') :
    ∃ n : Nat, (n : Int) = id ∧ Serves s (.builtin n) D l l' ∧ n ∈ l'.builtins := by
  simp only [keepBuiltin, bind_ok, get_ok, ite_ok, pure_ok] at hok
  obtain ⟨_, _, ⟨rfl, rfl⟩, ⟨hany, -, rfl⟩ | ⟨-, hok⟩⟩ := hok
  · obtain ⟨n, hn, heq⟩ := List.any_eq_true.mp hany
    exact ⟨n, of_decide_eq_true heq, .refl hw _ D, hn⟩
  cases hkeep : Builtin.keep? l.builtins id with
  | none => simp [hkeep] at hok
  | some kept =>
      obtain ⟨ids, hexpand, hkept⟩ := Builtin.keep?_eq_some hkeep
      obtain ⟨n, rfl, hself, hids⟩ := Builtin.exists_of_expand? hexpand
      simp only [hkeep, hexpand, bind_ok, set_ok] at hok
      obtain ⟨_, l₁, rfl, hloop⟩ := hok
      have hmark : Follows s (.builtin n) l { l with builtins := kept } := by
        refine keepEntries_follows hw (fun e he => ?_) hkept (Builtin.sorted_keep? hkeep)
        obtain ⟨b, hb, -, hstep⟩ := hids e he
        exact ⟨b, hb, hstep⟩
      obtain ⟨⟨hserves, hbuiltins⟩, hmet⟩ := loadEntries_serves (D := D) hmark.wired
        (fun e he => (hids e he).elim fun _ h => h.2.2) hloop
      have hin : ∀ {k}, k ∈ l'.builtins ↔ k ∈ kept := by
        intro k
        rw [hbuiltins]
      refine ⟨n, rfl, ⟨hmark.trans hserves.toFollows, hserves.refs, ?_⟩, ?_⟩
      · intro k hk
        rcases (hkept k).mp (hin.mp hk) with hk | ⟨e, he, hke⟩
        · exact Or.inl hk
        · obtain ⟨b, hb, hsteps, -⟩ := hids e he
          have hentry : b.classEntry ∈ l'.builtins :=
            hin.mpr ((hkept _).mpr (Or.inr ⟨e, he, Or.inr (by rw [hb]; rfl)⟩))
          obtain ⟨hhas, hmember⟩ := hmet e he b hb
          rcases hke with rfl | rfl
          · refine Or.inr ⟨b, hb, hhas, hmember, hentry, fun next hnext => ?_⟩
            exact hin.mpr ((hkept next).mpr (Or.inr ⟨next, hsteps next hnext, Or.inl rfl⟩))
          · rw [hb, Option.map_some, Option.getD_some]
            exact Or.inr (classEntry_met (List.mem_of_getElem? hb) hhas hentry)
      · exact hin.mpr ((hkept n).mpr (Or.inr ⟨n, hself, Or.inl rfl⟩))

/-! ### The dependencies of a method -/

/-- A method of a registered class was declared, and what was recorded for it is what the
declaration uses. -/
theorem exists_decl {row : Nat} {c : Class} {m : Method} (hw : l.Wired s)
    (hc : l.registry.classAt? row = some c) (hm : m ∈ c.methods) :
    ∃ d decl, s.load c.name = .ok d ∧ c.Filled (d.pool.map PoolSlot.slot) row (l.arraysOf row) ∧
      decl ∈ d.methods ∧ decl.sig = m.sig ∧
      m.Records c row (l.arraysOf row) (decl.uses l.root d) := by
  rcases hw.origin hc with ⟨d, hload, hdesc⟩ | harray
  · obtain ⟨decl, hdecl, hdescm⟩ := forall₂_mem_right hdesc.methods hm
    exact ⟨d, decl, hload, hdesc.filled, hdecl, hdescm.sig_eq.symm, hdescm.recorded⟩
  · rw [harray.methods_eq] at hm
    cases hm

/-- A reference of a registered class is known at its slot. -/
theorem known?_of_pool {row : Nat} {c : Class} {pos : Nat} {ref : Reference} (hw : l.Wired s)
    (hc : l.registry.classAt? row = some c) (href : c.pool[pos]? = some ref) :
    c.known? ref.slot = some (pos, ref) := by
  have hlisted : pos ∈ c.listed := by
    obtain ⟨hlt, -⟩ := Array.getElem?_eq_some_iff.mp href
    rcases hw.origin hc with ⟨d, -, hdesc⟩ | harray
    · exact hdesc.filled.listed_all hlt
    · rw [harray.pool_eq] at hlt
      cases hlt
  have hslot := (hw.tidy.indexed hc).lookup_iff.mpr ⟨hlisted, ref, href, rfl⟩
  exact Class.known?_eq_some.mpr ⟨hslot, href⟩

/-- What is known at a slot of a registered class stays known as the registry grows. -/
theorem reference?_of_known? {row : Nat} {c : Class} {slot : Int} {pos : Nat} {ref : Reference}
    {r : Registry} (hw : l.Wired s) (hc : l.registry.classAt? row = some c)
    (hknown : c.known? slot = some (pos, ref)) (hr : l.registry.Grows r) :
    ∃ ref', r.reference? c.name slot = some ref' ∧ ref'.body = ref.body := by
  obtain ⟨c', hc', hgrow⟩ := hr.classes hc
  obtain ⟨ref', hknown', hbody, -⟩ := (Class.PoolExtends.of_grows hgrow).known? hknown
  refine ⟨ref', ?_, hbody⟩
  simp only [Registry.reference?, hr.find (hw.tidy.find_self hc), hc', hknown', Option.bind_eq_bind,
    Option.bind_some]
  rfl

/-- What a reference brings. -/
structure RefBrought (Q : Item → Prop) (owner : Text) (ref : Reference) : Prop where
  self : Q (.ref owner ref.slot)
  target : ∀ {t id}, ref.body = .classRef t id → Q (.cls t)
  member : ∀ {m t d k i}, ref.body = .memberRef m t d k i → Q (.lookup m)
  string : ∀ {text}, ref.body = .literal (.string text) → Q (.cls stringClass)

/-- A method brings the references that it depends on. -/
theorem brought_of_dependsOn {row : Nat} {c : Class} {m : Method} {a : RefAddr} (hw : l.Wired s)
    (hc : l.registry.classAt? row = some c) (hm : m ∈ c.methods) (ha : m.DependsOn a) :
    a.row = row ∧ ∃ ref, c.pool[a.pos]? = some ref ∧ ∀ {r : Registry} {Q : Item → Prop},
      ClosedUnder s l.root r Q → l.registry.Grows r → Q (.member c.name m.sig) →
      RefBrought Q c.name ref := by
  obtain ⟨d, decl, hload, hfilled, hdecl, hsig, hrecords⟩ := exists_decl hw hc hm
  have hbrought : ∀ {ref : Reference}, c.pool[a.pos]? = some ref → ∀ {r : Registry}
      {Q : Item → Prop}, ClosedUnder s l.root r Q → l.registry.Grows r →
      Q (.ref c.name ref.slot) → RefBrought Q c.name ref := by
    intro ref href r Q hclosed hr hself
    obtain ⟨ref', href', hbody⟩ := reference?_of_known? hw hc (known?_of_pool hw hc href) hr
    refine ⟨hself, ?_, ?_, ?_⟩
    · intro t id ht
      exact hclosed hself (.refClass href' (hbody.trans ht))
    · intro m t d k i ht
      exact hclosed hself (.refMember href' (hbody.trans ht))
    · intro text ht
      exact hclosed hself (.refString href' (hbody.trans ht))
  have hslot : ∀ {u slot}, u ∈ decl.uses l.root d → u.slot? = some slot →
      a.row = row ∧ c.slots.lookup slot = some a.pos →
      a.row = row ∧ ∃ ref, c.pool[a.pos]? = some ref ∧ ∀ {r : Registry} {Q : Item → Prop},
        ClosedUnder s l.root r Q → l.registry.Grows r → Q (.member c.name m.sig) →
        RefBrought Q c.name ref := by
    rintro u slot hu hslot ⟨hrow, hlookup⟩
    obtain ⟨-, ref, href, rfl⟩ := (hw.tidy.indexed hc).lookup_iff.mp hlookup
    refine ⟨hrow, ref, href, fun hclosed hr hmember => hbrought href hclosed hr ?_⟩
    exact hclosed hmember (hsig ▸ .reference hload hdecl hu hslot)
  obtain ⟨u, hu, hnames⟩ := (hrecords.refs a).mp ha
  cases u with
  | member slot => exact hslot hu rfl hnames
  | classAt slot => exact hslot hu rfl hnames
  | constant slot => exact hslot hu rfl hnames
  | arrayAt slot =>
      obtain ⟨pos, ref, t, id, hknown, hbody, harray⟩ := hnames
      obtain ⟨hrow, ref', id', href', hbody', hnew⟩ := hfilled.added harray
      refine ⟨hrow, ref', href', fun hclosed hr hmember => hbrought href' hclosed hr ?_⟩
      obtain ⟨ref₁, href₁, hbody₁⟩ := reference?_of_known? hw hc hknown hr
      obtain ⟨ref₂, href₂, hbody₂⟩ := reference?_of_known? hw hc (known?_of_pool hw hc href') hr
      exact hclosed hmember (hsig ▸ .arrayReference hload hdecl hu href₁ (hbody₁.trans hbody) hnew
        href₂ (hbody₂.trans hbody'))
  | primitives code => exact hnames.elim
  | builtin id => exact hnames.elim

/-- A reference is kept and what it needs is there. -/
def DepMet (l : Linker) (a : RefAddr) : Prop :=
  ∃ ref, l.registry.refAt? a = some ref ∧ ref.kept = true ∧ l.RefMet l.pending ref

theorem DepMet.serves {x : Item} {a : RefAddr} (h : DepMet l a) (hw : l.Wired s)
    (hserves : Serves s x D l l') : DepMet l' a := by
  obtain ⟨ref, href, hkept, hmet⟩ := h
  obtain ⟨ref', href', hgrow⟩ := hserves.grows.refAt? href
  exact ⟨ref', href', hgrow.kept hkept,
    hmet.grows hw hserves.grows (fun hm => Or.inl (hserves.pending hm)) hgrow⟩

section Expand

variable {row : Nat} {c : Class} {m : Method} {u v : Linker}

/-- The state after some of the dependencies of a method have been followed. -/
abbrev Expanding (s : Source) (c : Class) (m : Method) (l u : Linker) : Prop :=
  Serves s (.member c.name m.sig) m.DependsOn l u

theorem Expanding.dependency (h : Expanding s c m l u) (hc : l.registry.classAt? row = some c)
    (hm : m ∈ c.methods) {a : RefAddr} (ha : m.DependsOn a) :
    ∃ c₁ ref, u.registry.classAt? a.row = some c₁ ∧ c₁.name = c.name ∧
      c₁.pool[a.pos]? = some ref ∧ ∀ {r : Registry} {Q : Item → Prop},
      ClosedUnder s u.root r Q → u.registry.Grows r → Q (.member c.name m.sig) →
      RefBrought Q c.name ref := by
  obtain ⟨c₁, hc₁, hgrow⟩ := h.grows.classes hc
  obtain ⟨m₁, hm₁, hmgrow⟩ := forall₂_mem_left hgrow.methods hm
  have ha₁ : m₁.DependsOn a := by
    rw [hmgrow.frame]
    exact ha
  obtain ⟨rfl, ref, href, hbrought⟩ := brought_of_dependsOn h.wired hc₁ hm₁ ha₁
  rw [hgrow.name_eq, hmgrow.sig_eq] at hbrought
  exact ⟨c₁, ref, hc₁, hgrow.name_eq, href, hbrought⟩

/-- The method is recorded as before in the class that has grown meanwhile. -/
theorem Expanding.records (h : Expanding s c m l u) (hc : l.registry.classAt? row = some c)
    (hm : m ∈ c.methods) : ∃ c₁ d decl, u.registry.classAt? row = some c₁ ∧ s.load c.name = .ok d ∧
      decl ∈ d.methods ∧ decl.sig = m.sig ∧
      m.Records c₁ row (u.arraysOf row) (decl.uses u.root d) := by
  obtain ⟨c₁, hc₁, hgrow⟩ := h.grows.classes hc
  obtain ⟨m₁, hm₁, hmgrow⟩ := forall₂_mem_left hgrow.methods hm
  obtain ⟨d, decl, hload, -, hdecl, hsig, hrecords⟩ := exists_decl h.wired hc₁ hm₁
  rw [hgrow.name_eq] at hload
  rw [hmgrow.sig_eq] at hsig
  rw [hmgrow.frame] at hrecords
  exact ⟨c₁, d, decl, hc₁, hload, hdecl, hsig, hrecords.refs, hrecords.fits, hrecords.classes,
    hrecords.literals, hrecords.members, hrecords.arrays, hrecords.builtins, hrecords.members_length⟩

theorem Expanding.keepRef (h : Expanding s c m l u) (hc : l.registry.classAt? row = some c)
    (hm : m ∈ c.methods) {a : RefAddr} {fresh : Bool} (ha : m.DependsOn a)
    (hok : onRegistry (Registry.keepRef a) u = .ok fresh v) :
    Expanding s c m u v ∧ v.registry.KeepsRef a := by
  obtain ⟨c₁, ref, hc₁, hname, href, hbrought⟩ := h.dependency hc hm ha
  obtain ⟨hserves, hkept⟩ := keepRef_serves (D := m.DependsOn) h.wired hc₁ href ha hok
  rw [hname] at hserves
  exact ⟨hserves.of_brought fun hclosed hr hx =>
    (hbrought hclosed (hserves.grows.trans hr) hx).self, hkept⟩

/-- What the reference at an address brings when it is a dependency of the method. -/
theorem Expanding.brought (h : Expanding s c m l u) (hc : l.registry.classAt? row = some c)
    (hm : m ∈ c.methods) {a : RefAddr} (ha : m.DependsOn a) {ref : Reference}
    (href : u.registry.refAt? a = some ref) {r : Registry} {Q : Item → Prop}
    (hclosed : ClosedUnder s u.root r Q) (hr : u.registry.Grows r) (hx : Q (.member c.name m.sig)) :
    RefBrought Q c.name ref := by
  obtain ⟨c₁, ref₁, hc₁, -, href₁, hbrought⟩ := h.dependency hc hm ha
  obtain ⟨c₂, hc₂, href₂⟩ := refAt?_eq_some.mp href
  cases hc₁.symm.trans hc₂
  cases href₁.symm.trans href₂
  exact hbrought hclosed hr hx

/-- The class that a kept dependency needs is loaded. -/
theorem Expanding.loadDep (h : Expanding s c m l u) (hc : l.registry.classAt? row = some c)
    (hm : m ∈ c.methods) {a : RefAddr} (ha : m.DependsOn a) {ref : Reference}
    (href : u.registry.refAt? a = some ref) (hkept : ref.kept = true) {name : Text} {row' : Nat}
    (hload : loadClass s name u = .ok row' v)
    (hname : ∀ {Q}, RefBrought Q c.name ref → Q (.cls name))
    (hmet : ∀ {ref' : Reference}, ref'.body = ref.body → v.Has name → v.RefMet v.pending ref') :
    Expanding s c m u v ∧ DepMet v a := by
  obtain ⟨hserves, hhas⟩ := loadClass_serves (D := m.DependsOn) h.wired hload
  refine ⟨hserves.of_brought fun hclosed hr hx => ?_, ?_⟩
  · exact hname (Expanding.brought h hc hm ha href hclosed (hserves.grows.trans hr) hx)
  · obtain ⟨ref', href', hgrow⟩ := hserves.grows.refAt? href
    exact ⟨ref', href', hgrow.kept hkept, hmet hgrow.body_eq hhas⟩

/-- One reference to a class. -/
theorem Expanding.classDep (h : Expanding s c m l u) (hc : l.registry.classAt? row = some c)
    (hm : m ∈ c.methods) {a : RefAddr} (ha : a ∈ m.classDeps)
    (hok : (do
      discard (onRegistry (Registry.keepRef a))
      match (← onRegistry (RegistryM.refAt a)).body with
      | .classRef target _ => discard (loadClass s target)
      | _ => throw .fault : LinkM Unit) u = .ok () v) :
    Expanding s c m u v ∧ DepMet v a := by
  simp only [bind_ok, discard_ok] at hok
  obtain ⟨_, u₁, ⟨fresh, hkeep⟩, ref, _, hread, hok⟩ := hok
  obtain ⟨href, rfl⟩ := readRef_ok.mp hread
  obtain ⟨hfirst, ref', href', hkept⟩ := h.keepRef hc hm (Or.inl ha) hkeep
  cases href.symm.trans href'
  cases hbody : ref.body with
  | classRef target id =>
      simp only [hbody, discard_ok] at hok
      obtain ⟨row', hload⟩ := hok
      have hmet : ∀ {ref' : Reference}, ref'.body = ref.body → v.Has target →
          v.RefMet v.pending ref' := by
        intro ref' heq hhas
        rwa [Linker.RefMet, heq, hbody]
      obtain ⟨hloaded, hdep⟩ := Expanding.loadDep (h.trans hfirst) hc hm (Or.inl ha) href hkept hload
        (·.target hbody) hmet
      exact ⟨hfirst.trans hloaded, hdep⟩
  | memberRef _ _ _ _ _ => simp [hbody] at hok
  | literal _ => simp [hbody] at hok

/-- One literal. -/
theorem Expanding.literalDep (h : Expanding s c m l u) (hc : l.registry.classAt? row = some c)
    (hm : m ∈ c.methods) {a : RefAddr} (ha : a ∈ m.literalDeps)
    (hok : (do
      discard (onRegistry (Registry.keepRef a))
      match (← onRegistry (RegistryM.refAt a)).body with
      | .literal (.string _) => discard (loadClass s stringClass)
      | _ => return () : LinkM Unit) u = .ok () v) :
    Expanding s c m u v ∧ DepMet v a := by
  simp only [bind_ok, discard_ok] at hok
  obtain ⟨_, u₁, ⟨fresh, hkeep⟩, ref, _, hread, hok⟩ := hok
  obtain ⟨href, rfl⟩ := readRef_ok.mp hread
  obtain ⟨hfirst, ref', href', hkept⟩ := h.keepRef hc hm (Or.inr (Or.inl ha)) hkeep
  cases href.symm.trans href'
  by_cases hstring : ∃ text, ref.body = .literal (.string text)
  · obtain ⟨text, hbody⟩ := hstring
    simp only [hbody, discard_ok] at hok
    obtain ⟨row', hload⟩ := hok
    have hmet : ∀ {ref' : Reference}, ref'.body = ref.body → v.Has stringClass →
        v.RefMet v.pending ref' := by
      intro ref' heq hhas
      rwa [Linker.RefMet, heq, hbody]
    obtain ⟨hloaded, hdep⟩ := Expanding.loadDep (h.trans hfirst) hc hm (Or.inr (Or.inl ha)) href hkept
      hload (·.string hbody) hmet
    exact ⟨hfirst.trans hloaded, hdep⟩
  · -- A literal other than a string needs no class.
    obtain ⟨value, hbody⟩ : ∃ value, ref.body = .literal value := by
      obtain ⟨c₁, _, _, hc₁, -, -, -, hrecords⟩ := Expanding.records (h.trans hfirst) hc hm
      obtain ⟨rfl, ref₁, value, href₁, hbody⟩ := hrecords.literals a ha
      cases href.symm.trans (refAt?_eq_some.mpr ⟨c₁, hc₁, href₁⟩)
      exact ⟨value, hbody⟩
    have hpure : u₁ = v := by
      rw [hbody] at hok hstring
      cases value <;> simp_all
    subst hpure
    refine ⟨hfirst, ref, href, hkept, ?_⟩
    unfold Linker.RefMet
    rw [hbody] at hstring ⊢
    cases value <;> simp_all

/-- One array of primitives. -/
theorem Expanding.arrayDep (h : Expanding s c m l u) (hc : l.registry.classAt? row = some c)
    (hm : m ∈ c.methods) {code : Int} (hcode : code ∈ m.arrayDeps)
    (hok : discard (loadClass s (Primitive.arrayName code)) u = .ok () v) :
    Expanding s c m u v ∧ v.Has (Primitive.arrayName code) := by
  obtain ⟨row', hload⟩ := discard_ok.mp hok
  obtain ⟨_, d, decl, -, hd, hdecl, hsig, hrecords⟩ := h.records hc hm
  obtain ⟨hserves, hhas⟩ := loadClass_serves (D := m.DependsOn) h.wired hload
  refine ⟨hserves.of_brought fun hclosed _ hx => ?_, hhas⟩
  exact hclosed hx (hsig ▸ .primitives hd hdecl ((hrecords.arrays code).mp hcode))

/-- One catalog entry. -/
theorem Expanding.builtin (h : Expanding s c m l u) (hc : l.registry.classAt? row = some c)
    (hm : m ∈ c.methods) {id : Int} (hid : id ∈ m.builtins)
    (hok : keepBuiltin s id u = .ok () v) :
    Expanding s c m u v ∧ ∃ k ∈ v.builtins, (k : Int) = id := by
  obtain ⟨_, d, decl, -, hd, hdecl, hsig, hrecords⟩ := h.records hc hm
  obtain ⟨n, rfl, hserves, hn⟩ := keepBuiltin_serves (D := m.DependsOn) h.wired hok
  refine ⟨hserves.of_brought fun hclosed _ hx => ?_, n, hn, rfl⟩
  exact hclosed hx (hsig ▸ .triggered hd hdecl ((hrecords.builtins n).mp hid))

/-- One member, to be required later. -/
theorem Expanding.memberDep (h : Expanding s c m l u) (hc : l.registry.classAt? row = some c)
    (hm : m ∈ c.methods) {a : RefAddr} (ha : a ∈ m.memberDeps)
    (hkept : u.registry.KeepsRef a) (hok : (do push (← memberAt a) : LinkM Unit) u = .ok () v) :
    Expanding s c m u v ∧ DepMet v a := by
  simp only [memberAt, bind_ok] at hok
  obtain ⟨target, _, ⟨ref, _, hread, hbody⟩, hpush⟩ := hok
  obtain ⟨href, rfl⟩ := readRef_ok.mp hread
  obtain ⟨ref', href', hk⟩ := hkept
  cases href.symm.trans href'
  cases hb : ref.body with
  | classRef _ _ => simp [hb] at hbody
  | literal _ => simp [hb] at hbody
  | memberRef t ti di k i =>
      simp only [hb, pure_ok] at hbody
      obtain ⟨rfl, rfl⟩ := hbody
      obtain rfl := push_ok.mp hpush
      refine ⟨(push_serves h.wired).of_brought fun hclosed hr hx => ?_, ref, href, hk, ?_⟩
      · have hbrought := h.brought hc hm (Or.inr (Or.inr ha)) href hclosed hr hx
        exact hbrought.member hb
      · unfold Linker.RefMet
        rw [hb]
        exact Or.inl List.mem_cons_self

/-- Following the dependencies of a method leaves them all met. -/
theorem expand_serves (hw : l.Wired s) (hc : l.registry.classAt? row = some c) (hm : m ∈ c.methods)
    (hok : expand s m l = .ok () l') :
    Serves s (.member c.name m.sig) m.DependsOn l l' ∧ l'.MethodMet m ∧
      ∀ {a}, m.DependsOn a → DepMet l' a := by
  simp only [expand, bind_ok] at hok
  obtain ⟨_, l₁, hclasses, _, l₂, harrays, _, l₃, hliterals, _, l₄, hbuiltins, _, l₅, hmembers,
    hpush⟩ := hok
  have htrans : ∀ {u v w : Linker}, Expanding s c m u v → Expanding s c m v w →
      Expanding s c m u w := fun h h' => h.trans h'
  -- Each list is followed from where the one before it ended.
  obtain ⟨h₁, hclasses⟩ := forM_collects (R := Expanding s c m) (Q := fun a u => DepMet u a)
    (.refl hw _ _) htrans (fun _ hu huv hQ => hQ.serves hu.wired huv)
    (fun ha hu hstep => hu.classDep hc hm ha hstep) hclasses
  obtain ⟨h₁₂, harrays⟩ := forM_collects (R := Expanding s c m)
    (Q := fun code u => u.Has (Primitive.arrayName code)) (.refl h₁.wired _ _) htrans
    (fun _ _ huv hQ => hQ.grows huv.grows)
    (fun hcode hu hstep => Expanding.arrayDep (h₁.trans hu) hc hm hcode hstep) harrays
  have h₂ := h₁.trans h₁₂
  obtain ⟨h₂₃, hliterals⟩ := forM_collects (R := Expanding s c m) (Q := fun a u => DepMet u a)
    (.refl h₂.wired _ _) htrans (fun _ hu huv hQ => hQ.serves hu.wired huv)
    (fun ha hu hstep => Expanding.literalDep (h₂.trans hu) hc hm ha hstep) hliterals
  have h₃ := h₂.trans h₂₃
  obtain ⟨h₃₄, hbuiltins⟩ := forM_collects (R := Expanding s c m)
    (Q := fun id u => ∃ k ∈ u.builtins, (k : Int) = id) (.refl h₃.wired _ _) htrans
    (fun _ _ huv hQ => by
      obtain ⟨k, hk, heq⟩ := hQ
      exact ⟨k, huv.builtins hk, heq⟩)
    (fun hid hu hstep => Expanding.builtin (h₃.trans hu) hc hm hid hstep) hbuiltins
  have h₄ := h₃.trans h₃₄
  obtain ⟨h₄₅, hmembers⟩ := forM_collects (R := Expanding s c m)
    (Q := fun a u => u.registry.KeepsRef a) (.refl h₄.wired _ _) htrans
    (fun _ _ huv hQ => huv.grows.keepsRef hQ)
    (fun ha hu hstep => by
      obtain ⟨fresh, hkeep⟩ := discard_ok.mp hstep
      exact Expanding.keepRef (h₄.trans hu) hc hm (Or.inr (Or.inr ha)) hkeep) hmembers
  have h₅ := h₄.trans h₄₅
  obtain ⟨h₅₆, hpushed⟩ := forM_collects (R := Expanding s c m) (Q := fun a u => DepMet u a)
    (.refl h₅.wired _ _) htrans (fun _ hu huv hQ => hQ.serves hu.wired huv)
    (fun ha hu hstep => by
      have ha := List.mem_reverse.mp ha
      exact Expanding.memberDep (h₅.trans hu) hc hm ha (hu.grows.keepsRef (hmembers _ ha)) hstep)
    hpush
  have hdeps : ∀ {a}, m.DependsOn a → DepMet l' a := by
    rintro a (ha | ha | ha)
    · exact (hclasses a ha).serves h₁.wired (h₁₂.trans (h₂₃.trans (h₃₄.trans (h₄₅.trans h₅₆))))
    · exact (hliterals a ha).serves h₃.wired (h₃₄.trans (h₄₅.trans h₅₆))
    · exact hpushed a (List.mem_reverse.mpr ha)
  refine ⟨h₅.trans h₅₆, ⟨?_, ?_, ?_⟩, hdeps⟩
  · intro a ha
    obtain ⟨ref, href, hkept, -⟩ := hdeps ha
    exact ⟨ref, href, hkept⟩
  · intro code hcode
    exact (harrays code hcode).grows (h₂₃.trans (h₃₄.trans (h₄₅.trans h₅₆))).grows
  · intro id hid
    obtain ⟨k, hk, heq⟩ := hbuiltins id hid
    exact ⟨k, (h₄₅.trans h₅₆).builtins hk, heq⟩

end Expand

/-! ### Requiring one member -/

/-- A stretch of a link: it loses nothing, and it adds nothing beyond what was there or still to be
required brings. -/
structure Advances (s : Source) (l l' : Linker) : Prop where
  wired : l'.Wired s
  grows : l.registry.Grows l'.registry
  root_eq : l'.root = l.root
  within : ∀ {r : Registry} {Q : Item → Prop}, ClosedUnder s l.root r Q → l'.registry.Grows r →
    l.Within r Q → l'.Within r Q
  counted : l.Counted → l'.Counted

theorem Advances.refl (hw : l.Wired s) : Advances s l l :=
  ⟨hw, .refl _, rfl, fun _ _ hin => hin, id⟩

theorem Advances.trans {l'' : Linker} (h : Advances s l l') (h' : Advances s l' l'') :
    Advances s l l'' where
  wired := h'.wired
  grows := h.grows.trans h'.grows
  root_eq := h'.root_eq.trans h.root_eq
  within hclosed hr hin :=
    h'.within (h.root_eq ▸ hclosed) hr (h.within hclosed (h'.grows.trans hr) hin)
  counted hl := h'.counted (h.counted hl)

/-- Keeping a member. -/
theorem keepMember_within {row : Nat} {sig : Signature} {fresh : Bool} {c : Class} {rg : Registry}
    (hw : l.Wired s) (hc : l.registry.classAt? row = some c)
    (hkeep : keepMember row sig l.registry = .ok fresh rg) {r : Registry} {Q : Item → Prop}
    (hx : Q (.member c.name sig)) (hin : l.Within r Q) :
    ({ l with registry := rg } : Linker).Within r Q := by
  obtain ⟨-, hsize⟩ := keepMember_tidy hw.tidy hkeep
  have hgrows := keepMember_grows hkeep
  have hrows : ∀ {p c'}, rg.classAt? p = some c' →
      ∃ c, l.registry.classAt? p = some c ∧ c.Grows c' := fun hc' =>
    hgrows.exists_old hc' (hsize ▸ classAt?_lt hc')
  refine ⟨?_, ?_, ?_, hin.builtins, hin.pending⟩
  · intro p c' hc'
    obtain ⟨c₀, hc₀, hgrow⟩ := hrows hc'
    rw [hgrow.name_eq]
    exact hin.classes hc₀
  · intro p c' sig' hc' hkept
    obtain ⟨c₀, hc₀, hgrow⟩ := hrows hc'
    rw [hgrow.name_eq]
    rcases keepsMember_of_keepMember hkeep hkept with hold | ⟨rfl, rfl⟩
    · exact hin.members hc₀ hold
    · cases hc.symm.trans hc₀
      exact hx
  · intro p c' pos ref' hc' href' hkept
    obtain ⟨c₀, hc₀, hgrow⟩ := hrows hc'
    obtain ⟨ref₀, href₀, hrefgrow⟩ := hgrow.pool_old href'
    obtain ⟨ref₁, href₁, hk₁⟩ := keepsRef_of_keepMember (a := ⟨p, pos⟩) hkeep
      ⟨ref', refAt?_eq_some.mpr ⟨c', hc', href'⟩, hkept⟩
    obtain ⟨c₁, hc₁, hpool₁⟩ := refAt?_eq_some.mp href₁
    cases hc₀.symm.trans hc₁
    cases href₀.symm.trans hpool₁
    rw [hgrow.name_eq, hrefgrow.slot_eq]
    exact hin.refs hc₀ href₀ hk₁

/-- Loading a class keeps a link complete. -/
theorem loadClass_complete {name : Text} {row : Nat} {todo todo' : List Member} (hw : l.Wired s)
    (hl : l.Complete todo NoneExempt) (hok : loadClass s name l = .ok row l')
    (htodo : ∀ {m}, m ∈ todo → m ∈ todo') (hpending : ∀ {m}, m ∈ l'.pending → m ∈ todo') :
    l'.Complete todo' NoneExempt := by
  obtain ⟨hserves, -⟩ := loadClass_serves (D := fun _ => False) hw hok
  obtain ⟨-, -, -, hbuiltins⟩ := loadClass_follows hw hok
  refine hl.grows hw hserves.wired hserves.grows hserves.builtins (fun hm => Or.inl (htodo hm))
    ?_ (fun hk => Or.inl (hserves.members hk)) id ?_ ?_
  · intro p c d hle hc hd
    exact Or.inl (hpending (hserves.initializers hle hc hd))
  · intro a ref href hkept
    exact Or.inl ((hserves.refs ⟨ref, href, hkept⟩).resolve_right id)
  · intro id hid
    rw [hbuiltins] at hid
    exact Or.inl hid

/-- Keeping the member that a lookup finds leaves at most its own dependencies to be followed. -/
theorem keepMember_complete {m : Member} {row : Nat} {d : Declaration} {fresh : Bool}
    {rg : Registry} {todo : List Member} (hw : l.Wired s)
    (hfind : l.registry.findMember m = .ok (row, d))
    (hkeep : keepMember row m.sig l.registry = .ok fresh rg)
    (hl : l.Complete (m :: todo) NoneExempt) :
    ({ l with registry := rg } : Linker).Complete todo
      fun p sig => fresh = true ∧ p = row ∧ sig = m.sig := by
  obtain ⟨htidy, hsize⟩ := keepMember_tidy hw.tidy hkeep
  have hgrows := keepMember_grows hkeep
  obtain ⟨-, c, -, hc, hd⟩ := findMember_ok hfind
  refine hl.grows hw (wired_of_grows hw htidy hgrows hsize) hgrows (fun hid => hid) ?_ ?_ ?_
    (fun h => h.elim) ?_ fun hid => Or.inl hid
  · intro m' hm'
    rcases List.mem_cons.mp hm' with rfl | hm'
    · obtain ⟨d', hfind', -⟩ := hgrows.findMember hw.tidy.wellFormed hw.tidy.hierarchy hfind
      exact Or.inr ⟨row, d', hfind', keepMember_keeps hkeep hc hd⟩
    · exact Or.inl hm'
  · intro p c' d' hle hc'
    exact absurd (hsize ▸ classAt?_lt hc') (Nat.not_lt.mpr hle)
  · intro p sig hkept
    obtain ⟨-, -, -, -, ⟨-, -, rfl⟩ | ⟨-, rfl, -⟩⟩ := keepMember_ok.mp hkeep
    · exact Or.inl hkept
    · rcases keepsMember_of_keepMember hkeep hkept with hold | ⟨rfl, rfl⟩
      · exact Or.inl hold
      · exact Or.inr ⟨rfl, rfl, rfl⟩
  · intro a ref href hkept
    exact Or.inl (keepsRef_of_keepMember hkeep ⟨ref, href, hkept⟩)

/-- Following the dependencies of the one method that was left makes a link complete. -/
theorem expand_complete {row : Nat} {c : Class} {m : Method} (hw : l.Wired s)
    (hc : l.registry.classAt? row = some c) (hm : m ∈ c.methods)
    (hl : l.Complete l.pending fun p sig => p = row ∧ sig = m.sig)
    (hok : expand s m l = .ok () l') : l'.Complete l'.pending NoneExempt := by
  obtain ⟨hserves, hmet, hdeps⟩ := expand_serves hw hc hm hok
  have hl' : l'.Complete l'.pending fun p sig => p = row ∧ sig = m.sig := by
    refine hl.grows hw hserves.wired hserves.grows hserves.builtins
      (fun hm => Or.inl (hserves.pending hm)) ?_ (fun hk => Or.inl (hserves.members hk)) id ?_
      hserves.entries
    · intro p c' d hle hc' hd
      exact Or.inl (hserves.initializers hle hc' hd)
    · intro a ref href hkept
      rcases hserves.refs ⟨ref, href, hkept⟩ with hold | hdep
      · exact Or.inl hold
      · obtain ⟨ref', href', -, hmet'⟩ := hdeps hdep
        cases href.symm.trans href'
        exact Or.inr hmet'
  refine hl'.close ?_
  rintro p c' m' hc' hm' ⟨rfl, hsig⟩
  obtain ⟨c₁, hc₁, hgrow⟩ := hserves.grows.classes hc
  cases hc'.symm.trans hc₁
  obtain ⟨m₁, hm₁, hmgrow⟩ := forall₂_mem_left hgrow.methods hm
  have hnodup := hserves.wired.tidy.wellFormed.signatures_nodup hc'
  have hd₁ := Class.declared?_method hnodup hm₁
  rw [hmgrow.sig_eq, ← hsig, Class.declared?_method hnodup hm'] at hd₁
  cases hd₁
  exact hmet.grows (.refl _) (fun hid => hid) hmgrow

/-- What is left of requiring a member once it is found and its mark is set. -/
theorem requireLoaded_of_keepMember {m : Member} {row : Nat} {d : Declaration} {fresh : Bool}
    {r : Registry} (hfind : l.registry.findMember m = .ok (row, d))
    (hkeep : keepMember row d.sig l.registry = .ok fresh r) :
    requireLoaded s m l =
      (if fresh then follow s d else pure () : LinkM Unit) { l with registry := r } := by
  rw [requireLoaded, bind_of_ok (get_ok.mpr ⟨rfl, rfl⟩)]
  simp only [hfind]
  exact bind_of_ok (onRegistry_ok.mpr ⟨r, hkeep, rfl⟩)

/-- A required member is found and marked, and what it depends on is not required yet. -/
structure MemberKept (s : Source) (m : Member) (row : Nat) (d : Declaration) (fresh : Bool)
    (l l' : Linker) : Prop where
  wired : l'.Wired s
  grows : l.registry.Grows l'.registry
  root_eq : l'.root = l.root
  declared : ∃ c d', l'.registry.classAt? row = some c ∧ c.declared? m.sig = some d' ∧ d.Grows d'
  wanted : ∀ {r : Registry} {Q : Item → Prop} {c : Class}, l'.registry.Grows r → l.Within r Q →
    l'.registry.classAt? row = some c → Q (.member c.name m.sig)
  within : ∀ {r : Registry} {Q : Item → Prop}, ClosedUnder s l.root r Q → l'.registry.Grows r →
    l.Within r Q → l'.Within r Q
  sorted : l.Counted → l'.builtins.Pairwise (· < ·)
  keptCount : l.Counted → l'.registry.sumOf Class.keptCount =
    l'.expansions + if fresh then d.weight (fun _ => 1) else 0
  complete : l'.Complete l'.pending fun p sig => fresh = true ∧ p = row ∧ sig = m.sig
  met : ∀ {x}, x ∈ l.pending → l'.Met l'.pending x

/-- Loading the class of a member, finding the member and setting its mark. -/
theorem memberKept_of_load {m : Member} {start row : Nat} {d : Declaration} {fresh : Bool}
    {l₁ : Linker} {rg : Registry} (hw : l.Wired s) (hl : l.Complete (m :: l.pending) NoneExempt)
    (hload : loadClass s m.className l = .ok start l₁)
    (hfind : l₁.registry.findMember m = .ok (row, d))
    (hkeep : keepMember row m.sig l₁.registry = .ok fresh rg) :
    MemberKept s m row d fresh { l with pending := m :: l.pending } { l₁ with registry := rg } := by
  obtain ⟨hserves, -⟩ := loadClass_serves (D := fun _ => False) hw hload
  have hcomplete : l₁.Complete (m :: l₁.pending) NoneExempt := by
    refine loadClass_complete hw hl hload (fun hm => ?_) fun hm => List.mem_cons_of_mem _ hm
    rcases List.mem_cons.mp hm with rfl | hm
    · exact List.mem_cons_self
    · exact List.mem_cons_of_mem _ (hserves.pending hm)
  obtain ⟨-, c, -, hc, hd⟩ := findMember_ok hfind
  obtain ⟨htidy, hsize⟩ := keepMember_tidy hserves.wired.tidy hkeep
  have hgrows := keepMember_grows hkeep
  obtain ⟨c₂, hc₂, hcgrow⟩ := hgrows.classes hc
  obtain ⟨d₂, hfind₂, -⟩ := hgrows.findMember hserves.wired.tidy.wellFormed
    hserves.wired.tidy.hierarchy hfind
  have hwanted : ∀ {r : Registry} {Q : Item → Prop} {c' : Class}, rg.Grows r →
      ({ l with pending := m :: l.pending } : Linker).Within r Q → rg.classAt? row = some c' →
      Q (.member c'.name m.sig) := by
    intro r Q c' hr hin hc'
    obtain ⟨-, hmember, -⟩ := hin.pending List.mem_cons_self
    obtain ⟨d', hfind', -⟩ := hr.findMember htidy.wellFormed htidy.hierarchy hfind₂
    obtain ⟨c'', hc'', hgrow⟩ := hr.classes hc'
    rw [← hgrow.name_eq]
    exact hmember hfind' hc''
  have hcounted : ({ l with pending := m :: l.pending } : Linker).Counted → l₁.Counted :=
    fun hl => hserves.counted ⟨hl.sorted, hl.expansions_eq⟩
  refine ⟨wired_of_grows hserves.wired htidy hgrows hsize, hserves.grows.trans hgrows,
    hserves.root_eq, ?_, hwanted, ?_, fun hl => (hcounted hl).sorted, fun hl => ?_,
    keepMember_complete hserves.wired hfind hkeep hcomplete, ?_⟩
  · obtain ⟨d', hd', hdgrow⟩ := hcgrow.declared?_some hd
    exact ⟨c₂, d', hc₂, hd', hdgrow⟩
  · intro r Q hclosed hr hin
    have hstart : l.Within r Q := ⟨hin.classes, hin.members, hin.refs, hin.builtins,
      fun hm => hin.pending (List.mem_cons_of_mem _ hm)⟩
    obtain ⟨hcls, -⟩ := hin.pending List.mem_cons_self
    exact keepMember_within hserves.wired hc hkeep (hcgrow.name_eq ▸ hwanted hr hin hc₂)
      (hserves.within hclosed (hgrows.trans hr) hcls hstart)
  · rw [(hcounted hl).expansions_eq]
    exact sumOf_keepMember (f := fun _ => 1) hserves.wired.tidy.wellFormed hc hd hkeep fun _ => rfl
  · intro x hx
    rcases List.mem_cons.mp hx with rfl | hx
    · exact Or.inr ⟨row, d₂, hfind₂, keepMember_keeps hkeep hc hd⟩
    · exact Or.inl (hserves.pending hx)

namespace MemberKept

variable {m : Member} {row : Nat} {d : Declaration} {fresh : Bool} {l₂ : Linker}

/-- A member that was kept before, or a field, depends on nothing that is still to be required. -/
theorem advances_of_done (h : MemberKept s m row d fresh l l')
    (hdone : fresh = true → ∃ f, d = .field f) :
    Advances s l l' ∧ l'.Complete l'.pending NoneExempt ∧
      ∀ {x}, x ∈ l.pending → l'.Met l'.pending x := by
  refine ⟨⟨h.wired, h.grows, h.root_eq, h.within, fun hl => ⟨h.sorted hl, ?_⟩⟩,
    h.complete.close ?_, h.met⟩
  · rw [h.keptCount hl]
    cases fresh with
    | false => rfl
    | true =>
        obtain ⟨f, rfl⟩ := hdone rfl
        rfl
  · rintro p c m' hc hm' ⟨hfresh, rfl, hsig⟩
    -- A class declares one thing under a signature, and it is a field here.
    obtain ⟨f, rfl⟩ := hdone hfresh
    obtain ⟨c', d', hc', hd', hdgrow⟩ := h.declared
    cases hc.symm.trans hc'
    rw [← hsig, Class.declared?_method (h.wired.tidy.wellFormed.signatures_nodup hc) hm'] at hd'
    cases hd'
    exact hdgrow.elim

/-- A method that was not kept before is counted and expanded. -/
theorem advances_of_expand {method : Method} (h : MemberKept s m row (.method method) true l l₂)
    (hok : expand s method { l₂ with expansions := l₂.expansions + 1 } = .ok () l') :
    Advances s l l' ∧ l'.Complete l'.pending NoneExempt ∧
      ∀ {x}, x ∈ l.pending → l'.Met l'.pending x := by
  obtain ⟨c, d', hc, hd', hdgrow⟩ := h.declared
  obtain ⟨m', hm', rfl, hsig⟩ | ⟨f, -, rfl, -⟩ := Class.mem_of_declared? hd'
  · have hexpand : expand s m' = expand s method := by
      rw [Method.Grows.frame hdgrow]
      rfl
    rw [← hexpand] at hok
    have hw := h.wired.congr l₂.pending (l₂.expansions + 1)
    have hcomplete := h.complete.congr (fun p sig => p = row ∧ sig = m'.sig) l₂.pending
      (l₂.expansions + 1) fun hex => ⟨hex.2.1, hex.2.2.trans hsig.symm⟩
    obtain ⟨hserves, -⟩ := expand_serves hw hc hm' hok
    refine ⟨⟨hserves.wired, h.grows.trans hserves.grows, hserves.root_eq.trans h.root_eq,
      fun hclosed hr hin => ?_, fun hl => ?_⟩, expand_complete hw hc hm' hcomplete hok, fun hx => ?_⟩
    · have hr₂ := hserves.grows.trans hr
      have hin₂ := h.within hclosed hr₂ hin
      exact hserves.within (h.root_eq ▸ hclosed) hr (hsig ▸ h.wanted hr₂ hin hc)
        ⟨hin₂.classes, hin₂.members, hin₂.refs, hin₂.builtins, hin₂.pending⟩
    · exact hserves.counted ⟨h.sorted hl, (h.keptCount hl).symm⟩
    · exact (h.met hx).grows h.wired hserves.grows fun hm => Or.inl (hserves.pending hm)
  · exact hdgrow.elim

end MemberKept

/-- Requiring one member keeps a link complete. -/
theorem requireOne_advances {m : Member} (hw : l.Wired s) (hl : l.Complete (m :: l.pending) NoneExempt)
    (hok : requireOne s m l = .ok () l') :
    Advances s { l with pending := m :: l.pending } l' ∧ l'.Complete l'.pending NoneExempt ∧
      ∀ {x}, x ∈ m :: l.pending → l'.Met l'.pending x := by
  simp only [requireOne, requireLoaded, bind_ok, discard_ok, get_ok] at hok
  obtain ⟨_, l₁, ⟨start, hload⟩, _, _, ⟨rfl, rfl⟩, hok⟩ := hok
  cases hfind : l₁.registry.findMember m with
  | error e => simp [hfind] at hok
  | ok found =>
      obtain ⟨row, d⟩ := found
      obtain ⟨-, c, -, -, hd⟩ := findMember_ok hfind
      simp only [hfind, Class.sig_of_declared? hd, bind_ok, onRegistry_ok] at hok
      obtain ⟨fresh, _, ⟨rg, hkeep, rfl⟩, hok⟩ := hok
      have hkept := memberKept_of_load hw hl hload hfind hkeep
      cases fresh with
      | false =>
          simp only [Bool.false_eq_true, if_false, pure_ok, true_and] at hok
          obtain rfl := hok
          exact hkept.advances_of_done fun h => absurd h Bool.false_ne_true
      | true =>
          cases d with
          | field f =>
              simp only [follow, if_true, pure_ok, true_and] at hok
              obtain rfl := hok
              exact hkept.advances_of_done fun _ => ⟨f, rfl⟩
          | method method =>
              simp only [follow, if_true, bind_ok, modify_ok] at hok
              obtain ⟨_, l₂, rfl, hok⟩ := hok
              exact hkept.advances_of_expand hok

/-! ### Requiring all of them -/

/-- A link with nothing left to require. -/
structure Settled (s : Source) (l : Linker) : Prop where
  wired : l.Wired s
  complete : l.Complete [] NoneExempt
  pending_eq : l.pending = []

theorem settled_empty (s : Source) (root : Text) : Settled s { root := root } := by
  refine ⟨wired_empty s root, ⟨?_, ?_, ?_, ?_⟩, rfl⟩
  · intro row c d hc
    simp [classAt?] at hc
  · intro row c m hc
    simp [classAt?] at hc
  · intro a ref href
    simp [refAt?, classAt?] at href
  · intro id hid
    cases hid

theorem drainFrom_nil (fuel : Nat) (hnone : l.pending = []) : drainFrom s fuel l = .ok () l := by
  cases fuel with
  | zero =>
      rw [drainFrom, bind_of_ok (get_ok.mpr ⟨rfl, rfl⟩), hnone]
      rfl
  | succ fuel =>
      rw [drainFrom, bind_of_ok (get_ok.mpr ⟨rfl, rfl⟩), hnone]
      rfl

/-- The queue is worked off by requiring its first member, and the rest of it in what that leaves. -/
theorem drainFrom_cons {fuel : Nat} {m : Member} {rest : List Member}
    (hpending : l.pending = m :: rest) : drainFrom s (fuel + 1) l =
      match requireOne s m { l with pending := rest } with
      | .ok _ l => drainFrom s fuel l
      | .error (.error e) l => .error (.error e) { l with pending := [] }
      | .error .fault l => .error .fault l := by
  rw [drainFrom, bind_of_ok (get_ok.mpr ⟨rfl, rfl⟩)]
  simp only [hpending]
  rfl

/-- Requiring all pending members, one after the other, settles a link. -/
theorem drainFrom_settled {fuel : Nat} (hw : l.Wired s) (hl : l.Complete l.pending NoneExempt)
    (hok : drainFrom s fuel l = .ok () l') :
    Advances s l l' ∧ Settled s l' ∧ ∀ {m}, m ∈ l.pending → l'.Met [] m := by
  induction fuel generalizing l with
  | zero =>
      simp only [drainFrom, bind_ok, get_ok, ite_ok, giveUp_ok, and_false, false_or, pure_ok,
        true_and] at hok
      obtain ⟨_, _, ⟨rfl, rfl⟩, hnone, rfl⟩ := hok
      have hnil : l.pending = [] := by simpa using hnone
      rw [hnil] at hl ⊢
      exact ⟨.refl hw, ⟨hw, hl, hnil⟩, fun hm => by cases hm⟩
  | succ fuel ih =>
      cases hpending : l.pending with
      | nil =>
          simp only [drainFrom, bind_ok, get_ok] at hok
          obtain ⟨_, _, ⟨rfl, rfl⟩, hok⟩ := hok
          simp only [hpending, pure_ok, true_and] at hok
          obtain rfl := hok
          rw [hpending] at hl
          exact ⟨.refl hw, ⟨hw, hl, hpending⟩, fun hm => by cases hm⟩
      | cons m rest =>
          rw [drainFrom_cons hpending] at hok
          cases hone : requireOne s m { l with pending := rest } with
          | error e l₂ => cases e <;> simp [hone] at hok
          | ok u l₂ =>
              simp only [hone] at hok
              rw [hpending] at hl
              obtain ⟨hadvance, hcomplete, hmet⟩ := requireOne_advances (hw.congr rest l.expansions)
                (hl.congr _ rest l.expansions id) hone
              obtain ⟨hadvance', hsettled, hdone⟩ := ih hadvance.wired hcomplete hok
              have hstart : ({ l with pending := m :: rest } : Linker) = l := by rw [← hpending]
              refine ⟨(hstart ▸ hadvance).trans hadvance', hsettled, fun hm => ?_⟩
              exact (hmet hm).grows hadvance.wired hadvance'.grows hdone

/-- A call that was asked for an item leaves the link settled, loses nothing and adds nothing that
the item does not bring. -/
structure Answers (s : Source) (x : Item) (l l' : Linker) : Prop where
  settled : Settled s l'
  grows : l.registry.Grows l'.registry
  root_eq : l'.root = l.root
  within : ∀ {r : Registry} {Q : Item → Prop}, ClosedUnder s l.root r Q → l'.registry.Grows r →
    Q x → l.Within r Q → l'.Within r Q
  counted : l.Counted → l'.Counted

theorem load_answers {name : Text} {row : Nat} (h : Settled s l)
    (hok : load s name l = .ok row l') :
    Answers s (.cls name) l l' ∧ l'.registry.find? name = some row := by
  simp only [load, bind_ok, pure_ok] at hok
  obtain ⟨row', l₁, hload, _, l₂, hdrain, rfl, rfl⟩ := hok
  obtain ⟨hfollows, hrow, -⟩ := loadClass_follows h.wired hload
  have hcomplete := loadClass_complete h.wired h.complete hload (fun hm => by cases hm) id
  obtain ⟨hadvance, hsettled, -⟩ := drainFrom_settled hfollows.wired hcomplete hdrain
  refine ⟨⟨hsettled, hfollows.grows.trans hadvance.grows,
    hadvance.root_eq.trans hfollows.root_eq, ?_, fun hl => hadvance.counted (hfollows.counted hl)⟩,
    hadvance.grows.find hrow⟩
  intro r Q hclosed hr hx hin
  exact hadvance.within (hfollows.root_eq ▸ hclosed) hr
    (hfollows.within hclosed (hadvance.grows.trans hr) hx hin)

/-- A member that becomes pending is all that a settled link then has to require. -/
theorem push_complete (h : Settled s l) (m : Member) :
    ({ l with pending := m :: l.pending } : Linker).Complete (m :: l.pending) NoneExempt := by
  refine h.complete.grows h.wired (push_follows h.wired).wired (.refl _) (fun hid => hid)
    (fun hm => by cases hm) ?_ (fun hk => Or.inl hk) id ?_ fun hid => Or.inl hid
  · intro row c d hle hc
    exact absurd (classAt?_lt hc) (Nat.not_lt.mpr hle)
  · intro a ref href hkept
    exact Or.inl ⟨ref, href, hkept⟩

theorem require_answers {m : Member} (h : Settled s l) (hok : require s m l = .ok () l') :
    Answers s (.lookup m) l l' ∧ l'.Met [] m := by
  simp only [require, bind_ok, push_ok] at hok
  obtain ⟨_, l₁, rfl, hdrain⟩ := hok
  have hfollows := push_follows (m := m) h.wired
  obtain ⟨hadvance, hsettled, hmet⟩ := drainFrom_settled hfollows.wired (push_complete h m)
    hdrain
  refine ⟨⟨hsettled, hadvance.grows, hadvance.root_eq, ?_, fun hl =>
    hadvance.counted (hfollows.counted hl)⟩, hmet List.mem_cons_self⟩
  intro r Q hclosed hr hx hin
  exact hadvance.within hclosed hr
    (hfollows.within hclosed (hadvance.grows.trans hr) hx hin)

end Closure

end ClassLinker
