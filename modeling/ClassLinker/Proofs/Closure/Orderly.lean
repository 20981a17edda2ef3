import ClassLinker.Proofs.Closure.Reach
import ClassLinker.Proofs.Closure.Replay

/-! What the operations of a link leave in order, also when they fail: every class is listed and kept,
nothing that was kept is dropped, and the number of kept methods only changes where a method is
kept. -/

namespace ClassLinker

/-- What is kept in `c` is kept in `c'`. -/
structure Class.Retains (c c' : Class) : Prop where
  name_eq : c'.name = c.name
  kept : c.kept = true → c'.kept = true
  methods : ∀ m ∈ c.methods, m.kept = true → ∃ m' ∈ c'.methods, m'.sig = m.sig ∧ m'.kept = true
  fields : ∀ f ∈ c.fields, f.kept = true → ∃ f' ∈ c'.fields, f'.sig = f.sig ∧ f'.kept = true
  refs : ∀ {pos : Nat} {ref}, c.pool[pos]? = some ref → ref.kept = true →
    ∃ ref', c'.pool[pos]? = some ref' ∧ ref'.key = ref.key ∧ ref'.kept = true

namespace Registry

open RegistryM Step

variable {r r' r'' : Registry} {n : Nat}

/-- What is registered in `r` is registered in `r'`, and what is kept in `r` is kept in `r'`. -/
structure Retains (r r' : Registry) : Prop where
  names : ∀ {name row}, r.find? name = some row → r'.find? name = some row
  classes : ∀ {row c}, r.classAt? row = some c →
    ∃ c', r'.classAt? row = some c' ∧ c'.name = c.name ∧ (c.kept = true → c'.kept = true)
  members : ∀ {row sig}, r.KeepsMember row sig → r'.KeepsMember row sig
  refs : ∀ {a ref}, r.refAt? a = some ref → ref.kept = true →
    ∃ ref', r'.refAt? a = some ref' ∧ ref'.key = ref.key ∧ ref'.kept = true

/-- Every class of a tidy registry is kept, and so are `n` methods. -/
structure Orderly (r : Registry) (n : Nat) : Prop where
  tidy : r.Tidy
  kept : ∀ {row c}, r.classAt? row = some c → c.kept = true
  count_eq : r.sumOf Class.keptCount = n

namespace Retains

theorem refl (r : Registry) : r.Retains r where
  names hname := hname
  classes hc := ⟨_, hc, rfl, id⟩
  members hkept := hkept
  refs href hkept := ⟨_, href, rfl, hkept⟩

theorem trans (h : r.Retains r') (h' : r'.Retains r'') : r.Retains r'' where
  names hname := h'.names (h.names hname)
  classes hc := by
    obtain ⟨c', hc', hname, hkept⟩ := h.classes hc
    obtain ⟨c'', hc'', hname', hkept'⟩ := h'.classes hc'
    exact ⟨c'', hc'', hname'.trans hname, hkept' ∘ hkept⟩
  members hkept := h'.members (h.members hkept)
  refs href hkept := by
    obtain ⟨ref', href', hkey, hkept⟩ := h.refs href hkept
    obtain ⟨ref'', href'', hkey', hkept⟩ := h'.refs href' hkept
    exact ⟨ref'', href'', hkey'.trans hkey, hkept⟩

/-- A registry that grows keeps what it kept. -/
theorem of_grows (h : r.Grows r') (hnames : ∀ {name row}, r.find? name = some row →
    r'.find? name = some row) : r.Retains r' where
  names := hnames
  classes hc := by
    obtain ⟨c', hc', hgrow⟩ := h.classes hc
    exact ⟨c', hc', hgrow.name_eq, hgrow.kept⟩
  members hkept := h.keepsMember hkept
  refs href hkept := by
    obtain ⟨ref', href', hgrow⟩ := h.refAt? href
    refine ⟨ref', href', ?_, hgrow.kept hkept⟩
    rw [hgrow.frame]
    rfl

theorem modifyClass {row : Nat} {f : Class → Class} (hwf : (r.modifyClass row f).WellFormed)
    (hf : ∀ c, r.classAt? row = some c → c.Retains (f c)) : r.Retains (r.modifyClass row f) := by
  have hclass : ∀ {p c}, r.classAt? p = some c →
      ∃ c', (r.modifyClass row f).classAt? p = some c' ∧
        ((row = p ∧ c' = f c ∧ c.Retains c') ∨ c' = c) := by
    intro p c hc
    rw [classAt?_modifyClass, hc]
    by_cases hp : row = p
    · rw [if_pos hp]
      exact ⟨f c, rfl, .inl ⟨hp, rfl, hf c (hp ▸ hc)⟩⟩
    · rw [if_neg hp]
      exact ⟨c, rfl, .inr rfl⟩
  constructor
  case names => exact fun hname => hname
  case classes =>
    intro p c hc
    obtain ⟨c', hc', ⟨-, -, hretains⟩ | rfl⟩ := hclass hc
    · exact ⟨c', hc', hretains.name_eq, hretains.kept⟩
    · exact ⟨c', hc', rfl, id⟩
  case members =>
    rintro p sig ⟨c, d, hc, hd, hkept⟩
    obtain ⟨c', hc', ⟨-, -, hretains⟩ | rfl⟩ := hclass hc
    · have hnodup := hwf.signatures_nodup hc'
      obtain ⟨m, hm, rfl, rfl⟩ | ⟨field, hfield, rfl, rfl⟩ := Class.mem_of_declared? hd
      · obtain ⟨m', hm', hsig, hkept'⟩ := hretains.methods m hm hkept
        exact ⟨c', .method m', hc', hsig ▸ Class.declared?_method hnodup hm', hkept'⟩
      · obtain ⟨field', hfield', hsig, hkept'⟩ := hretains.fields field hfield hkept
        exact ⟨c', .field field', hc', hsig ▸ Class.declared?_field hnodup hfield', hkept'⟩
    · exact ⟨c', d, hc', hd, hkept⟩
  case refs =>
    intro a ref href hkept
    obtain ⟨c, hc, hpool⟩ := refAt?_eq_some.mp href
    obtain ⟨c', hc', ⟨-, -, hretains⟩ | rfl⟩ := hclass hc
    · obtain ⟨ref', hpool', hkey, hkept'⟩ := hretains.refs hpool hkept
      exact ⟨ref', refAt?_eq_some.mpr ⟨c', hc', hpool'⟩, hkey, hkept'⟩
    · exact ⟨ref, refAt?_eq_some.mpr ⟨c', hc', hpool⟩, rfl, hkept⟩

end Retains

theorem orderly_empty : Orderly {} 0 where
  tidy := ⟨.empty, .empty, ⟨by simp [classAt?], by simp [classAt?]⟩, rfl, rfl⟩
  kept hc := by simp [classAt?] at hc
  count_eq := rfl

/-- The registry that an operation leaves is in order, and keeps as many methods as before. -/
def KeepsOrder {α : Type} (x : RegistryM α) : Prop :=
  ∀ {r : Registry} {n : Nat}, r.Orderly n → (final (x r)).Orderly n ∧ r.Retains (final (x r))

/-- A change of one class that leaves its place in the hierarchy and the number of its kept methods
alone. -/
theorem Orderly.modifyClass (h : r.Orderly n) {row : Nat} {f : Class → Class}
    (hwf : (r.modifyClass row f).WellFormed)
    (hframe : ∀ c, (f c).name = c.name ∧ (f c).super = c.super ∧
      (f c).interfaces = c.interfaces ∧ (f c).children = c.children)
    (hretains : ∀ c, r.classAt? row = some c → c.Retains (f c))
    (hcount : ∀ c, r.classAt? row = some c → (f c).keptCount = c.keptCount) :
    (r.modifyClass row f).Orderly n ∧ r.Retains (r.modifyClass row f) := by
  refine ⟨⟨h.tidy.modifyClass hwf hframe, fun {p c'} hc' => ?_, ?_⟩, .modifyClass hwf hretains⟩
  · obtain ⟨c, hc, ⟨rfl, rfl⟩ | ⟨-, rfl⟩⟩ := classAt?_of_modifyClass hc'
    · exact (hretains c hc).kept (h.kept hc)
    · exact h.kept hc
  · rw [← h.count_eq]
    cases hc : r.classAt? row with
    | some c =>
        have hsum := sumOf_modifyClass (w := Class.keptCount) hc f
        have hsame := hcount c hc
        omega
    | none =>
        -- There is no class in the row, so nothing changes.
        have hsame : ∀ p, (r.modifyClass row f).classAt? p = r.classAt? p := by
          intro p
          rw [classAt?_modifyClass]
          split
          · rename_i hp
            rw [← hp, hc]
            rfl
          · rfl
        refine Nat.le_antisymm ?_ ?_
        · exact sumOf_le fun {p c} hc _ => ⟨c, hsame p ▸ hc, Nat.le_refl _⟩
        · exact sumOf_le fun {p c} hc _ => ⟨c, (hsame p).trans hc, Nat.le_refl _⟩

/-- An operation that changes at most one class. -/
theorem keepsOrder_of_modifyClass {α : Type} {x : RegistryM α}
    (hwf : ∀ {r : Registry}, r.WellFormed → (final (x r)).WellFormed)
    (herror : ∀ {r r' : Registry} {e}, x r = .error e r' → r = r')
    (hok : ∀ {r r' : Registry} {a}, r.WellFormed → x r = .ok a r' → r = r' ∨ ∃ row f,
      r.modifyClass row f = r' ∧
      (∀ c, (f c).name = c.name ∧ (f c).super = c.super ∧ (f c).interfaces = c.interfaces ∧
        (f c).children = c.children) ∧
      (∀ c, r.classAt? row = some c → c.Retains (f c)) ∧
      ∀ c, r.classAt? row = some c → (f c).keptCount = c.keptCount) : KeepsOrder x := by
  intro r n h
  have hfinal := hwf h.tidy.wellFormed
  cases hx : x r with
  | error e r' =>
      cases herror hx
      exact ⟨h, .refl r⟩
  | ok a r' =>
      rcases hok h.tidy.wellFormed hx with rfl | ⟨row, f, rfl, hframe, hretains, hcount⟩
      · exact ⟨h, .refl r⟩
      · rw [hx] at hfinal
        exact h.modifyClass hfinal hframe hretains hcount

theorem createRef_keepsOrder (row : Nat) (slot : Int) (body : RefBody) :
    KeepsOrder (createRef row slot body) := by
  refine keepsOrder_of_modifyClass (createRef_wellFormed · row slot body) createRef_error ?_
  intro r r' a hr hok
  obtain ⟨-, c, -, -, -, -, hr', -⟩ := createRef_ok.mp hok
  refine .inr ⟨row, _, hr', fun c => ⟨rfl, rfl, rfl, rfl⟩, fun c _ => ?_, fun c _ => rfl⟩
  refine ⟨rfl, id, fun m hm hkept => ⟨m, hm, rfl, hkept⟩, fun f hf hkept => ⟨f, hf, rfl, hkept⟩, ?_⟩
  intro pos ref hpool hkept
  obtain ⟨hlt, -⟩ := Array.getElem?_eq_some_iff.mp hpool
  refine ⟨ref, ?_, rfl, hkept⟩
  show (c.pool.push _)[pos]? = _
  rw [Array.getElem?_push, if_neg (Nat.ne_of_lt hlt), hpool]

theorem createLiteral_keepsOrder (row : Nat) (slot kind : Int) (value : Option Literal) :
    KeepsOrder (createLiteral row slot kind value) := by
  intro r n h
  cases hx : createLiteral row slot kind value r with
  | error e r' =>
      cases createLiteral_error hx
      exact ⟨h, .refl r⟩
  | ok a r' =>
      obtain ⟨v, -, -, hcreate⟩ := createLiteral_ok.mp hx
      have horder := createRef_keepsOrder row slot (.literal v) h
      rwa [hcreate] at horder

theorem createMethod_keepsOrder (row : Nat) (spec : MethodSpec) : KeepsOrder (createMethod row spec) := by
  refine keepsOrder_of_modifyClass (createMethod_wellFormed · row spec) createMethod_error ?_
  intro r r' a hr hok
  obtain ⟨-, c, -, -, -, hr'⟩ := createMethod_ok.mp hok
  refine .inr ⟨row, _, hr', fun c => ⟨rfl, rfl, rfl, rfl⟩, fun c _ => ?_, fun c _ => ?_⟩
  · exact ⟨rfl, id, fun m hm hkept => ⟨m, List.mem_append_left _ hm, rfl, hkept⟩,
      fun f hf hkept => ⟨f, hf, rfl, hkept⟩, fun hpool hkept => ⟨_, hpool, rfl, hkept⟩⟩
  · rw [Class.keptCount_eq, Class.keptCount_eq, List.countP_append, List.countP_singleton]
    rfl

theorem createField_keepsOrder (row : Nat) (spec : FieldSpec) : KeepsOrder (createField row spec) := by
  refine keepsOrder_of_modifyClass (createField_wellFormed · row spec) createField_error ?_
  intro r r' a hr hok
  obtain ⟨-, c, -, -, hr'⟩ := createField_ok.mp hok
  refine .inr ⟨row, _, hr', fun c => ⟨rfl, rfl, rfl, rfl⟩, fun c _ => ?_, fun c _ => rfl⟩
  exact ⟨rfl, id, fun m hm hkept => ⟨m, hm, rfl, hkept⟩,
    fun f hf hkept => ⟨f, List.mem_append_left _ hf, rfl, hkept⟩,
    fun hpool hkept => ⟨_, hpool, rfl, hkept⟩⟩

theorem allocSlot_keepsOrder (row : Nat) : KeepsOrder (allocSlot row) := by
  refine keepsOrder_of_modifyClass (allocSlot_wellFormed · row) allocSlot_error ?_
  intro r r' slot hr hok
  obtain ⟨-, c, -, -, hr', -⟩ := allocSlot_ok.mp hok
  refine .inr ⟨row, _, hr', fun c => ⟨rfl, rfl, rfl, rfl⟩, fun c _ => ?_, fun c _ => rfl⟩
  exact ⟨rfl, id, fun m hm hkept => ⟨m, hm, rfl, hkept⟩, fun f hf hkept => ⟨f, hf, rfl, hkept⟩,
    fun hpool hkept => ⟨_, hpool, rfl, hkept⟩⟩

theorem keepRef_keepsOrder (a : RefAddr) : KeepsOrder (keepRef a) := by
  intro r n h
  cases hx : keepRef a r with
  | error e r' =>
      cases keepRef_error hx
      exact ⟨h, .refl r⟩
  | ok fresh r' =>
      have htidy := (Closure.keepRef_tidy h.tidy hx).1
      have hgrows := keepRef_grows hx
      have hretains : r.Retains r' := by
        obtain ⟨-, ref, -, -, ⟨-, -, rfl⟩ | ⟨-, -, rfl⟩⟩ := keepRef_ok.mp hx
        · exact .refl r
        · exact .of_grows hgrows id
      refine ⟨⟨htidy, fun {row c'} hc' => ?_, ?_⟩, hretains⟩
      · have hlt : row < r.rows.size := (Closure.keepRef_tidy h.tidy hx).2 ▸ classAt?_lt hc'
        obtain ⟨c, hc⟩ := exists_classAt? hlt
        obtain ⟨c₁, hc₁, -, hkept⟩ := hretains.classes hc
        cases hc'.symm.trans hc₁
        exact hkept (h.kept hc)
      · rw [← h.count_eq]
        exact hgrows.sumOf_keptWeight_eq h.tidy.wellFormed htidy.wellFormed (fun _ => rfl)
          (keepsMember_of_keepRef hx)

/-- Recording something about a method keeps the registry in order. -/
theorem Orderly.modifyMethod (h : r.Orderly n) (row : Nat) (sig : Signature) {f : Method → Method}
    (hsig : ∀ m, (f m).sig = m.sig) (hkept : ∀ m, (f m).kept = m.kept) :
    (r.modifyMethod row sig f).Orderly n ∧ r.Retains (r.modifyMethod row sig f) := by
  have hkeeps : ∀ m, (if m.sig = sig then f m else m).kept = m.kept := by
    intro m
    split
    · exact hkept m
    · rfl
  refine h.modifyClass (modifyMethod_wellFormed h.tidy.wellFormed row sig hsig)
    (fun c => ⟨rfl, rfl, rfl, rfl⟩) (fun c _ => ?_) fun c _ => ?_
  · refine ⟨rfl, id, fun m hm hm' => ?_, fun f hf hkept => ⟨f, hf, rfl, hkept⟩,
      fun hpool hkept => ⟨_, hpool, rfl, hkept⟩⟩
    refine ⟨_, List.mem_map.mpr ⟨m, hm, rfl⟩, ?_, (hkeeps m).trans hm'⟩
    split
    · exact hsig m
    · rfl
  · rw [Class.keptCount_eq, Class.keptCount_eq, List.countP_map]
    exact List.countP_congr fun m _ => by rw [Function.comp_apply, hkeeps]

/-- Keeping a member of an orderly registry. -/
theorem Orderly.keepMember (h : r.Orderly n) {row : Nat} {sig : Signature} {fresh : Bool}
    {c : Class} {d : Declaration} (hc : r.classAt? row = some c) (hd : c.declared? sig = some d)
    (hok : Registry.keepMember row sig r = .ok fresh r') :
    r'.Orderly (n + if fresh then d.weight (fun _ => 1) else 0) ∧ r.Retains r' := by
  have hgrows := keepMember_grows hok
  have hretains : r.Retains r' := by
    obtain ⟨-, c, -, -, ⟨-, -, rfl⟩ | ⟨-, -, rfl⟩⟩ := keepMember_ok.mp hok
    · exact .refl r
    · exact .of_grows hgrows id
  obtain ⟨htidy, hsize⟩ := Closure.keepMember_tidy h.tidy hok
  refine ⟨⟨htidy, fun {p c'} hc' => ?_, ?_⟩, hretains⟩
  · obtain ⟨c₀, hc₀⟩ := exists_classAt? (hsize ▸ classAt?_lt hc')
    obtain ⟨c₁, hc₁, -, hkept⟩ := hretains.classes hc₀
    cases hc'.symm.trans hc₁
    exact hkept (h.kept hc₀)
  · rw [← h.count_eq]
    exact sumOf_keepMember h.tidy.wellFormed hc hd hok fun _ => rfl

/-- A new class is kept, and declares no method yet. -/
theorem Orderly.created {spec : ClassSpec} (h : r.Orderly n) (hcreated : Closure.Created spec r r') :
    r'.Orderly n ∧ r.Retains r' := by
  refine ⟨⟨hcreated.tidy, fun {row c'} hc' => ?_, ?_⟩, .of_grows (hcreated.grows h.tidy) ?_⟩
  · rcases hcreated.class_cases hc' with ⟨c, children', hc, rfl⟩ | ⟨children, rfl⟩
    · exact show c.kept = true from h.kept hc
    · rfl
  · rw [← h.count_eq]
    refine Nat.le_antisymm ?_ ?_
    · refine sumOf_le fun {row c'} hc' hne => ?_
      rcases hcreated.class_cases hc' with ⟨c, children', hc, rfl⟩ | ⟨children, rfl⟩
      · exact ⟨c, hc, Nat.le_refl _⟩
      · exact absurd rfl hne
    · refine sumOf_le fun {row c} hc _ => ?_
      obtain ⟨children', hc'⟩ := hcreated.other hc
      exact ⟨_, hc', Nat.le_refl _⟩
  · intro name row hname
    rw [hcreated.find?_eq, if_neg]
    · exact hname
    · rintro rfl
      rw [hcreated.fresh] at hname
      cases hname

/-- Registering a class whose interfaces are registered succeeds and the class can be kept, or
changes nothing. -/
theorem createClass_cases (spec : ClassSpec) (hr : r.Tidy)
    (hinterfaces : ∀ i ∈ spec.interfaces, ∃ p, r.find? i = some p) :
    (∃ e, createClass spec r = .error e r) ∨
      ∃ r₁ r₂, createClass spec r = .ok r.rows.size r₁ ∧ keepClass r.rows.size r₁ = .ok true r₂ ∧
        Closure.Created spec r r₂ := by
  cases hcreate : createClass spec r with
  | ok row r₁ =>
      obtain ⟨r₂, hkeep⟩ := exists_keepClass hcreate
      obtain ⟨rfl, hcreated⟩ := Closure.created hr hcreate hkeep
      exact .inr ⟨r₁, r₂, rfl, hkeep, hcreated⟩
  | error e r₁ =>
      rcases createClass_fails hcreate with rfl | hadd
      · exact .inl ⟨e, rfl⟩
      · have hsame := SameButChildren.adopt (r.store (spec.toClass r.live.length))
          (r.superOf? (spec.toClass r.live.length)).toList r.rows.size
        obtain ⟨r', hr'⟩ := exists_addToInterfaces spec.name r.rows.size fun i hi =>
          (hinterfaces i hi).imp fun p hp => (hsame.find?_eq i).trans hp
        cases hadd.symm.trans hr'

end Registry

end ClassLinker
