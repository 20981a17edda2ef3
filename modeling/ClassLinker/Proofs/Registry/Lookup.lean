import ClassLinker.Proofs.Registry.Operations
import ClassLinker.Registry.Lookup

/-! Member lookup. A lookup finds a declaration of the signature in a live class, and what it finds
depends only on the names, the supertypes and the declared signatures: in a registry that has these
and possibly more classes the same row is found. -/

namespace ClassLinker

/-- A list has a larger sum when it has a larger number wherever the other one has a positive one. -/
theorem total_map_le {α β : Type} {f : α → Nat} {g : β → Nat} {xs : List α} {ys : List β}
    (h : ∀ (i : Nat) (x : α), xs[i]? = some x → f x ≠ 0 → ∃ y, ys[i]? = some y ∧ f x ≤ g y) :
    total (xs.map f) ≤ total (ys.map g) := by
  induction xs generalizing ys with
  | nil => exact Nat.zero_le _
  | cons x xs ih =>
      have hrest : total (xs.map f) ≤ total (ys.tail.map g) := by
        refine ih fun i z hz hne => ?_
        rw [List.getElem?_tail]
        exact h (i + 1) z hz hne
      by_cases hzero : f x = 0
      · have htail : total (ys.tail.map g) ≤ total (ys.map g) := by
          cases ys with
          | nil => exact Nat.le_refl _
          | cons y ys => exact Nat.le_add_left _ _
        simp only [List.map_cons, total, hzero]
        omega
      · obtain ⟨y, hy, hle⟩ := h 0 x rfl hzero
        cases ys with
        | nil => cases hy
        | cons z ys =>
            cases hy
            simp only [List.map_cons, total, List.tail_cons] at hrest ⊢
            omega

namespace Class

theorem exists_declared? {c : Class} {sig : Signature} :
    (∃ d, c.declared? sig = some d) ↔ sig ∈ c.signatures := by
  rw [← Option.ne_none_iff_exists', ne_eq, declared?_eq_none, not_not]

/-- `c'` has the supertypes of `c` and declares `sig` when `c` does; when only `c'` declares it,
`added` holds. -/
structure Matches (sig : Signature) (added : Prop) (c c' : Class) : Prop where
  super_eq : c'.super = c.super
  interfaces_eq : c'.interfaces = c.interfaces
  declares : sig ∈ c.signatures → sig ∈ c'.signatures
  declared : sig ∈ c'.signatures → sig ∈ c.signatures ∨ added

theorem Matches.exists_declared? {sig : Signature} {added : Prop} {c c' : Class}
    (h : Matches sig added c c') {d : Declaration} (hd : c.declared? sig = some d) :
    ∃ d', c'.declared? sig = some d' :=
  Class.exists_declared?.mpr (h.declares (Class.exists_declared?.mp ⟨d, hd⟩))

theorem Matches.added_of_declared? {sig : Signature} {added : Prop} {c c' : Class}
    (h : Matches sig added c c') {d : Declaration} (hd' : c'.declared? sig = some d)
    (hd : c.declared? sig = none) : added := by
  rcases h.declared (Class.exists_declared?.mp ⟨d, hd'⟩) with hold | hadded
  · exact absurd hold (declared?_eq_none.mp hd)
  · exact hadded

end Class

namespace Registry

/-- The supertypes of a live class are live rows before it, and only the first row is a root. -/
structure Hierarchy (r : Registry) : Prop where
  find_self : ∀ {row c}, row ∈ r.live → r.classAt? row = some c → r.find? c.name = some row
  super_lt : ∀ {row c}, row ∈ r.live → r.classAt? row = some c → c.super ≠ [] →
    ∃ p, r.find? c.super = some p ∧ p < row
  interface_lt : ∀ {row c name}, row ∈ r.live → r.classAt? row = some c → name ∈ c.interfaces →
    ∃ p, r.find? name = some p ∧ p < row
  root_iff : ∀ {row c}, row ∈ r.live → r.classAt? row = some c →
    (c.super = [] ↔ r.live.head? = some row)

/-- A live row is an old one, whose class is as before, or the new one. -/
theorem classAt?_enlisted {r : Registry} {c₀ c : Class} {name : Text} {p : Nat}
    (hp : p ∈ r.live ++ [r.rows.size])
    (hc : ((r.store c₀).enlist r.rows.size name).classAt? p = some c) :
    p ∈ r.live ∧ r.classAt? p = some c ∨ p = r.rows.size ∧ c = c₀ := by
  have hc' : (r.store c₀).classAt? p = some c := hc
  rw [classAt?_store] at hc'
  split at hc'
  · rename_i heq
    cases hc'
    exact Or.inr ⟨heq, rfl⟩
  · rename_i hne
    rcases List.mem_append.mp hp with hp | hp
    · exact Or.inl ⟨hp, hc'⟩
    · exact absurd (List.mem_singleton.mp hp) hne

namespace Hierarchy

variable {r : Registry}

theorem empty : Hierarchy {} := by
  constructor <;> simp

theorem modifyClass (h : r.Hierarchy) {row : Nat} {f : Class → Class}
    (hf : ∀ c, (f c).name = c.name ∧ (f c).super = c.super ∧ (f c).interfaces = c.interfaces) :
    (r.modifyClass row f).Hierarchy := by
  have hclass : ∀ {row' c'}, (r.modifyClass row f).classAt? row' = some c' →
      ∃ c, r.classAt? row' = some c ∧ c'.name = c.name ∧ c'.super = c.super ∧
        c'.interfaces = c.interfaces := by
    intro row' c' hc'
    obtain ⟨c, hc, ⟨-, rfl⟩ | ⟨-, rfl⟩⟩ := classAt?_of_modifyClass hc'
    · exact ⟨c, hc, hf c⟩
    · exact ⟨c', hc, rfl, rfl, rfl⟩
  constructor
  · intro row' c' hrow hc'
    obtain ⟨c, hc, hname, -, -⟩ := hclass hc'
    rw [hname]
    exact h.find_self hrow hc
  · intro row' c' hrow hc' hne
    obtain ⟨c, hc, -, hsuper, -⟩ := hclass hc'
    rw [hsuper] at hne ⊢
    exact h.super_lt hrow hc hne
  · intro row' c' name hrow hc' hname
    obtain ⟨c, hc, -, -, hinterfaces⟩ := hclass hc'
    rw [hinterfaces] at hname
    exact h.interface_lt hrow hc hname
  · intro row' c' hrow hc'
    obtain ⟨c, hc, -, hsuper, -⟩ := hclass hc'
    rw [hsuper]
    exact h.root_iff hrow hc

theorem sameButChildren {r' : Registry} (h : r.Hierarchy) (hsame : SameButChildren r r') :
    r'.Hierarchy := by
  have hclass : ∀ {row c'}, r'.classAt? row = some c' →
      ∃ c, r.classAt? row = some c ∧ c'.name = c.name ∧ c'.super = c.super ∧
        c'.interfaces = c.interfaces := by
    intro row c' hc'
    obtain ⟨c, hc, heq⟩ := hsame.exists_old hc'
    exact ⟨c, hc, by rw [heq], by rw [heq], by rw [heq]⟩
  constructor
  · intro row c' hrow hc'
    obtain ⟨c, hc, hname, -, -⟩ := hclass hc'
    rw [hname, hsame.find?_eq]
    exact h.find_self (hsame.live_eq ▸ hrow) hc
  · intro row c' hrow hc' hne
    obtain ⟨c, hc, -, hsuper, -⟩ := hclass hc'
    rw [hsuper] at hne ⊢
    rw [hsame.find?_eq]
    exact h.super_lt (hsame.live_eq ▸ hrow) hc hne
  · intro row c' name hrow hc' hname
    obtain ⟨c, hc, -, -, hinterfaces⟩ := hclass hc'
    rw [hinterfaces] at hname
    rw [hsame.find?_eq]
    exact h.interface_lt (hsame.live_eq ▸ hrow) hc hname
  · intro row c' hrow hc'
    obtain ⟨c, hc, -, hsuper, -⟩ := hclass hc'
    rw [hsuper, hsame.live_eq]
    exact h.root_iff (hsame.live_eq ▸ hrow) hc

theorem createClass (h : r.Hierarchy) (hr : r.WellFormed) {spec : ClassSpec} {r' : Registry}
    {row : Nat} (hop : Registry.createClass spec r = .ok row r') : r'.Hierarchy := by
  obtain ⟨-, hnew, hroot, hsuper, hinterfaces, rfl, hsame, -⟩ := createClass_ok hop
  refine sameButChildren ?_ hsame
  have hfind : ∀ {name p}, r.find? name = some p →
      ((r.store (spec.toClass r.live.length)).enlist r.rows.size spec.name).find? name =
        some p := by
    intro name p hp
    have hne : name ≠ spec.name := by
      rintro rfl
      rw [hnew] at hp
      cases hp
    rw [find?_enlist, if_neg hne]
    exact hp
  -- A supertype of the new class is registered, so it stands before the new row.
  have hbefore : ∀ {name}, (∃ p, r.find? name = some p) → ∃ p,
      ((r.store (spec.toClass r.live.length)).enlist r.rows.size spec.name).find? name = some p ∧
        p < r.rows.size := by
    rintro name ⟨p, hp⟩
    exact ⟨p, hfind hp, hr.live_lt (hr.find_live hp)⟩
  constructor
  · intro p c hp hc
    rcases classAt?_enlisted hp hc with ⟨hp, hc⟩ | ⟨rfl, rfl⟩
    · exact hfind (h.find_self hp hc)
    · rw [find?_enlist]
      exact if_pos rfl
  · intro p c hp hc hne
    rcases classAt?_enlisted hp hc with ⟨hp, hc⟩ | ⟨rfl, rfl⟩
    · obtain ⟨q, hq, hlt⟩ := h.super_lt hp hc hne
      exact ⟨q, hfind hq, hlt⟩
    · exact hbefore (hsuper hne)
  · intro p c name hp hc hname
    rcases classAt?_enlisted hp hc with ⟨hp, hc⟩ | ⟨rfl, rfl⟩
    · obtain ⟨q, hq, hlt⟩ := h.interface_lt hp hc hname
      exact ⟨q, hfind hq, hlt⟩
    · exact hbefore (hinterfaces name hname)
  · intro p c hp hc
    show _ ↔ (r.live ++ [r.rows.size]).head? = some p
    rcases classAt?_enlisted hp hc with ⟨hp, hc⟩ | ⟨rfl, rfl⟩
    · obtain ⟨q, rest, hlive⟩ := List.exists_cons_of_ne_nil (List.ne_nil_of_mem hp)
      have := h.root_iff hp hc
      simpa [hlive] using this
    · rw [show (spec.toClass r.live.length).super = spec.super from rfl, hroot]
      constructor
      · intro hlive
        simp [hlive]
      · intro hhead
        by_contra hlive
        obtain ⟨q, rest, heq⟩ := List.exists_cons_of_ne_nil hlive
        have hlt : q < r.rows.size := hr.live_lt (by simp [heq])
        simp [heq] at hhead
        omega

end Hierarchy

/-! ### What a lookup finds -/

theorem mem_chainFrom {r : Registry} {fuel row p : Nat} {c : Class}
    (h : (p, c) ∈ r.chainFrom fuel row) :
    r.classAt? p = some c ∧ (p = row ∨ ∃ name, r.find? name = some p) := by
  induction fuel generalizing row with
  | zero => simp [chainFrom] at h
  | succ fuel ih =>
      cases hc : r.classAt? row with
      | none => simp [chainFrom, hc] at h
      | some first =>
          cases hsuper : r.superOf? first with
          | none =>
              simp only [chainFrom, hc, hsuper, List.mem_singleton, Prod.mk.injEq] at h
              obtain ⟨rfl, rfl⟩ := h
              exact ⟨hc, Or.inl rfl⟩
          | some parent =>
              simp only [chainFrom, hc, hsuper, List.mem_cons, Prod.mk.injEq] at h
              rcases h with ⟨rfl, rfl⟩ | h
              · exact ⟨hc, Or.inl rfl⟩
              · have hparent : r.find? first.super = some parent := by
                  unfold superOf? at hsuper
                  split at hsuper
                  · cases hsuper
                  · exact hsuper
                obtain ⟨hp, rfl | hname⟩ := ih h
                · exact ⟨hp, Or.inr ⟨first.super, hparent⟩⟩
                · exact ⟨hp, Or.inr hname⟩

theorem searchInterfaces_ok {r : Registry} {m : Member} {fuel : Nat} {seen queue : List Text}
    {row : Nat} {d : Declaration} (h : r.searchInterfaces m fuel seen queue = .ok (row, d)) :
    ∃ name c, r.find? name = some row ∧ r.classAt? row = some c ∧ c.declared? m.sig = some d := by
  fun_induction searchInterfaces r m fuel seen queue with
  | case1 => cases h
  | case2 => cases h
  | case3 fuel seen name queue hseen ih => exact ih h
  | case4 => cases h
  | case5 => cases h
  | case6 fuel seen name queue hseen p hp c hc d' hd =>
      cases h
      exact ⟨name, c, hp, hc, hd⟩
  | case7 fuel seen name queue hseen p hp c hc hd ih => exact ih h

/-- A lookup finds a declaration of the signature in the class of some registered name. -/
theorem findMember_ok {r : Registry} {m : Member} {row : Nat} {d : Declaration}
    (h : r.findMember m = .ok (row, d)) :
    ∃ name c, r.find? name = some row ∧ r.classAt? row = some c ∧ c.declared? m.sig = some d := by
  unfold findMember at h
  split at h
  · cases h
  · rename_i start hstart
    dsimp only at h
    split at h
    · rename_i found hfound
      cases h
      obtain ⟨⟨p, c⟩, hmem, hsome⟩ := List.exists_of_findSome?_eq_some hfound
      obtain ⟨d', hd, heq⟩ := Option.map_eq_some_iff.mp hsome
      cases heq
      obtain ⟨hc, rfl | ⟨name, hname⟩⟩ := mem_chainFrom hmem
      · exact ⟨m.className, c, hstart, hc, hd⟩
      · exact ⟨name, c, hname, hc, hd⟩
    · exact searchInterfaces_ok h

theorem exists_find?_of_findMember {r : Registry} {m : Member} {found : Nat × Declaration}
    (h : r.findMember m = .ok found) : ∃ start, r.find? m.className = some start := by
  cases hstart : r.find? m.className with
  | none => simp [findMember, hstart] at h
  | some start => exact ⟨start, rfl⟩

/-- A lookup in a class that declares the signature itself finds its declaration. -/
theorem findMember_of_declared {r : Registry} {m : Member} {row : Nat} {c : Class}
    {d : Declaration} (hrow : r.find? m.className = some row) (hc : r.classAt? row = some c)
    (hd : c.declared? m.sig = some d) : r.findMember m = .ok (row, d) := by
  obtain ⟨fuel, hfuel⟩ : ∃ fuel, r.rows.size = fuel + 1 :=
    Nat.exists_eq_add_one.mpr (Nat.zero_lt_of_lt (classAt?_lt hc))
  have hhead : ∃ rest, r.chain row = (row, c) :: rest := by
    unfold chain
    rw [hfuel, chainFrom, hc]
    dsimp only
    split
    · exact ⟨[], rfl⟩
    · exact ⟨_, rfl⟩
  obtain ⟨rest, hrest⟩ := hhead
  simp [findMember, hrow, hrest, hd]

/-! ### Lookups in a registry with more in it -/

/-- `r'` has the names and the classes of `r` as far as lookups of `sig` are concerned, except that
the classes in the `added` rows may declare it only in `r'`. -/
structure Aligned (sig : Signature) (added : Nat → Prop) (r r' : Registry) : Prop where
  find : ∀ {name row}, r.find? name = some row → r'.find? name = some row
  classes : ∀ {row c}, r.classAt? row = some c →
    ∃ c', r'.classAt? row = some c' ∧ Class.Matches sig (added row) c c'

/-- The entries of two chains that stand for one row. -/
def Linked (sig : Signature) (added : Nat → Prop) (p q : Nat × Class) : Prop :=
  p.1 = q.1 ∧ Class.Matches sig (added p.1) p.2 q.2

namespace Aligned

variable {sig : Signature} {added : Nat → Prop} {r r' : Registry}

theorem superOf? (h : Aligned sig added r r') {c c' : Class} (hsuper : c'.super = c.super)
    (hreg : c.super ≠ [] → ∃ p, r.find? c.super = some p) : r'.superOf? c' = r.superOf? c := by
  unfold Registry.superOf?
  rw [hsuper]
  split
  · rfl
  · rename_i hne
    obtain ⟨p, hp⟩ := hreg hne
    rw [hp, h.find hp]

/-- Superclasses come before their subclasses, so neither of two chains runs out of fuel. -/
theorem chainFrom (h : Aligned sig added r r') (hr : r.WellFormed) (hh : r.Hierarchy)
    {row fuel fuel' : Nat} (hrow : row ∈ r.live) (hfuel : row < fuel) (hfuel' : row < fuel') :
    List.Forall₂ (Linked sig added) (r.chainFrom fuel row) (r'.chainFrom fuel' row) := by
  induction row using Nat.strongRecOn generalizing fuel fuel' with
  | ind row ih =>
      obtain ⟨n, rfl⟩ := Nat.exists_eq_add_one.mpr (Nat.zero_lt_of_lt hfuel)
      obtain ⟨n', rfl⟩ := Nat.exists_eq_add_one.mpr (Nat.zero_lt_of_lt hfuel')
      obtain ⟨c, hc⟩ := hr.exists_class hrow
      obtain ⟨c', hc', hmatch⟩ := h.classes hc
      have hsuper : r'.superOf? c' = r.superOf? c := by
        apply h.superOf? hmatch.super_eq
        intro hne
        obtain ⟨p, hp, -⟩ := hh.super_lt hrow hc hne
        exact ⟨p, hp⟩
      rw [Registry.chainFrom, Registry.chainFrom, hc, hc']
      dsimp only
      rw [hsuper]
      cases hparent : r.superOf? c with
      | none => exact .cons ⟨rfl, hmatch⟩ .nil
      | some parent =>
          have hfind : c.super ≠ [] ∧ r.find? c.super = some parent := by
            unfold Registry.superOf? at hparent
            split at hparent
            · cases hparent
            · rename_i hne
              exact ⟨hne, hparent⟩
          obtain ⟨p, hp, hlt⟩ := hh.super_lt hrow hc hfind.1
          cases hfind.2.symm.trans hp
          refine .cons ⟨rfl, hmatch⟩ ?_
          exact ih parent hlt (hr.find_live hp) (by omega) (by omega)

/-- With the same names and the same fuel two chains match step by step. -/
theorem chainFrom_of_find_eq (h : Aligned sig added r r')
    (hfind : ∀ name, r'.find? name = r.find? name)
    (hnone : ∀ {row}, r.classAt? row = none → r'.classAt? row = none) (fuel row : Nat) :
    List.Forall₂ (Linked sig added) (r.chainFrom fuel row) (r'.chainFrom fuel row) := by
  induction fuel generalizing row with
  | zero => exact .nil
  | succ fuel ih =>
      rw [Registry.chainFrom, Registry.chainFrom]
      cases hc : r.classAt? row with
      | none =>
          rw [hnone hc]
          exact .nil
      | some c =>
          obtain ⟨c', hc', hmatch⟩ := h.classes hc
          have hsuper : r'.superOf? c' = r.superOf? c := by
            unfold Registry.superOf?
            rw [hmatch.super_eq, hfind]
          rw [hc']
          dsimp only
          rw [hsuper]
          cases r.superOf? c with
          | none => exact .cons ⟨rfl, hmatch⟩ .nil
          | some parent => exact .cons ⟨rfl, hmatch⟩ (ih parent)

theorem interfaceCount_le (h : Aligned sig added r r') : r.interfaceCount ≤ r'.interfaceCount := by
  apply total_map_le
  intro i c hc _
  rw [Array.getElem?_toList] at hc
  obtain ⟨c', hc', hmatch⟩ := h.classes (show r.classAt? i = some c from hc)
  refine ⟨c', ?_, Nat.le_of_eq (by rw [hmatch.interfaces_eq])⟩
  rw [Array.getElem?_toList]
  exact hc'

theorem searchInterfaces {m : Member} (h : Aligned m.sig added r r') {fuel fuel' : Nat}
    {seen queue : List Text} {row : Nat} {d : Declaration} (hfuel : fuel ≤ fuel')
    (hok : r.searchInterfaces m fuel seen queue = .ok (row, d)) :
    ∃ row' d', r'.searchInterfaces m fuel' seen queue = .ok (row', d') ∧
      (row' = row ∨ added row') := by
  fun_induction Registry.searchInterfaces r m fuel seen queue generalizing fuel' with
  | case1 => cases hok
  | case2 => cases hok
  | case3 fuel seen name queue hseen ih =>
      obtain ⟨n, rfl⟩ := Nat.exists_eq_add_one.mpr (Nat.zero_lt_of_lt hfuel)
      rw [Registry.searchInterfaces, if_pos hseen]
      exact ih (by omega) hok
  | case4 => cases hok
  | case5 => cases hok
  | case6 fuel seen name queue hseen p hp c hc d' hd =>
      cases hok
      obtain ⟨n, rfl⟩ := Nat.exists_eq_add_one.mpr (Nat.zero_lt_of_lt hfuel)
      obtain ⟨c', hc', hmatch⟩ := h.classes hc
      obtain ⟨d'', hd''⟩ := hmatch.exists_declared? hd
      refine ⟨row, d'', ?_, Or.inl rfl⟩
      rw [Registry.searchInterfaces, if_neg hseen, h.find hp]
      simp only [hc', hd'']
  | case7 fuel seen name queue hseen p hp c hc hd ih =>
      obtain ⟨n, rfl⟩ := Nat.exists_eq_add_one.mpr (Nat.zero_lt_of_lt hfuel)
      obtain ⟨c', hc', hmatch⟩ := h.classes hc
      rw [Registry.searchInterfaces, if_neg hseen, h.find hp]
      simp only [hc']
      cases hd' : c'.declared? m.sig with
      | none =>
          rw [hmatch.interfaces_eq]
          exact ih (by omega) hok
      | some d'' => exact ⟨p, d'', rfl, Or.inr (hmatch.added_of_declared? hd' hd)⟩

/-- The first class of a chain that declares the signature is found in a matching chain, unless an
added declaration comes before it. -/
theorem findSome?_chain {chain chain' : List (Nat × Class)}
    (h : List.Forall₂ (Linked sig added) chain chain') :
    match chain.findSome? fun (row, c) => (c.declared? sig).map (row, ·) with
    | some (row, _) => ∃ row' d',
        (chain'.findSome? fun (row, c) => (c.declared? sig).map (row, ·)) = some (row', d') ∧
          (row' = row ∨ added row')
    | none => (chain'.findSome? fun (row, c) => (c.declared? sig).map (row, ·)) = none ∨
        ∃ row' d', (chain'.findSome? fun (row, c) => (c.declared? sig).map (row, ·)) =
          some (row', d') ∧ added row' := by
  induction h with
  | nil => exact Or.inl rfl
  | @cons p q ps qs hpq _ ih =>
      obtain ⟨row, c⟩ := p
      obtain ⟨row', c'⟩ := q
      obtain ⟨rfl, hmatch⟩ : row = row' ∧ Class.Matches sig (added row) c c' := hpq
      simp only [List.findSome?_cons]
      cases hd : c.declared? sig with
      | some d =>
          obtain ⟨d', hd'⟩ := hmatch.exists_declared? hd
          simp only [hd', Option.map_some]
          exact ⟨row, d', rfl, Or.inl rfl⟩
      | none =>
          cases hd' : c'.declared? sig with
          | none => simpa only [Option.map_none] using ih
          | some d' =>
              have hadded : added row := hmatch.added_of_declared? hd' hd
              simp only [Option.map_none, Option.map_some]
              split
              · exact ⟨row, d', rfl, Or.inr hadded⟩
              · exact Or.inr ⟨row, d', rfl, hadded⟩

theorem flatMap_interfaces {chain chain' : List (Nat × Class)}
    (h : List.Forall₂ (Linked sig added) chain chain') :
    (chain'.flatMap fun (_, c) => c.interfaces) = chain.flatMap fun (_, c) => c.interfaces := by
  induction h with
  | nil => rfl
  | cons hpq _ ih =>
      rw [List.flatMap_cons, List.flatMap_cons, ih]
      exact congrArg (· ++ _) hpq.2.interfaces_eq

/-- A lookup that succeeds finds the same row in an aligned registry whose chains match, or a row
where the signature was added. -/
theorem findMember_of_chain {m : Member} (h : Aligned m.sig added r r') {row : Nat}
    {d : Declaration} (hchain : ∀ {start}, r.find? m.className = some start →
      List.Forall₂ (Linked m.sig added) (r.chain start) (r'.chain start))
    (hok : r.findMember m = .ok (row, d)) :
    ∃ row' d', r'.findMember m = .ok (row', d') ∧ (row' = row ∨ added row') := by
  unfold findMember at hok ⊢
  cases hstart : r.find? m.className with
  | none => simp [hstart] at hok
  | some start =>
      have hlinked := hchain hstart
      have hfound := findSome?_chain hlinked
      simp only [hstart, h.find hstart] at hok ⊢
      rw [flatMap_interfaces hlinked]
      split at hok
      · rename_i found hsome
        cases hok
        rw [hsome] at hfound
        obtain ⟨row', d', hsome', hrow⟩ := hfound
        exact ⟨row', d', by rw [hsome'], hrow⟩
      · rename_i hnone
        rw [hnone] at hfound
        rcases hfound with hnone' | ⟨row', d', hsome', hadded⟩
        · rw [hnone']
          have hcount := h.interfaceCount_le
          refine h.searchInterfaces ?_ hok
          exact Nat.add_le_add_right (Nat.add_le_add_left hcount _) 1
        · exact ⟨row', d', by rw [hsome'], Or.inr hadded⟩

/-- A lookup in a registry whose supertypes are all registered finds the same row in every registry
with more in it. -/
theorem findMember {m : Member} (h : Aligned m.sig added r r') (hr : r.WellFormed)
    (hh : r.Hierarchy) {row : Nat} {d : Declaration} (hok : r.findMember m = .ok (row, d)) :
    ∃ row' d', r'.findMember m = .ok (row', d') ∧ (row' = row ∨ added row') := by
  refine h.findMember_of_chain ?_ hok
  intro start hstart
  have hlive := hr.find_live hstart
  obtain ⟨c, hc⟩ := hr.exists_class hlive
  obtain ⟨c', hc', -⟩ := h.classes hc
  exact h.chainFrom hr hh hlive (classAt?_lt hc) (classAt?_lt hc')

end Aligned

end Registry

end ClassLinker
