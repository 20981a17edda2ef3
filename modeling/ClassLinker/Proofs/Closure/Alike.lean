import ClassLinker.Proofs.Closure.Dispatch
import ClassLinker.Proofs.Closure.Replay

/-! Links of one source are alike. Their rows may differ, but classes of one name have the same
supertypes, declare the same members and have the same pools, whatever is kept of them. So chains
run through the same names, and a lookup that succeeds in one registry finds the class of the same
name in every other one that knows where to start. -/

namespace ClassLinker

open Closure

/-! ### Classes and their members -/

/-- `m'` is the declared method `m`, whatever is kept and wherever its dependencies are stored. -/
def Method.Alike (m m' : Method) : Prop :=
  m' = { m with
    kept := m'.kept, classDeps := m'.classDeps, memberDeps := m'.memberDeps
    literalDeps := m'.literalDeps, arrayDeps := m'.arrayDeps, builtins := m'.builtins }

/-- `f'` is the declared field `f`, kept or not. -/
def Field.Alike (f f' : Field) : Prop := f' = { f with kept := f'.kept }

/-- Two declarations of one member. -/
abbrev Declaration.Alike : Declaration → Declaration → Prop :=
  Declaration.Rel Method.Alike Field.Alike

theorem Method.Alike.sig_eq {m m' : Method} (h : m.Alike m') : m'.sig = m.sig := by rw [h]

theorem Method.Alike.isStatic_eq {m m' : Method} (h : m.Alike m') : m'.isStatic = m.isStatic := by
  rw [h]

theorem Method.Alike.kind_eq {m m' : Method} (h : m.Alike m') : m'.kind = m.kind := by rw [h]

theorem Field.Alike.sig_eq {f f' : Field} (h : f.Alike f') : f'.sig = f.sig := by rw [h]

/-- Two classes of one name: the same supertypes, members and pools. -/
structure Class.Alike (c c' : Class) : Prop where
  super_eq : c'.super = c.super
  interfaces_eq : c'.interfaces = c.interfaces
  methods : List.Forall₂ Method.Alike c.methods c'.methods
  fields : List.Forall₂ Field.Alike c.fields c'.fields
  known : ∀ {slot pos ref}, c.known? slot = some (pos, ref) →
    ∃ ref', c'.known? slot = some (pos, ref') ∧ ref'.slot = ref.slot ∧ ref'.body = ref.body

theorem Class.Alike.declared? {c c' : Class} (h : c.Alike c') (sig : Signature) :
    Option.Rel Declaration.Alike (c.declared? sig) (c'.declared? sig) :=
  declared?_rel Method.Alike.sig_eq Field.Alike.sig_eq h.methods h.fields sig

theorem Class.Alike.find? {c c' : Class} (h : c.Alike c') (sig : Signature) :
    Option.Rel Method.Alike (c.methods.find? fun m => m.sig = sig)
      (c'.methods.find? fun m => m.sig = sig) :=
  find?_of_forall₂ (fun hm => by rw [hm.sig_eq]) h.methods

namespace Registry

/-- Two registries whose classes of one name are alike. -/
structure Alike (r r' : Registry) : Prop where
  tidy : r.Tidy
  tidy' : r'.Tidy
  classes : ∀ {name p q c c'}, r.find? name = some p → r.classAt? p = some c →
    r'.find? name = some q → r'.classAt? q = some c' → c.Alike c'

/-- Two rows of one name. -/
def SameName (r r' : Registry) (p q : Nat) : Prop :=
  ∃ name, r.find? name = some p ∧ r'.find? name = some q

/-- Classes of one name in their rows. -/
def Counterparts (r r' : Registry) (x y : Nat × Class) : Prop :=
  SameName r r' x.1 y.1 ∧ r.classAt? x.1 = some x.2 ∧ r'.classAt? y.1 = some y.2 ∧ x.2.Alike y.2

theorem SameName.name_eq {r r' : Registry} {p q : Nat} {c c' : Class} (h : SameName r r' p q)
    (hr : r.Tidy) (hr' : r'.Tidy) (hc : r.classAt? p = some c) (hc' : r'.classAt? q = some c') :
    c'.name = c.name := by
  obtain ⟨name, hp, hq⟩ := h
  exact (hr'.wellFormed.find_name hq hc').trans (hr.wellFormed.find_name hp hc).symm

namespace Alike

variable {r r' : Registry}

/-! ### Lookups -/

/-- The superclass chains of two classes of one name go through the same names. -/
theorem chain (h : Alike r r') {name : Text} {p q : Nat} (hp : r.find? name = some p)
    (hq : r'.find? name = some q) :
    List.Forall₂ (Counterparts r r') (r.chain p) (r'.chain q) := by
  induction p using Nat.strongRecOn generalizing name q with
  | _ p ih =>
      obtain ⟨c, hc, -⟩ := h.tidy.exists_class hp
      obtain ⟨c', hc', -⟩ := h.tidy'.exists_class hq
      have halike := h.classes hp hc hq hc'
      have hhead : Counterparts r r' (p, c) (q, c') := ⟨⟨name, hp, hq⟩, hc, hc', halike⟩
      rw [h.tidy.chain_eq hc, h.tidy'.chain_eq hc', superOf?, superOf?, halike.super_eq]
      by_cases hroot : c.super = []
      · rw [if_pos hroot, if_pos hroot]
        exact .cons hhead .nil
      · obtain ⟨p₁, hp₁, hlt⟩ := h.tidy.hierarchy.super_lt (h.tidy.live_of_class hc) hc hroot
        obtain ⟨q₁, hq₁, -⟩ := h.tidy'.hierarchy.super_lt (h.tidy'.live_of_class hc') hc'
          (by rw [halike.super_eq]; exact hroot)
        rw [halike.super_eq] at hq₁
        rw [if_neg hroot, if_neg hroot, hp₁, hq₁]
        exact .cons hhead (ih p₁ hlt hp₁ hq₁)

/-- What two lookups of one member find. -/
def Found (r r' : Registry) (x y : Nat × Declaration) : Prop :=
  SameName r r' x.1 y.1 ∧ x.2.Alike y.2

theorem findSome?_chain (sig : Signature) {xs ys : List (Nat × Class)}
    (h : List.Forall₂ (Counterparts r r') xs ys) :
    Option.Rel (Found r r') (xs.findSome? fun (row, c) => (c.declared? sig).map (row, ·))
      (ys.findSome? fun (row, c) => (c.declared? sig).map (row, ·)) := by
  induction h with
  | nil => exact .none
  | @cons x y xs ys hxy _ ih =>
      obtain ⟨p, c⟩ := x
      obtain ⟨q, c'⟩ := y
      obtain ⟨hname, -, -, halike⟩ := hxy
      have hrel := halike.declared? sig
      simp only [List.findSome?_cons]
      cases hd : c.declared? sig with
      | none =>
          rw [hd] at hrel
          rw [rel_none hrel]
          exact ih
      | some d =>
          rw [hd] at hrel
          obtain ⟨d', hd', hdalike⟩ := rel_some hrel
          rw [hd']
          exact .some ⟨hname, hdalike⟩

/-- A search through the interfaces that succeeds in one registry succeeds in the other one. What
is left of the queue and what is unseen pay for every step, so it never runs out of fuel. -/
theorem searchInterfaces (h : Alike r r') {m : Member} {fuel fuel' : Nat}
    {seen queue : List Text} {found : Nat × Declaration}
    (hqueue : ∀ name ∈ queue, ∃ q, r'.find? name = some q)
    (hfuel : queue.length + r'.unseen seen < fuel')
    (hok : r.searchInterfaces m fuel seen queue = .ok found) :
    ∃ found', r'.searchInterfaces m fuel' seen queue = .ok found' ∧ Found r r' found found' := by
  induction fuel generalizing fuel' seen queue with
  | zero => simp [Registry.searchInterfaces] at hok
  | succ fuel ih =>
      cases queue with
      | nil => simp [Registry.searchInterfaces] at hok
      | cons name queue =>
          cases fuel' with
          | zero => omega
          | succ fuel' =>
              rw [List.length_cons] at hfuel
              have hrest : ∀ name ∈ queue, ∃ q, r'.find? name = some q := fun n hn =>
                hqueue n (List.mem_cons_of_mem _ hn)
              rw [Registry.searchInterfaces] at hok ⊢
              by_cases hseen : seen.contains name = true
              · rw [if_pos hseen] at hok ⊢
                exact ih hrest (by omega) hok
              · rw [if_neg hseen] at hok ⊢
                cases hp : r.find? name with
                | none => simp [hp] at hok
                | some p =>
                    obtain ⟨q, hq⟩ := hqueue name List.mem_cons_self
                    obtain ⟨c, hc, -⟩ := h.tidy.exists_class hp
                    obtain ⟨c', hc', hname⟩ := h.tidy'.exists_class hq
                    have halike := h.classes hp hc hq hc'
                    have hrel := halike.declared? m.sig
                    simp only [hp, hc] at hok
                    simp only [hq, hc']
                    cases hd : c.declared? m.sig with
                    | some d =>
                        simp only [hd, Except.ok.injEq] at hok
                        rw [hd] at hrel
                        obtain ⟨d', hd', hdalike⟩ := rel_some hrel
                        subst hok
                        simp only [hd']
                        exact ⟨(q, d'), rfl, ⟨name, hp, hq⟩, hdalike⟩
                    | none =>
                        rw [hd] at hrel
                        simp only [hd] at hok
                        simp only [rel_none hrel]
                        have hpaid := unseen_cons hc' seen (by simpa [hname] using hseen)
                        rw [hname] at hpaid
                        rw [halike.interfaces_eq] at hpaid ⊢
                        refine ih (fun n hn => ?_) ?_ hok
                        · rcases List.mem_append.mp hn with hn | hn
                          · exact hrest n hn
                          · rw [← halike.interfaces_eq] at hn
                            obtain ⟨q₁, hq₁, -⟩ := h.tidy'.hierarchy.interface_lt
                              (h.tidy'.live_of_class hc') hc' hn
                            exact ⟨q₁, hq₁⟩
                        · rw [List.length_append]
                          omega

/-- A lookup that succeeds in one registry succeeds in the other one, if the class to start from is
registered there, and finds a declaration of the same member in the class of the same name. -/
theorem findMember (h : Alike r r') {m : Member} {found : Nat × Declaration}
    (hok : r.findMember m = .ok found) {q : Nat} (hq : r'.find? m.className = some q) :
    ∃ found', r'.findMember m = .ok found' ∧ Found r r' found found' := by
  obtain ⟨p, hp⟩ := exists_find?_of_findMember hok
  have hchain := h.chain hp hq
  have hrel := findSome?_chain m.sig hchain
  rw [Registry.findMember, hp] at hok
  rw [Registry.findMember, hq]
  dsimp only at hok ⊢
  cases hsome : (r.chain p).findSome? fun (row, c) => (c.declared? m.sig).map (row, ·) with
  | some x =>
      rw [hsome] at hrel hok
      obtain ⟨y, hy, hxy⟩ := rel_some hrel
      rw [hy]
      cases hok
      exact ⟨y, rfl, hxy⟩
  | none =>
      rw [hsome] at hrel hok
      rw [rel_none hrel]
      have hsame : ((r'.chain q).flatMap fun (_, c) => c.interfaces) =
          (r.chain p).flatMap fun (_, c) => c.interfaces := by
        rw [List.flatMap_def, List.flatMap_def]
        congr 1
        exact map_eq_of_forall₂ (fun hxy => hxy.2.2.2.interfaces_eq) hchain
      rw [hsame]
      refine h.searchInterfaces ?_ ?_ hok
      · intro name hname
        rw [← hsame] at hname
        obtain ⟨y, hy, hname⟩ := List.mem_flatMap.mp hname
        obtain ⟨x, -, -, -, hc', -⟩ := forall₂_mem_right hchain hy
        obtain ⟨q₁, hq₁, -⟩ := h.tidy'.hierarchy.interface_lt (h.tidy'.live_of_class hc') hc' hname
        exact ⟨q₁, hq₁⟩
      · rw [unseen_nil]
        omega

/-- The reference known at a slot of a class of one name. -/
theorem reference? (h : Alike r r') {owner : Text} {slot : Int} {ref : Reference}
    (href : r.reference? owner slot = some ref) {q : Nat} (hq : r'.find? owner = some q) :
    ∃ ref', r'.reference? owner slot = some ref' ∧ ref'.slot = ref.slot ∧ ref'.body = ref.body := by
  obtain ⟨p, c, pos, hp, hc, hknown⟩ := reference?_eq_some.mp href
  obtain ⟨c', hc', -⟩ := h.tidy'.exists_class hq
  obtain ⟨ref', hknown', hslot, hbody⟩ := (h.classes hp hc hq hc').known hknown
  exact ⟨ref', reference?_eq_some.mpr ⟨q, c', pos, hq, hc', hknown'⟩, hslot, hbody⟩

end Alike

end Registry

/-! ### Links of one source -/

section

open Registry

variable {s : Source} {l l' : Linker}

/-- Classes that were registered from one declaration are alike. -/
theorem Class.Describes.alike {root : Text} {d : ClassDecl} {row row' : Nat}
    {arrays arrays' : Text → Option RefAddr} {c c' : Class} (h : c.Describes root d row arrays)
    (h' : c'.Describes root d row' arrays') : c.Alike c' where
  super_eq := h'.super_eq.trans h.super_eq.symm
  interfaces_eq := h'.interfaces_eq.trans h.interfaces_eq.symm
  methods := by
    refine forall₂_trans (fun m decl m' hm hm' => ?_) h.methods.flip h'.methods
    rw [Method.Alike, hm'.frame]
    have hframe := hm.frame
    rw [hframe]
  fields := by
    refine forall₂_trans (fun f decl f' hf hf' => ?_) h.fields.flip h'.fields
    rw [Field.Alike, hf', hf]
  known hknown :=
    known?_of_poolShape (poolShape_of_registers h.registers h'.registers) hknown

/-- Array classes of one name are alike. -/
theorem Class.IsArray.alike {root : Text} {r r' : Registry} {row row' : Nat} {c c' : Class}
    (h : c.IsArray root r row) (h' : c'.IsArray root r' row') : c.Alike c' where
  super_eq := h'.super_eq.trans h.super_eq.symm
  interfaces_eq := h'.interfaces_eq.trans h.interfaces_eq.symm
  methods := by
    rw [h.methods_eq, h'.methods_eq]
    exact .nil
  fields := by
    rw [h.fields_eq, h'.fields_eq]
    exact .nil
  known {slot pos ref} hknown := by
    obtain ⟨-, href⟩ := Class.known?_eq_some.mp hknown
    simp [h.pool_eq] at href

/-- Two links of one source, which serves no array classes. -/
theorem Linker.Wired.alike (h : l.Wired s) (h' : l'.Wired s) (hnames : s.NoArrays)
    (hroot : l'.root = l.root) : l.registry.Alike l'.registry := by
  refine ⟨h.tidy, h'.tidy, fun {name p q c c'} hp hc hq hc' => ?_⟩
  have hname : c.name = name := h.tidy.wellFormed.find_name hp hc
  have hname' : c'.name = name := h'.tidy.wellFormed.find_name hq hc'
  rcases h.origin hc with ⟨d, hload, hdesc⟩ | harray
  · obtain ⟨c₁, hc₁, -, hdesc'⟩ := exists_described h' hnames (hname ▸ hload) hq
    cases hc'.symm.trans hc₁
    exact hdesc.alike (hroot ▸ hdesc')
  · have hbracket : c'.name.head? = some (Text.byte '[') := by
      rw [hname', ← hname]
      exact harray.bracket
    rcases h'.origin hc' with ⟨d, hload, -⟩ | harray'
    · exact absurd hbracket (hnames hload)
    · exact harray.alike (hroot ▸ harray')

end

end ClassLinker
