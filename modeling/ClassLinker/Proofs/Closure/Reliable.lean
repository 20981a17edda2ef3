import ClassLinker.Proofs.Closure.Requirable

/-! Steps that can be relied on. A link that stays inside a finished one goes through the same calls
and requires the same overrides, in whatever order: what it is asked for is there, and what the
finished link has kept says which overrides there are. In a source whose classes extend no arrays
every such call succeeds. -/

namespace ClassLinker.Closure

open LinkM RegistryM Step Registry Linker

/-- From the states in `P` a step ends in `Q`, if it ends; and in a source whose classes extend no
arrays it does. -/
structure Reliable {α : Type} (s : Source) (P : Linker → Prop) (x : LinkM α)
    (Q : α → Linker → Prop) : Prop where
  ends : ∀ {l a l'}, P l → x l = .ok a l' → Q a l'
  succeeds : s.PlainSupertypes → ∀ {l}, P l → ∃ a l', x l = .ok a l'

namespace Reliable

variable {α β : Type} {s : Source} {P : Linker → Prop} {Q : α → Linker → Prop}
  {R : β → Linker → Prop} {x : LinkM α}

theorem bind {f : α → LinkM β} (hx : Reliable s P x Q) (hf : ∀ a, Reliable s (Q a) (f a) R) :
    Reliable s P (x >>= f) R := by
  constructor
  · intro l b l' hl hok
    obtain ⟨a, u, ha, hb⟩ := bind_ok.mp hok
    exact (hf a).ends (hx.ends hl ha) hb
  · intro hplain l hl
    obtain ⟨a, u, ha⟩ := hx.succeeds hplain hl
    obtain ⟨b, l', hb⟩ := (hf a).succeeds hplain (hx.ends hl ha)
    exact ⟨b, l', bind_ok.mpr ⟨a, u, ha, hb⟩⟩

theorem pure {a : α} (h : ∀ l, P l → Q a l) : Reliable s P (pure a) Q := by
  constructor
  · intro l b l' hl hok
    obtain ⟨rfl, rfl⟩ := pure_ok.mp hok
    exact h l hl
  · exact fun _ l _ => ⟨a, l, rfl⟩

/-- What is relied on may be shown for each state on its own. -/
theorem of_state (h : ∀ l, P l → Reliable s (· = l) x Q) : Reliable s P x Q :=
  ⟨fun hl hok => (h _ hl).ends rfl hok, fun hplain _ hl => (h _ hl).succeeds hplain rfl⟩

theorem imp {P' : Linker → Prop} {Q' : α → Linker → Prop} (h : Reliable s P x Q)
    (hP : ∀ l, P' l → P l) (hQ : ∀ a l, Q a l → Q' a l) : Reliable s P' x Q' :=
  ⟨fun hl hok => hQ _ _ (h.ends (hP _ hl) hok), fun hplain _ hl => h.succeeds hplain (hP _ hl)⟩

theorem read {l : Linker} {row : Nat} {c : Class} (hc : l.registry.classAt? row = some c) :
    Reliable s (· = l) (onRegistry (RegistryM.classAt row)) fun c' l' => c' = c ∧ l' = l := by
  constructor
  · rintro _ c' l' rfl hok
    obtain ⟨hc', rfl⟩ := readClass_ok.mp hok
    cases hc.symm.trans hc'
    exact ⟨rfl, rfl⟩
  · rintro - _ rfl
    exact ⟨c, _, readClass_ok.mpr ⟨hc, rfl⟩⟩

theorem get {l : Linker} : Reliable s (· = l) get fun u l' => u = l ∧ l' = l := by
  constructor
  · rintro _ u l' rfl hok
    obtain ⟨rfl, rfl⟩ := get_ok.mp hok
    exact ⟨rfl, rfl⟩
  · exact fun _ u _ => ⟨u, u, rfl⟩

theorem discard {Q : Linker → Prop} (h : Reliable s P x fun _ => Q) :
    Reliable s P (discard x) fun _ => Q := by
  constructor
  · intro l _ l' hl hok
    obtain ⟨a, ha⟩ := discard_ok.mp hok
    exact h.ends hl ha
  · intro hplain l hl
    obtain ⟨a, l', ha⟩ := h.succeeds hplain hl
    exact ⟨.unit, l', discard_ok.mpr ⟨a, ha⟩⟩

theorem mapError {f : Error → Error} (h : Reliable s P x Q) : Reliable s P (mapError f x) Q := by
  constructor
  · exact fun hl hok => h.ends hl (mapError_ok.mp hok)
  · intro hplain l hl
    obtain ⟨a, l', ha⟩ := h.succeeds hplain hl
    exact ⟨a, l', mapError_ok.mpr ha⟩

theorem forM {f : β → LinkM Unit} {xs : List β}
    (h : ∀ x ∈ xs, Reliable s P (f x) fun _ => P) : Reliable s P (xs.forM f) fun _ => P := by
  constructor
  · exact fun hl hok => forM_preserves (fun x hx _ _ hu hv => (h x hx).ends hu hv) hl hok
  · intro hplain l hl
    obtain ⟨l', hok, -⟩ := forM_succeeds (fun x hx u hu => by
      obtain ⟨_, v, hv⟩ := (h x hx).succeeds hplain hu
      exact ⟨v, hv, (h x hx).ends hu hv⟩) hl
    exact ⟨.unit, l', hok⟩

theorem foldlM {f : β → α → LinkM β} {xs : List α} {b : β} (h : ∀ x ∈ xs, ∀ b,
    Reliable s (R b) (f b x) R) : Reliable s (R b) (xs.foldlM f b) R := by
  induction xs generalizing b with
  | nil => exact .pure fun _ hl => hl
  | cons x xs ih =>
      rw [List.foldlM_cons]
      exact (h x List.mem_cons_self b).bind fun b =>
        ih fun y hy => h y (List.mem_cons_of_mem _ hy)

end Reliable

/-! ### Calls -/

/-- A finished link, overrides included. -/
structure Finished (s : Source) (F : Linker) : Prop where
  settled : Settled s F
  noArrays : s.NoArrays
  root_ne : F.root ≠ []
  overrides : OverridesKept F.registry

/-- A settled link inside a finished one. -/
structure Ready (s : Source) (F l : Linker) : Prop where
  settled : Settled s l
  inside : Inside s F l
  counted : l.Counted

variable {s : Source} {F l l' : Linker}

theorem Finished.guide (h : Finished s F) (hplain : s.PlainSupertypes) : Guide s F :=
  ⟨h.settled, h.noArrays, hplain, h.root_ne⟩

theorem ready_empty (s : Source) (F : Linker) : Ready s F { root := F.root } :=
  ⟨settled_empty s F.root, inside_empty s F, List.Pairwise.nil, rfl⟩

theorem Ready.answers {x : Item} (h : Ready s F l) (hF : Finished s F) (hstep : Answers s x l l')
    (hx : F.Holds x) : Ready s F l' :=
  ⟨hstep.settled, h.inside.answers hF.settled hF.noArrays hstep hx, hstep.counted h.counted⟩

theorem Finished.load {name : Text} (hF : Finished s F) (hname : F.Has name) (hl : Ready s F l) :
    Reliable s (· = l) (load s name) fun row l' => Ready s F l' ∧ Continues s l l' ∧
      l'.registry.find? name = some row := by
  constructor
  · rintro _ row l' rfl hok
    obtain ⟨hanswers, hrow⟩ := load_answers hl.settled hok
    exact ⟨hl.answers hF hanswers hname, hanswers.continues, hrow⟩
  · rintro hplain _ rfl
    exact load_succeeds (hF.guide hplain) hl.settled hl.inside hl.counted hname

theorem Finished.require {m : Member} (hF : Finished s F) (hm : F.Holds (.lookup m))
    (hl : Ready s F l) : Reliable s (· = l) (require s m) fun _ l' => Ready s F l' ∧
      Continues s l l' ∧ l'.Met [] m := by
  constructor
  · rintro _ _ l' rfl hok
    obtain ⟨hanswers, hmet⟩ := require_answers hl.settled hok
    exact ⟨hl.answers hF hanswers hm, hanswers.continues, hmet⟩
  · rintro hplain _ rfl
    obtain ⟨l', hok⟩ := require_succeeds (hF.guide hplain) hl.settled hl.inside hl.counted hm
    exact ⟨(), l', hok⟩

/-! ### Overrides -/

section Overrides

variable {row q : Nat} {c c' : Class} {sig : Signature}

/-- What can be dispatched to in a link inside another one can be dispatched to there. -/
theorem Inside.dispatched (h : Inside s F l) (hc : l.registry.classAt? row = some c)
    (hq : F.registry.find? c.name = some q) (hc' : F.registry.classAt? q = some c')
    (halike : c.Alike c') {m : Method} (hm : (c.methods.find? fun m => m.sig = sig) = some m)
    (hd : isDispatched m = true) :
    ∃ m', (c'.methods.find? fun m => m.sig = sig) = some m' ∧ isDispatched m' = true := by
  have hrel := halike.find? sig
  rw [hm] at hrel
  obtain ⟨m', hm', hmalike⟩ := rel_some hrel
  obtain ⟨hkept, hstatic, hkind⟩ := isDispatched_iff.mp hd
  have hdeclared : c.declared? sig = some (.method m) := by rw [Class.declared?, hm]
  have hdeclared' : c'.declared? sig = some (.method m') := by rw [Class.declared?, hm']
  obtain ⟨p, hp, cp, d, hcp, hd', hkept'⟩ := h.keepsMember hc ⟨c, _, hc, hdeclared, hkept⟩
  cases hq.symm.trans hp
  cases hc'.symm.trans hcp
  cases hdeclared'.symm.trans hd'
  exact ⟨m', hm', isDispatched_iff.mpr ⟨hkept', hmalike.isStatic_eq.trans hstatic,
    hmalike.kind_eq ▸ hkind⟩⟩

theorem Inside.dispatches (h : Inside s F l) (hc : l.registry.classAt? row = some c)
    (hq : F.registry.find? c.name = some q) (hc' : F.registry.classAt? q = some c')
    (halike : c.Alike c') (hd : Dispatches c sig) : Dispatches c' sig := by
  obtain ⟨m, hm, rfl, hm'⟩ := hd
  have hfind := Class.find?_of_declared?
    (Class.declared?_method (h.wired.tidy.wellFormed.signatures_nodup hc) hm)
  obtain ⟨m', hfind', hd'⟩ := h.dispatched hc hq hc' halike hfind hm'
  exact ⟨m', List.mem_of_find?_eq_some hfind', by simpa using List.find?_some hfind', hd'⟩

/-- The nearest method stands at the same place of the chain there. -/
theorem Inside.nearest (h : Inside s F l) {xs ys : List (Nat × Class)}
    (hxs : List.Forall₂ (Counterparts l.registry F.registry) xs ys) {m : Method}
    (hm : nearest? xs sig = some m) (hd : isDispatched m = true) :
    ∃ m', nearest? ys sig = some m' ∧ isDispatched m' = true := by
  induction hxs with
  | nil => cases hm
  | @cons x y xs ys hxy _ ih =>
      obtain ⟨⟨name, hp, hq⟩, hx, hy, halike⟩ := hxy
      unfold nearest? at hm ih ⊢
      rw [List.findSome?_cons] at hm ⊢
      cases hfind : x.2.methods.find? fun m => m.sig = sig with
      | none =>
          have hrel := halike.find? sig
          rw [hfind] at hm hrel
          rw [rel_none hrel]
          exact ih hm
      | some mx =>
          rw [hfind] at hm
          cases hm
          have hname := h.wired.tidy.wellFormed.find_name hp hx
          obtain ⟨m', hfind', hd'⟩ := h.dispatched hx (hname ▸ hq) hy halike hfind hd
          rw [hfind']
          exact ⟨m', rfl, hd'⟩

/-- A class passes on what its counterpart in a link inside the other one passes on. -/
theorem Inside.passesOn (h : Inside s F l) (hF : Finished s F)
    (hc : l.registry.classAt? row = some c) (hq : F.registry.find? c.name = some q)
    (hc' : F.registry.classAt? q = some c') (hsig : sig ∈ keptSignatures l.registry row c) :
    sig ∈ keptSignatures F.registry q c' := by
  have halike := h.alike hF.settled hF.noArrays
  have hrow := h.wired.tidy.find_self hc
  have hclass := halike.classes hrow hc hq hc'
  rcases mem_keptSignatures.mp hsig with hown | ⟨name, hname, p, i, hp, hi, hown⟩ | ⟨hnew, m, hm, hd⟩
  · exact mem_keptSignatures.mpr (.inl (h.dispatches hc hq hc' hclass hown))
  · obtain ⟨p', hp'⟩ := h.holds_cls ⟨p, hp⟩
    obtain ⟨i', hi', -⟩ := hF.settled.wired.tidy.exists_class hp'
    have hiname := h.wired.tidy.wellFormed.find_name hp hi
    refine mem_keptSignatures.mpr (.inr (.inl ⟨name, hclass.interfaces_eq ▸ hname, p', i', hp', hi',
      ?_⟩))
    exact h.dispatches hi (hiname ▸ hp') hi' (halike.classes hp hi hp' hi') hown
  · refine mem_keptSignatures.mpr (.inr (.inr ⟨?_, ?_⟩))
    · rwa [map_eq_of_forall₂ (fun hm => hm.sig_eq) hclass.methods]
    · exact h.nearest (List.forall₂_drop 1 (halike.chain hrow hq)) hm hd

/-- The method of a named class that overrides a signature, if it has one, is kept in a link. -/
def OverrideHeld (F : Linker) (name : Text) (sig : Signature) : Prop :=
  ∀ {q}, F.registry.find? name = some q → OverrideKept F.registry q sig

/-- What a class passes on to a child is kept there. -/
theorem Inside.overrideHeld (h : Inside s F l) (hF : Finished s F) {sub : Nat} {cs : Class}
    (hc : l.registry.classAt? row = some c) (hcs : l.registry.classAt? sub = some cs)
    (hsuper : l.registry.Supertype cs row) (hsig : sig ∈ keptSignatures l.registry row c) :
    OverrideHeld F cs.name sig := by
  intro q hq m hm hkind
  have htidy := hF.settled.wired.tidy
  obtain ⟨cs', hcs', -⟩ := htidy.exists_class hq
  obtain ⟨p, hp⟩ := h.holds_cls ⟨row, h.wired.tidy.find_self hc⟩
  obtain ⟨c', hc', -⟩ := htidy.exists_class hp
  have hclass := (h.alike hF.settled hF.noArrays).classes (h.wired.tidy.find_self hcs) hcs hq hcs'
  have hsuper' : F.registry.Supertype cs' p := by
    rcases hsuper with hsuper | ⟨i, hi, hrow⟩
    · obtain ⟨hne, hrow⟩ := Option.ite_none_left_eq_some.mp hsuper
      refine .inl (Option.ite_none_left_eq_some.mpr ⟨hclass.super_eq ▸ hne, ?_⟩)
      rw [hclass.super_eq, ← h.wired.tidy.wellFormed.find_name hrow hc]
      exact hp
    · refine .inr ⟨i, hclass.interfaces_eq ▸ hi, ?_⟩
      rw [← h.wired.tidy.wellFormed.find_name hrow hc]
      exact hp
  exact hF.overrides.override hcs' hsuper' hc' (h.passesOn hF hc hp hc' hsig) hm hkind

/-- A link inside a finished one that has kept `n` more methods. -/
structure Progressed (s : Source) (F l : Linker) (n : Nat) (l' : Linker) : Prop where
  ready : Ready s F l'
  grows : l.registry.Grows l'.registry
  kept : l.registry.sumOf Class.keptCount + n ≤ l'.registry.sumOf Class.keptCount

theorem Progressed.refl (h : Ready s F l) : Progressed s F l 0 l := ⟨h, .refl _, Nat.le_refl _⟩

theorem Progressed.trans {l'' : Linker} {n n' : Nat} (h : Progressed s F l n l')
    (h' : Progressed s F l' n' l'') : Progressed s F l (n + n') l'' := by
  refine ⟨h'.ready, h.grows.trans h'.grows, ?_⟩
  have := h.kept
  have := h'.kept
  omega

/-- An override that is required is held, so its class declares it in the finished link too. -/
theorem Ready.holds_override (hl : Ready s F l) (hF : Finished s F)
    (hc : l.registry.classAt? row = some c) {m : Method}
    (hd : c.declared? sig = some (.method m)) (hkind : m.kind ≠ .constructor)
    (hheld : OverrideHeld F c.name sig) : F.Holds (.lookup (c.member sig)) := by
  have hrow := hl.inside.wired.tidy.find_self hc
  obtain ⟨q, hq⟩ := hl.inside.holds_cls ⟨row, hrow⟩
  obtain ⟨c', hc', -⟩ := hF.settled.wired.tidy.exists_class hq
  have hrel := ((hl.inside.alike hF.settled hF.noArrays).classes hrow hc hq hc').find? sig
  rw [Class.find?_of_declared? hd] at hrel
  obtain ⟨m', hm', halike⟩ := rel_some hrel
  have hmethod : F.registry.method? q sig = some m' := (method?_eq hc' sig).trans hm'
  have hkept : m'.kept = true := hheld hq m' hmethod (halike.kind_eq ▸ hkind)
  have hd' : c'.declared? sig = some (.method m') := by rw [Class.declared?, hm']
  exact holds_lookup.mpr ⟨q, _, findMember_of_declared hq hc' hd', c', _, hc', hd', hkept⟩

/-- What is met in a class that declares it is kept there. -/
theorem keepsMember_of_met {d : Declaration} (h : l'.Met [] (c.member sig))
    (hrow : l.registry.find? c.name = some row) (hc : l.registry.classAt? row = some c)
    (hd : c.declared? sig = some d) (hgrows : l.registry.Grows l'.registry) :
    l'.registry.KeepsMember row sig := by
  obtain ⟨p, d', hfind, hkeeps⟩ := h.resolve_left List.not_mem_nil
  obtain ⟨c₁, hc₁, hcgrows⟩ := hgrows.classes hc
  obtain ⟨d₁, hd₁, -⟩ := hcgrows.declared?_some hd
  rw [findMember_of_declared (m := c.member sig) (hgrows.find hrow) hc₁ hd₁] at hfind
  cases hfind
  exact hkeeps

/-- Requiring one override. -/
theorem Finished.requireOverride (hF : Finished s F) (hl : Ready s F l)
    (hc : l.registry.classAt? row = some c) (hheld : OverrideHeld F c.name sig) :
    Reliable s (· = l) (requireOverride s row sig) fun required =>
      Progressed s F l (if required then 1 else 0) := by
  refine (Reliable.read hc).bind fun c' => .of_state fun l' h => ?_
  obtain ⟨rfl, rfl⟩ := h
  have hnone : Reliable s (· = l') (Pure.pure false : LinkM Bool) fun required =>
      Progressed s F l' (if required then 1 else 0) := .pure fun _ h => by rw [h]; exact .refl hl
  cases hd : c'.declared? sig with
  | none => exact hnone
  | some d =>
      cases d with
      | field f => exact hnone
      | method m =>
          dsimp only
          split
          · exact hnone
          · rename_i hopen
            simp only [Bool.or_eq_true, decide_eq_true_eq, not_or, Bool.not_eq_true] at hopen
            have hholds := hl.holds_override hF hc hd hopen.2 hheld
            refine (hF.require hholds hl).bind fun _ => .pure fun u hu => ?_
            obtain ⟨hready, hcontinues, hmet⟩ := hu
            refine ⟨hready, hcontinues.grows, ?_⟩
            have hkeeps := keepsMember_of_met hmet (hl.settled.wired.tidy.find_self hc) hc hd
              hcontinues.grows
            exact hcontinues.grows.sumOf_keptCount_lt hl.settled.wired.tidy.wellFormed hc hd
              hopen.1 hkeeps

/-- Requiring the overrides in the children of one class. -/
theorem Finished.overridesOf (hF : Finished s F) (hl : Ready s F l)
    (hc : l.registry.classAt? row = some c) :
    Reliable s (· = l) (overridesOf s row) (Progressed s F l) := by
  refine (Reliable.read hc).bind fun c' => .of_state fun l' h => ?_
  obtain ⟨rfl, rfl⟩ := h
  refine Reliable.get.bind fun u => .of_state fun l' h => ?_
  obtain ⟨rfl, rfl⟩ := h
  dsimp only
  split
  · exact .pure fun _ h => by rw [h]; exact .refl hl
  refine (Reliable.foldlM (R := Progressed s F l') ?_).imp (fun _ h => by rw [h]; exact .refl hl)
    fun _ _ h => h
  rintro ⟨sub, cs⟩ hsub n
  obtain ⟨hchild, hcs⟩ := mem_subclasses.mp hsub
  obtain ⟨c₀, hc₀, hsuper⟩ := hl.settled.wired.tidy.parented.supertype hc hchild
  cases hcs.symm.trans hc₀
  refine .of_state fun u hu => ?_
  obtain ⟨cu, hcu, hgrows⟩ := hu.grows.classes hcs
  refine (Reliable.read hcu).bind fun c₁ => .of_state fun u' h => ?_
  obtain ⟨rfl, rfl⟩ := h
  dsimp only
  split
  · exact .pure fun _ h => by rw [h]; exact hu
  refine (Reliable.foldlM (R := Progressed s F l') fun sig hsig k => .of_state fun v hv => ?_).imp
    (fun _ h => by rw [h]; exact hu) fun _ _ h => h
  obtain ⟨cv, hcv, hgrows'⟩ := hv.grows.classes hcs
  have hheld : OverrideHeld F cv.name sig :=
    hgrows'.name_eq ▸ hl.inside.overrideHeld hF hc hcs hsuper hsig
  refine (hF.requireOverride hv.ready hcv hheld).bind fun required => ?_
  cases required with
  | false => exact .pure fun w hw => hv.trans hw
  | true => exact .pure fun w hw => hv.trans hw

/-- One pass. -/
theorem Finished.overridePass (hF : Finished s F) (hl : Ready s F l) :
    Reliable s (· = l) (overridePass s) (Progressed s F l) := by
  refine Reliable.get.bind fun u => .of_state fun l' h => ?_
  obtain ⟨rfl, rfl⟩ := h
  refine (Reliable.foldlM (R := Progressed s F l') fun row hrow n => .of_state fun u hu => ?_).imp
    (fun _ h => by rw [h]; exact .refl hl) fun _ _ h => h
  obtain ⟨⟨_, c⟩, hmem, rfl⟩ := List.mem_map.mp hrow
  obtain ⟨c', hc', -⟩ := hu.grows.classes (mem_keptClasses.mp hmem).2.1
  exact (hF.overridesOf hu.ready hc').bind fun k => .pure fun w hw => hu.trans hw

/-- No more methods are kept than are declared; arrays have none. -/
theorem keptCount_le (h : l.Wired s) :
    l.registry.sumOf Class.keptCount ≤ total (s.decls.map fun d => d.methods.length) := by
  refine total_le_of_keys Class.name ClassDecl.name h.tidy.names_nodup fun c hc hne => ?_
  obtain ⟨row, hrow⟩ := List.mem_iff_getElem?.mp hc
  rw [Array.getElem?_toList] at hrow
  rcases h.origin (show l.registry.classAt? row = some c from hrow) with ⟨d, hload, hd⟩ | hmade
  · refine ⟨d, Source.mem_decls_of_load hload, hd.name_eq.symm, ?_⟩
    rw [Class.keptCount_eq, hd.methods.length_eq]
    exact List.countP_le_length
  · refine absurd ?_ hne
    rw [Class.keptCount_eq, hmade.methods_eq, List.countP_nil]

/-- Each pass but the last one keeps a method, and there are only so many. -/
theorem Finished.overridePasses (hF : Finished s F) (fuel : Nat) (hl : Ready s F l)
    (hfuel : total (s.decls.map fun d => d.methods.length) <
      fuel + l.registry.sumOf Class.keptCount) :
    Reliable s (· = l) (overridePasses s fuel) fun _ => Ready s F := by
  induction fuel generalizing l with
  | zero =>
      have := keptCount_le hl.settled.wired
      omega
  | succ fuel ih =>
      refine (hF.overridePass hl).bind fun n => .of_state fun u hu => ?_
      split
      · have := hu.kept
        exact ih hu.ready (by omega)
      · exact .pure fun _ h => by rw [h]; exact hu.ready

/-- Requiring all overrides. -/
theorem Finished.requireOverrides (hF : Finished s F) (hl : Ready s F l) :
    Reliable s (· = l) (requireOverrides s) fun _ => Ready s F := by
  have hfuel : total (s.decls.map fun d => d.methods.length) <
      methodBound s l + 1 + l.registry.sumOf Class.keptCount := by
    unfold methodBound
    omega
  have hpasses := hF.overridePasses _ hl hfuel
  constructor
  · rintro _ _ l' rfl hok
    exact hpasses.ends rfl hok
  · rintro hplain _ rfl
    exact hpasses.succeeds hplain rfl

end Overrides

end ClassLinker.Closure
