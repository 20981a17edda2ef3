import ClassLinker.Proofs.Closure.Alike

/-! One link inside another. A settled link of the same source holds all that follows from what it
holds, in whatever rows another link stores it. So a link that has nothing but what the settled one
holds stays inside it with every step that is asked for something it holds. -/

namespace ClassLinker.Closure

open Registry Linker

variable {s : Source} {F l l' : Linker}

theorem holds_cls_of_member {owner : Text} {sig : Signature} (h : F.Holds (.member owner sig)) :
    F.Has owner := by
  obtain ⟨row, hrow, -⟩ := h
  exact ⟨row, hrow⟩

theorem holds_cls_of_ref {owner : Text} {slot : Int} (h : F.Holds (.ref owner slot)) :
    F.Has owner := by
  obtain ⟨ref, href, -⟩ := h
  obtain ⟨row, -, -, hrow, -⟩ := reference?_eq_some.mp href
  exact ⟨row, hrow⟩

theorem holds_lookup {m : Member} :
    F.Holds (.lookup m) ↔ ∃ row d, F.registry.findMember m = .ok (row, d) ∧
      F.registry.KeepsMember row m.sig := by
  simp [Linker.Holds, Linker.Met]

/-- What an item brings in one link it brings in a settled one that holds the item. -/
theorem brings_of_alike (halike : l.registry.Alike F.registry) {x y : Item} (hx : F.Holds x)
    (hxy : Brings s F.root l.registry x y) : Brings s F.root F.registry x y := by
  cases hxy with
  | supertype hload ht => exact .supertype hload ht
  | arrayRoot hbracket => exact .arrayRoot hbracket
  | arrayElement hbracket helement => exact .arrayElement hbracket helement
  | initializer hload hsig => exact .initializer hload hsig
  | lookupClass => exact .lookupClass
  | lookupMember hfind hc =>
      obtain ⟨row', d', hfind', -⟩ := holds_lookup.mp hx
      obtain ⟨start, hstart⟩ := exists_find?_of_findMember hfind'
      obtain ⟨found, hfound, hname, -⟩ := halike.findMember hfind hstart
      cases hfind'.symm.trans hfound
      obtain ⟨-, c', -, hc', -⟩ := findMember_ok hfind'
      rw [← hname.name_eq halike.tidy halike.tidy' hc hc']
      exact .lookupMember hfind' hc'
  | reference hload hm hu hslot => exact .reference hload hm hu hslot
  | arrayClass hload hm hu href hbody =>
      obtain ⟨row, hrow⟩ := holds_cls_of_member hx
      obtain ⟨ref', href', -, hbody'⟩ := halike.reference? href hrow
      exact .arrayClass hload hm hu href' (hbody'.trans hbody)
  | arrayReference hload hm hu href hbody hnew hadded hbody₂ =>
      obtain ⟨row, hrow⟩ := holds_cls_of_member hx
      obtain ⟨ref', href', -, hbody'⟩ := halike.reference? href hrow
      obtain ⟨ref₂', href₂', -, hbody₂'⟩ := halike.reference? hadded hrow
      exact .arrayReference hload hm hu href' (hbody'.trans hbody) hnew href₂'
        (hbody₂'.trans hbody₂)
  | primitives hload hm hu => exact .primitives hload hm hu
  | triggered hload hm hu => exact .triggered hload hm hu
  | refClass href hbody =>
      obtain ⟨row, hrow⟩ := holds_cls_of_ref hx
      obtain ⟨ref', href', -, hbody'⟩ := halike.reference? href hrow
      exact .refClass href' (hbody'.trans hbody)
  | refMember href hbody =>
      obtain ⟨row, hrow⟩ := holds_cls_of_ref hx
      obtain ⟨ref', href', -, hbody'⟩ := halike.reference? href hrow
      exact .refMember href' (hbody'.trans hbody)
  | refString href hbody =>
      obtain ⟨row, hrow⟩ := holds_cls_of_ref hx
      obtain ⟨ref', href', -, hbody'⟩ := halike.reference? href hrow
      exact .refString href' (hbody'.trans hbody)
  | builtinClass hb => exact .builtinClass hb
  | builtinMember hb hmember => exact .builtinMember hb hmember
  | classEntry hb => exact .classEntry hb
  | step hb hnext => exact .step hb hnext

/-- What a settled link holds is closed under the rules in every link of the source. -/
theorem closedUnder_holds (hF : Settled s F) (hnames : s.NoArrays) (hl : l.Wired s)
    (hroot : l.root = F.root) : ClosedUnder s F.root l.registry F.Holds := fun hx hxy =>
  holds_of_brings hF hnames hx
    (brings_of_alike (hl.alike hF.wired hnames hroot.symm) hx hxy)

/-- A link that has nothing but what another one holds. -/
structure Inside (s : Source) (F l : Linker) : Prop where
  wired : l.Wired s
  root_eq : l.root = F.root
  within : l.Within l.registry F.Holds

namespace Inside

/-- What is pending is met in the other link. -/
theorem holds_pending (h : Inside s F l) {m : Member} (hm : m ∈ l.pending) :
    F.Holds (.lookup m) := by
  obtain ⟨-, -, hlookup | ⟨row, hrow, hkept⟩⟩ := h.within.pending hm
  · exact hlookup
  · have hkeeps := hkept
    obtain ⟨c, d, hc, hd, -⟩ := hkept
    exact holds_lookup.mpr ⟨row, d, findMember_of_declared hrow hc hd, hkeeps⟩

theorem holds_cls (h : Inside s F l) {name : Text} (hname : l.Has name) : F.Has name := by
  obtain ⟨row, hrow⟩ := hname
  obtain ⟨c, hc, rfl⟩ := h.wired.tidy.exists_class hrow
  exact h.within.classes hc

theorem alike (h : Inside s F l) (hF : Settled s F) (hnames : s.NoArrays) :
    l.registry.Alike F.registry := h.wired.alike hF.wired hnames h.root_eq.symm

/-- What is kept in a link inside another one is kept there. -/
theorem keepsMember (h : Inside s F l) {row : Nat} {c : Class} {sig : Signature}
    (hc : l.registry.classAt? row = some c) (hkept : l.registry.KeepsMember row sig) :
    F.Holds (.member c.name sig) := h.within.members hc hkept

/-- A step that adds nothing beyond what the other link holds. -/
theorem of_within (h : Inside s F l) (hF : Settled s F) (hnames : s.NoArrays) (hl' : l'.Wired s)
    (hroot : l'.root = l.root)
    (hwithin : ClosedUnder s l.root l'.registry F.Holds → l.Within l'.registry F.Holds →
      l'.Within l'.registry F.Holds) : Inside s F l' := by
  have hclosed : ClosedUnder s F.root l'.registry F.Holds :=
    closedUnder_holds hF hnames hl' (hroot.trans h.root_eq)
  refine ⟨hl', hroot.trans h.root_eq, hwithin (h.root_eq ▸ hclosed) ?_⟩
  refine ⟨h.within.classes, h.within.members, h.within.refs, h.within.builtins, fun {m} hm => ?_⟩
  have hlookup := h.holds_pending hm
  refine ⟨hclosed hlookup .lookupClass, ?_, .inl hlookup⟩
  intro row c d hfind hc
  exact hclosed hlookup (.lookupMember hfind hc)

theorem follows {x : Item} (h : Inside s F l) (hF : Settled s F) (hnames : s.NoArrays)
    (hstep : Follows s x l l') (hx : F.Holds x) : Inside s F l' :=
  h.of_within hF hnames hstep.wired hstep.root_eq fun hclosed hin =>
    hstep.within hclosed (.refl _) hx hin

theorem answers {x : Item} (h : Inside s F l) (hF : Settled s F) (hnames : s.NoArrays)
    (hstep : Answers s x l l') (hx : F.Holds x) : Inside s F l' :=
  h.of_within hF hnames hstep.settled.wired hstep.root_eq fun hclosed hin =>
    hstep.within hclosed (.refl _) hx hin

end Inside

/-- The empty link is inside every other one. -/
theorem inside_empty (s : Source) (F : Linker) : Inside s F { root := F.root } :=
  ⟨wired_empty s F.root, rfl, Linker.within_empty _ _ _⟩

end ClassLinker.Closure
