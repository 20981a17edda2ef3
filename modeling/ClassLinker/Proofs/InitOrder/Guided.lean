import ClassLinker.Proofs.Closure.Agree
import ClassLinker.Proofs.InitOrder.Canonical

/-! Links that hold the same initialize their classes in the same order. A traversal in one of them
finds, under other rows, only what the finished traversal in the other one has found, and it never
fails; so either graph has the nodes and edges of the other. -/

namespace ClassLinker.InitOrder

open Registry Closure Linker

variable {s : Source} {l l' : Linker}

/-! ### Members of methods -/

theorem mem_membersOf {r : Registry} {m : Method} {member : Member} :
    member ∈ membersOf r m ↔ ∃ a ∈ m.memberDeps, ∃ ref target declaring link index,
      r.refAt? a = some ref ∧ ref.body = .memberRef member target declaring link index := by
  unfold membersOf
  rw [List.mem_filterMap]
  refine exists_congr fun a => and_congr_right fun _ => ?_
  cases href : r.refAt? a with
  | none => simp
  | some ref => cases hbody : ref.body <;> simp [hbody, eq_comm]

/-- The members that a method refers to are those at the member slots in use. -/
theorem mem_membersOf_iff {row : Nat} {c : Class} {declared : List Int}
    {arrays : Text → Option RefAddr} {uses : List Use} {m : Method} {member : Member}
    (hc : l.registry.classAt? row = some c) (hfilled : c.Filled declared row arrays)
    (hrecords : m.Records c row arrays uses) : member ∈ membersOf l.registry m ↔
      ∃ slot pos ref target declaring link index, .member slot ∈ uses ∧
        c.known? slot = some (pos, ref) ∧
        ref.body = .memberRef member target declaring link index := by
  have hrefAt : ∀ pos : Nat, l.registry.refAt? ⟨row, pos⟩ = c.pool[pos]? := by
    intro pos
    rw [Registry.refAt?, hc]
    rfl
  rw [mem_membersOf]
  constructor
  · rintro ⟨a, ha, ref, t, d, k, i, href, hbody⟩
    obtain ⟨rfl, -⟩ := hrecords.members a ha
    rw [hrefAt] at href
    -- The reference is one to a member, so no other use stands for it.
    have hknown : ∀ {slot pos ref'}, c.known? slot = some (pos, ref') →
        c.slots.lookup slot = some a.pos → pos = a.pos ∧ ref' = ref := by
      intro slot pos ref' hknown hslot
      obtain ⟨hslot', href'⟩ := Class.known?_eq_some.mp hknown
      cases hslot.symm.trans hslot'
      cases href.symm.trans href'
      exact ⟨rfl, rfl⟩
    obtain ⟨u, hu, hnames⟩ := (hrecords.refs a).mp (.inr (.inr ha))
    have hfits := hrecords.fits u hu
    cases u with
    | member slot =>
        exact ⟨slot, a.pos, ref, t, d, k, i, hu, Class.known?_eq_some.mpr ⟨hnames.2, href⟩, hbody⟩
    | classAt slot =>
        obtain ⟨pos, ref', target, id, hk, hbody'⟩ := hfits
        obtain ⟨rfl, rfl⟩ := hknown hk hnames.2
        cases hbody.symm.trans hbody'
    | constant slot =>
        obtain ⟨pos, ref', hk, ⟨v, hbody'⟩ | ⟨target, id, hbody'⟩⟩ := hfits
        · obtain ⟨rfl, rfl⟩ := hknown hk hnames.2
          cases hbody.symm.trans hbody'
        · obtain ⟨rfl, rfl⟩ := hknown hk hnames.2
          cases hbody.symm.trans hbody'
    | arrayAt slot =>
        obtain ⟨pos, ref', target, id, -, -, harray⟩ := hnames
        obtain ⟨-, ref'', id', href'', hbody'', -⟩ := hfilled.added harray
        cases href.symm.trans href''
        cases hbody.symm.trans hbody''
    | primitives code => exact hnames.elim
    | builtin id => exact hnames.elim
  · rintro ⟨slot, pos, ref, t, d, k, i, hu, hknown, hbody⟩
    obtain ⟨hslot, href⟩ := Class.known?_eq_some.mp hknown
    refine ⟨⟨row, pos⟩, ?_, ref, t, d, k, i, (hrefAt pos).trans href, hbody⟩
    rcases (hrecords.refs ⟨row, pos⟩).mpr ⟨_, hu, rfl, hslot⟩ with hclass | hliteral | hmember
    · obtain ⟨-, ref', target, id, href', hbody'⟩ := hrecords.classes _ hclass
      cases href.symm.trans href'
      cases hbody.symm.trans hbody'
    · obtain ⟨-, ref', v, href', hbody'⟩ := hrecords.literals _ hliteral
      cases href.symm.trans href'
      cases hbody.symm.trans hbody'
    · exact hmember

/-- A method that was registered from one declaration refers to the same members everywhere. -/
theorem membersOf_subset {p q : Nat} {c c' : Class} {m m' : Method} (h : Agree s l l')
    (hc : l.registry.classAt? p = some c) (hc' : l'.registry.classAt? q = some c')
    (hname : c'.name = c.name) (hm : m ∈ c.methods) (hm' : m' ∈ c'.methods)
    (hsig : m'.sig = m.sig) {member : Member} (hmember : member ∈ membersOf l.registry m) :
    member ∈ membersOf l'.registry m' := by
  obtain ⟨d, decl, hload, hfilled, hdecl, hdeclsig, hrecords⟩ := exists_decl h.settled.wired hc hm
  obtain ⟨d', decl', hload', hfilled', hdecl', hdeclsig', hrecords'⟩ :=
    exists_decl h.settled'.wired hc' hm'
  rw [hname] at hload'
  cases hload.symm.trans hload'
  have hsame : decl' = decl := by
    obtain ⟨c₁, hc₁, -, hdesc⟩ := exists_described h.settled.wired h.noArrays hload
      (h.settled.wired.tidy.find_self hc)
    cases hc.symm.trans hc₁
    have hnodup := (List.nodup_append.mp
      (h.settled.wired.tidy.wellFormed.signatures_nodup hc)).1
    rw [map_eq_of_forall₂ (fun hd => hd.sig_eq) hdesc.methods] at hnodup
    exact List.inj_on_of_nodup_map hnodup hdecl' hdecl
      (hdeclsig'.trans (hsig.trans hdeclsig.symm))
  subst hsame
  rw [h.root_eq] at hrecords'
  obtain ⟨slot, pos, ref, t, dc, k, i, hu, hknown, hbody⟩ :=
    (mem_membersOf_iff hc hfilled hrecords).mp hmember
  obtain ⟨ref', hknown', -, hbody'⟩ := (h.class_alike hc hc' hname).known hknown
  exact (mem_membersOf_iff hc' hfilled' hrecords').mpr
    ⟨slot, pos, ref', t, dc, k, i, hu, hknown', hbody'.trans hbody⟩

/-! ### Traversals -/

/-- A traversal `t'` in `r'` stays inside a finished traversal `t` in `r`: its nodes, its edges and,
under other rows, its methods are there. -/
structure Guided (r r' : Registry) (t t' : Traversal) : Prop where
  graph : t'.graph.Within t.graph
  found : ∀ {q sig}, (q, sig) ∈ t'.found → ∃ p, SameName r r' p q ∧ (p, sig) ∈ t.found
  pending : ∀ {key}, key ∈ t'.pending → key ∈ t'.found

theorem within_depend {g g' : Graph} {source target : Text} (h : g'.Within g) (hg : g.Proper)
    (hdep : Depends g source target) : (depend g' source target).Within g := by
  unfold depend
  split
  · exact h
  · rename_i hne
    have hedge : target ∈ g.successors source := hdep.resolve_left fun heq => hne heq.symm
    refine ⟨fun hname => ?_, fun hnext => ?_⟩
    · rcases Graph.has_addEdge.mp hname with hold | rfl | rfl
      · exact h.nodes hold
      · exact Graph.has_of_successor hedge
      · exact hg.closed hedge
    · rcases Graph.mem_successors_addEdge.mp hnext with hold | ⟨rfl, rfl⟩
      · exact h.edges hold
      · exact hedge

theorem within_followedGraph {g g' : Graph} {self target owner : Text} (h : g'.Within g)
    (hg : g.Proper) (htarget : Depends g self target) (howner : Depends g self owner) :
    (followedGraph g' self target owner).Within g := by
  unfold followedGraph
  split
  · exact within_depend h hg htarget
  · exact within_depend (within_depend h hg htarget) hg howner

variable {t t' : Traversal}

/-- Following a member that the finished traversal has followed. -/
theorem exists_follow (h : Agree s l l') (hproper : t.graph.Proper)
    (ht : Guided l.registry l'.registry t t') {self : Text} {m : Member}
    (hm : Followed l.registry t self m) :
    ∃ t₁, follow l'.registry self t' m = .ok t₁ ∧ Guided l.registry l'.registry t t₁ := by
  obtain ⟨row, d, c, hfind, hc, howner, hstatic⟩ := hm.resolved
  obtain ⟨q, hq⟩ := h.has_iff.mp (exists_find?_of_findMember hfind)
  obtain ⟨⟨row', d'⟩, hfind', hsame, hd⟩ := h.alike.findMember hfind hq
  obtain ⟨-, c', -, hc', -⟩ := findMember_ok hfind'
  have hname := hsame.name_eq h.alike.tidy h.alike.tidy' hc hc'
  refine ⟨_, follow_eq hfind' hc', ?_⟩
  have hgraph : (followedGraph t'.graph self m.className c'.name).Within t.graph :=
    within_followedGraph ht.graph hproper hm.named (hname ▸ howner)
  cases d' with
  | field f => exact ⟨hgraph, ht.found, ht.pending⟩
  | method callee' =>
      rw [withFound]
      split
      · rename_i hcond
        cases d with
        | field f => exact hd.elim
        | method callee =>
            have hcallee : callee.Alike callee' := hd
            have hfound := hstatic callee rfl
              (hcallee.isStatic_eq.symm.trans (Bool.and_eq_true_iff.mp hcond).1)
            refine ⟨hgraph, fun hmem => ?_, fun hmem => ?_⟩
            · rcases List.mem_cons.mp hmem with heq | hmem
              · cases heq
                exact ⟨row, hsame, hcallee.sig_eq ▸ hfound⟩
              · exact ht.found hmem
            · exact (List.mem_cons.mp hmem).elim (fun heq => heq ▸ List.mem_cons_self)
                fun hmem => List.mem_cons_of_mem _ (ht.pending hmem)
      · exact ⟨hgraph, ht.found, ht.pending⟩

/-- A traversal inside a finished one goes on inside it. -/
theorem exists_traverse (h : Agree s l l') (hproper : t.graph.Proper)
    (hsettled : Settled l.registry t) (fuel : Nat) (ht : Guided l.registry l'.registry t t') :
    ∃ t₁, traverse l'.registry fuel t' = .ok t₁ ∧ Guided l.registry l'.registry t t₁ := by
  fun_induction traverse l'.registry fuel t' with
  | case1 t' => exact ⟨t', rfl, ht⟩
  | case2 fuel t' hpending => exact ⟨t', rfl, ht⟩
  | case3 fuel t' q sig rest hpending t₀ hc ih =>
      exact ih ⟨ht.graph, ht.found, fun hkey => ht.pending (hpending ▸ List.mem_cons_of_mem _ hkey)⟩
  | case4 fuel t' q sig rest hpending t₀ c' hc' hm' ih =>
      exact ih ⟨ht.graph, ht.found, fun hkey => ht.pending (hpending ▸ List.mem_cons_of_mem _ hkey)⟩
  | case5 fuel t' q sig rest hpending t₀ c' hc' m' hm' ih =>
      have ht₀ : Guided l.registry l'.registry t { t' with pending := rest } :=
        ⟨ht.graph, ht.found, fun hkey => ht.pending (hpending ▸ List.mem_cons_of_mem _ hkey)⟩
      -- The method was found, so its counterpart has been traversed.
      obtain ⟨p, hsame, hfound⟩ := ht.found (ht.pending (hpending ▸ List.mem_cons_self))
      obtain ⟨name, hp, hq⟩ := hsame
      obtain ⟨c, hc, hname⟩ := h.alike.tidy.exists_class hp
      have hname' : c'.name = c.name :=
        (h.alike.tidy'.wellFormed.find_name hq hc').trans hname.symm
      have hrel := (h.symm.class_alike hc' hc hname'.symm).find? sig
      rw [hm'] at hrel
      obtain ⟨m, hm, halike⟩ := rel_some hrel
      have hmembers : ∀ member ∈ (membersOf l'.registry m').reverse,
          Followed l.registry t c'.name member := by
        intro member hmember
        rw [hname']
        refine hsettled.traversed _ hfound hc hm member ?_
        exact membersOf_subset h.symm hc' hc hname'.symm (List.mem_of_find?_eq_some hm')
          (List.mem_of_find?_eq_some hm) halike.sig_eq (List.mem_reverse.mp hmember)
      obtain ⟨t₁, hfold, ht₁⟩ := foldlM_succeeds
        (fun member hmember u hu => exists_follow h hproper hu (hmembers member hmember)) ht₀
      rw [hfold]
      exact ih t₁ ht₁

/-! ### The graph -/

/-- The kept initializers are methods when there is a graph of them. -/
theorem exists_initializer {r : Registry} {g : Graph} (hok : graphOf r = .ok g) {row : Nat}
    {c : Class} {d : Declaration} (hmem : (row, c) ∈ r.keptClasses)
    (hd : c.declared? Signature.initializer = some d) (hkept : d.kept = true) :
    ∃ m, d = .method m := by
  obtain ⟨t, hfold, -⟩ := graphOf_ok.mp hok
  have hall := foldlM_accumulates (P := fun done _ => ∀ p ∈ done,
    ∀ d, p.2.declared? Signature.initializer = some d → d.kept = true → ∃ m, d = .method m)
    (by simp) ?_ hfold
  · exact hall _ hmem d hd hkept
  · intro done p t t' _ hdone hstep q hq d hd hkept
    rcases List.mem_append.mp hq with hq | hq
    · exact hdone q hq d hd hkept
    · cases List.mem_singleton.mp hq
      rcases addInitializer_ok hstep with ⟨-, hdropped⟩ | ⟨m, hm, -⟩
      · rw [hdropped d hd] at hkept
        cases hkept
      · cases hd.symm.trans hm
        exact ⟨m, rfl⟩

/-- Adding an initializer that the finished traversal covers. -/
theorem exists_addInitializer (h : Agree s l l') (hproper : t.graph.Proper)
    (hsettled : Settled l.registry t)
    (hcovers : ∀ {p c d}, (p, c) ∈ l.registry.keptClasses →
      c.declared? Signature.initializer = some d → d.kept = true →
      Covers t p c ∧ ∃ m, d = .method m)
    (ht : Guided l.registry l'.registry t t') {q : Nat} {c' : Class}
    (hc' : l'.registry.classAt? q = some c') :
    ∃ t₁, addInitializer l'.registry t' q c' = .ok t₁ ∧ Guided l.registry l'.registry t t₁ := by
  unfold addInitializer
  cases hd' : c'.declared? Signature.initializer with
  | none => exact ⟨t', rfl, ht⟩
  | some d' =>
      dsimp only
      cases hkept' : d'.kept with
      | false => exact ⟨t', rfl, ht⟩
      | true =>
          obtain ⟨p, c, hc, hname⟩ := h.symm.exists_class hc'
          obtain ⟨d, hd, halike, hkept⟩ := h.symm.keeps hc' hc hname hd' hkept'
          have htidy := h.settled.wired.tidy
          have hmem : (p, c) ∈ l.registry.keptClasses :=
            mem_keptClasses.mpr ⟨htidy.live_of_class hc, hc, h.settled.wired.kept hc⟩
          obtain ⟨⟨hnode, hfound⟩, m, rfl⟩ := hcovers hmem hd hkept
          cases d' with
          | field f => exact halike.elim
          | method m' =>
              have hsig : m'.sig = Signature.initializer := Class.sig_of_declared? hd'
              have hstart : Guided l.registry l'.registry t
                  { graph := t'.graph.addNode c'.name, found := (q, m'.sig) :: t'.found
                    pending := [(q, m'.sig)] } := by
                refine ⟨⟨fun hnode' => ?_, fun hnext => ?_⟩, fun hkey => ?_, fun hkey => ?_⟩
                · rcases Graph.has_addNode.mp hnode' with hold | rfl
                  · exact ht.graph.nodes hold
                  · exact hname ▸ hnode
                · rw [Graph.successors_addNode] at hnext
                  exact ht.graph.edges hnext
                · rcases List.mem_cons.mp hkey with heq | hkey
                  · cases heq
                    refine ⟨p, ⟨c.name, htidy.find_self hc, ?_⟩, hsig ▸ hfound⟩
                    rw [hname]
                    exact h.settled'.wired.tidy.find_self hc'
                  · exact ht.found hkey
                · rw [List.mem_singleton.mp hkey]
                  exact List.mem_cons_self
              obtain ⟨t₁, hok, ht₁⟩ := exists_traverse h hproper hsettled
                (methodCount l'.registry + 1) hstart
              refine ⟨t₁, ?_, ht₁⟩
              simp only [Bool.not_true, Bool.false_eq_true, if_false, hok]
              rfl

/-- The graph of a link that holds the same exists and has nothing more. -/
theorem exists_graphOf (h : Agree s l l') {g : Graph} (hok : graphOf l.registry = .ok g) :
    ∃ g', graphOf l'.registry = .ok g' ∧ g'.Within g := by
  obtain ⟨t, rfl, hsettled, hcovers⟩ := graphOf_settled hok
  have hproper := graphOf_proper hok
  have hempty : Guided l.registry l'.registry t {} := by
    refine ⟨⟨?_, ?_⟩, ?_, ?_⟩ <;> simp [Graph.has, Graph.mem_successors]
  have hstep : ∀ x ∈ l'.registry.keptClasses, ∀ u, Guided l.registry l'.registry t u →
      ∃ u', addInitializer l'.registry u x.1 x.2 = .ok u' ∧ Guided l.registry l'.registry t u' :=
    fun x hx u hu => exists_addInitializer h hproper hsettled
      (fun hmem hd hkept => ⟨hcovers hmem hd hkept, exists_initializer hok hmem hd hkept⟩) hu
      (mem_keptClasses.mp hx).2.1
  obtain ⟨t', hfold, ht'⟩ := foldlM_succeeds hstep hempty
  exact ⟨t'.graph, graphOf_ok.mpr ⟨t', hfold, rfl⟩, ht'.graph⟩

/-- Links that hold the same initialize their classes in the same order. -/
theorem schedule_agree (h : Agree s l l') {bootstrap : Text} {order : List Text}
    (hok : schedule l.registry bootstrap = .ok order) :
    schedule l'.registry bootstrap = .ok order := by
  obtain ⟨g, hgraph, horder⟩ := schedule_ok.mp hok
  obtain ⟨g', hgraph', hwithin⟩ := exists_graphOf h hgraph
  obtain ⟨g₁, hgraph₁, hwithin'⟩ := exists_graphOf h.symm hgraph'
  cases hgraph.symm.trans hgraph₁
  have hsame := (graphOf_proper hgraph').order_eq (graphOf_proper hgraph) hwithin hwithin' bootstrap
  exact schedule_ok.mpr ⟨g', hgraph', hsame.trans horder⟩

end ClassLinker.InitOrder
