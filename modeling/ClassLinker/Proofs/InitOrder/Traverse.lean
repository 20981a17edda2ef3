import ClassLinker.InitOrder.Schedule
import ClassLinker.Proofs.InitOrder.Order
import ClassLinker.Proofs.Registry.Growth

/-! The traversal of static initializers. When it ends, every method that was found has been
traversed: its class depends on the class of each member that it refers to and on the class that
declares the member, and the static methods among these were found. So the class of an initializer
leads to every class that the initializer uses, however deep in shared methods. -/

namespace ClassLinker.InitOrder

open Registry

variable {r : Registry}

/-! ### Methods still to be found -/

/-- The methods of all classes. -/
def methodKeys (r : Registry) : List MethodKey :=
  r.rows.toList.zipIdx.flatMap fun p => p.1.methods.map fun m => (p.2, m.sig)

theorem length_methodKeys (r : Registry) : (methodKeys r).length = methodCount r := by
  have hsum : ∀ (cs : List Class) (k : Nat),
      ((cs.zipIdx k).flatMap fun p => p.1.methods.map fun m => (p.2, m.sig)).length =
        total (cs.map fun c => c.methods.length) := by
    intro cs
    induction cs with
    | nil => intro k; rfl
    | cons c cs ih =>
        intro k
        simp only [List.zipIdx_cons, List.flatMap_cons, List.length_append, List.length_map,
          List.map_cons, total, ih]
  exact hsum _ 0

theorem mem_methodKeys {row : Nat} {c : Class} {m : Method} (hc : r.classAt? row = some c)
    (hm : m ∈ c.methods) : (row, m.sig) ∈ methodKeys r :=
  List.mem_flatMap.mpr ⟨(c, row), mem_rows_zipIdx.mpr hc, List.mem_map.mpr ⟨m, hm, rfl⟩⟩

/-- The number of methods that have not been found. -/
def unfound (r : Registry) (found : List MethodKey) : Nat :=
  (methodKeys r).countP fun key => !found.contains key

theorem unfound_le (r : Registry) (found : List MethodKey) : unfound r found ≤ methodCount r := by
  rw [← length_methodKeys]
  exact List.countP_le_length

theorem unfound_cons {found : List MethodKey} {key : MethodKey} (hmem : key ∈ methodKeys r)
    (hnew : key ∉ found) : unfound r (key :: found) < unfound r found := by
  have hlt : ∀ keys : List MethodKey, key ∈ keys →
      (keys.countP fun k => !(key :: found).contains k) < keys.countP fun k => !found.contains k := by
    intro keys hkeys
    obtain ⟨before, after, rfl⟩ := List.append_of_mem hkeys
    have hle : ∀ ks : List MethodKey, (ks.countP fun k => !(key :: found).contains k) ≤
        ks.countP fun k => !found.contains k := by
      intro ks
      refine List.countP_mono_left fun k _ hk => ?_
      simp only [List.contains_cons, Bool.not_or, Bool.and_eq_true] at hk
      exact hk.2
    have hnew' : found.contains key = false := by simpa using hnew
    have hbefore := hle before
    have hafter := hle after
    simp only [List.countP_append, List.countP_cons, List.contains_cons, beq_self_eq_true,
      Bool.true_or, Bool.not_true, Bool.false_eq_true, if_false, hnew', Bool.not_false, if_true]
    simp only [List.contains_cons] at hbefore hafter
    omega
  exact hlt _ hmem

/-! ### Edges -/

theorem mem_successors_depend {g : Graph} {source target name next : Text}
    (h : next ∈ g.successors name) : next ∈ (depend g source target).successors name := by
  unfold depend
  split
  · exact h
  · exact Graph.mem_successors_addEdge.mpr (.inl h)

theorem has_depend {g : Graph} {source target name : Text} (h : g.has name = true) :
    (depend g source target).has name = true := by
  unfold depend
  split
  · exact h
  · exact Graph.has_addEdge.mpr (.inl h)

/-- A class depends on another one when they are the same or there is an edge. -/
def Depends (g : Graph) (source target : Text) : Prop :=
  target = source ∨ target ∈ g.successors source

theorem depends_depend (g : Graph) (source target : Text) :
    Depends (depend g source target) source target := by
  unfold depend
  split
  · rename_i h
    exact .inl h.symm
  · exact .inr (Graph.mem_successors_addEdge.mpr (.inr ⟨rfl, rfl⟩))

/-! ### Following members -/

/-- A member that a method of the class `user` refers to has been followed: the class depends on
the one that is named and on the one that declares the member, and a static method was found. -/
structure Followed (r : Registry) (t : Traversal) (user : Text) (m : Member) : Prop where
  named : Depends t.graph user m.className
  resolved : ∃ row d c, r.findMember m = .ok (row, d) ∧ r.classAt? row = some c ∧
    Depends t.graph user c.name ∧
    ∀ callee, d = .method callee → callee.isStatic = true → (row, callee.sig) ∈ t.found

/-- All members that a method refers to have been followed. -/
def Traversed (r : Registry) (t : Traversal) (key : MethodKey) : Prop :=
  ∀ {c m}, r.classAt? key.1 = some c → (c.methods.find? fun m => m.sig = key.2) = some m →
    ∀ member ∈ membersOf r m, Followed r t c.name member

/-- `t'` has the nodes, the edges and the methods of `t`, and the methods that are new are still to
be traversed. -/
structure Extends (r : Registry) (t t' : Traversal) : Prop where
  nodes : ∀ {name}, t.graph.has name = true → t'.graph.has name = true
  edges : ∀ {name next}, next ∈ t.graph.successors name → next ∈ t'.graph.successors name
  found : ∀ {key}, key ∈ t.found → key ∈ t'.found

namespace Extends

variable {t t' t'' : Traversal}

theorem refl (r : Registry) (t : Traversal) : Extends r t t := ⟨id, id, id⟩

theorem trans (h : Extends r t t') (h' : Extends r t' t'') : Extends r t t'' :=
  ⟨fun hn => h'.nodes (h.nodes hn), fun he => h'.edges (h.edges he),
    fun hk => h'.found (h.found hk)⟩

theorem depends (h : Extends r t t') {source target : Text}
    (hd : Depends t.graph source target) : Depends t'.graph source target := hd.imp_right h.edges

theorem followed (h : Extends r t t') {self : Text} {m : Member} (hm : Followed r t self m) :
    Followed r t' self m := by
  obtain ⟨row, d, c, hfind, hc, hdep, hstatic⟩ := hm.resolved
  exact ⟨h.depends hm.named, row, d, c, hfind, hc, h.depends hdep,
    fun callee hd hs => h.found (hstatic callee hd hs)⟩

theorem traversed (h : Extends r t t') {key : MethodKey} (hkey : Traversed r t key) :
    Traversed r t' key := fun hc hm member hmember => h.followed (hkey hc hm member hmember)

end Extends

/-- Following some members: what is found meanwhile waits to be traversed, and the work that is left
does not grow. -/
structure Follows (r : Registry) (t t' : Traversal) : Prop extends Extends r t t' where
  waiting : ∀ {key}, key ∈ t'.found → key ∈ t.found ∨ key ∈ t'.pending
  pending : ∀ {key}, key ∈ t.pending → key ∈ t'.pending
  work : t'.pending.length + unfound r t'.found ≤ t.pending.length + unfound r t.found

theorem Follows.refl (r : Registry) (t : Traversal) : Follows r t t :=
  ⟨.refl r t, .inl, id, Nat.le_refl _⟩

theorem Follows.trans {t t' t'' : Traversal} (h : Follows r t t') (h' : Follows r t' t'') :
    Follows r t t'' where
  toExtends := h.toExtends.trans h'.toExtends
  waiting hkey := by
    rcases h'.waiting hkey with hkey | hkey
    · exact (h.waiting hkey).imp_right h'.pending
    · exact .inr hkey
  pending hkey := h'.pending (h.pending hkey)
  work := Nat.le_trans h'.work h.work

/-- The graph after a member was followed. -/
def followedGraph (g : Graph) (self target owner : Text) : Graph :=
  if owner = target then depend g self target else depend (depend g self target) self owner

theorem followedGraph_spec (g : Graph) (self target owner : Text) :
    (∀ {name}, g.has name = true → (followedGraph g self target owner).has name = true) ∧
      (∀ {name next}, next ∈ g.successors name →
        next ∈ (followedGraph g self target owner).successors name) ∧
      Depends (followedGraph g self target owner) self target ∧
      Depends (followedGraph g self target owner) self owner := by
  unfold followedGraph
  split
  · rename_i h
    subst h
    exact ⟨has_depend, mem_successors_depend, depends_depend _ _ _, depends_depend _ _ _⟩
  · exact ⟨fun h => has_depend (has_depend h), fun h => mem_successors_depend (mem_successors_depend h),
      (depends_depend g self target).imp_right mem_successors_depend, depends_depend _ _ _⟩

/-- The traversal with a declaration followed: a static method that is new waits to be
traversed. -/
def withFound (t : Traversal) (row : Nat) : Declaration → Traversal
  | .method callee =>
    if callee.isStatic && !t.found.contains (row, callee.sig) then
      { t with found := (row, callee.sig) :: t.found, pending := (row, callee.sig) :: t.pending }
    else t
  | .field _ => t

theorem follow_eq {self : Text} {t : Traversal} {m : Member} {row : Nat} {d : Declaration}
    {c : Class} (hfind : r.findMember m = .ok (row, d)) (hc : r.classAt? row = some c) :
    follow r self t m =
      .ok (withFound { t with graph := followedGraph t.graph self m.className c.name } row d) := by
  unfold follow
  rw [hfind]
  simp only [bind, Except.bind, hc, Option.map_some, Option.getD_some]
  cases d with
  | method callee =>
      dsimp only [withFound]
      split <;> rfl
  | field f => rfl

/-- A member that is followed is found, in a class that declares it. -/
theorem follow_ok {self : Text} {t t' : Traversal} {m : Member} (hok : follow r self t m = .ok t') :
    ∃ row d c, r.findMember m = .ok (row, d) ∧ r.classAt? row = some c ∧
      c.declared? m.sig = some d ∧
      t' = withFound { t with graph := followedGraph t.graph self m.className c.name } row d := by
  cases hfind : r.findMember m with
  | error e => simp [follow, hfind, bind, Except.bind] at hok
  | ok found =>
      obtain ⟨row, d⟩ := found
      obtain ⟨-, c, -, hc, hd⟩ := findMember_ok hfind
      rw [follow_eq hfind hc] at hok
      exact ⟨row, d, c, rfl, hc, hd, (Except.ok.inj hok).symm⟩

theorem withFound_follows (t : Traversal) {row : Nat} {c : Class} {sig : Signature}
    {d : Declaration} (hc : r.classAt? row = some c) (hd : c.declared? sig = some d) :
    Follows r t (withFound t row d) ∧ (withFound t row d).graph = t.graph ∧
      ∀ callee, d = .method callee → callee.isStatic = true →
        (row, callee.sig) ∈ (withFound t row d).found := by
  cases d with
  | field f => exact ⟨.refl r t, rfl, nofun⟩
  | method callee =>
      rw [withFound]
      split
      · rename_i hcond
        have hnew : (row, callee.sig) ∉ t.found := by
          simpa using (Bool.and_eq_true_iff.mp hcond).2
        have hwork := unfound_cons (mem_methodKeys hc (Class.mem_methods_of_declared? hd)) hnew
        refine ⟨⟨⟨id, id, List.mem_cons_of_mem _⟩, ?_, List.mem_cons_of_mem _, ?_⟩, rfl, ?_⟩
        · intro key hkey
          rcases List.mem_cons.mp hkey with rfl | hkey
          · exact .inr List.mem_cons_self
          · exact .inl hkey
        · simp only [List.length_cons]
          omega
        · rintro _ ⟨⟩ _
          exact List.mem_cons_self
      · rename_i hcond
        refine ⟨.refl r t, rfl, ?_⟩
        rintro _ ⟨⟩ hstatic
        simpa [hstatic] using hcond

/-- Following one member. -/
theorem follow_follows {self : Text} {t t' : Traversal} {m : Member}
    (hok : follow r self t m = .ok t') : Follows r t t' ∧ Followed r t' self m := by
  obtain ⟨row, d, c, hfind, hc, hd, rfl⟩ := follow_ok hok
  obtain ⟨hnodes, hedges, hnamed, howner⟩ := followedGraph_spec t.graph self m.className c.name
  obtain ⟨hfollows, hgraph, hfound⟩ := withFound_follows
    { t with graph := followedGraph t.graph self m.className c.name } hc hd
  have hedge : Follows r t { t with graph := followedGraph t.graph self m.className c.name } :=
    ⟨⟨hnodes, hedges, id⟩, .inl, id, Nat.le_refl _⟩
  refine ⟨hedge.trans hfollows, ?_, row, d, c, hfind, hc, ?_, hfound⟩
  · rw [hgraph]
    exact hnamed
  · rw [hgraph]
    exact howner

/-- Following some members, one after the other. -/
theorem foldlM_follows {self : Text} {t t' : Traversal} {ms : List Member}
    (hok : ms.foldlM (follow r self) t = .ok t') :
    Follows r t t' ∧ ∀ m ∈ ms, Followed r t' self m := by
  refine foldlM_accumulates (P := fun done b => Follows r t b ∧ ∀ m ∈ done, Followed r b self m)
    ⟨.refl r t, by simp⟩ ?_ hok
  intro done m b b' _ ⟨hb, hdone⟩ hstep
  obtain ⟨hb', hm⟩ := follow_follows hstep
  refine ⟨hb.trans hb', fun x hx => ?_⟩
  rcases List.mem_append.mp hx with hx | hx
  · exact hb'.followed (hdone x hx)
  · rw [List.mem_singleton.mp hx]
    exact hm

/-! ### Traversing -/

/-- Every method that was found is still to be traversed or has been. -/
def Tracked (r : Registry) (t : Traversal) : Prop :=
  ∀ key ∈ t.found, key ∈ t.pending ∨ Traversed r t key

/-- Traversing one method: the members it refers to are followed. -/
theorem tracked_step {t t' : Traversal} {key : MethodKey} {rest : List MethodKey}
    (h : Tracked r t) (hpending : t.pending = key :: rest)
    (hfollows : Follows r { t with pending := rest } t') (hkey : Traversed r t' key) :
    Tracked r t' := by
  intro other hother
  rcases hfollows.waiting hother with hfound | hwaits
  · rcases h other hfound with hin | hdone
    · rw [hpending] at hin
      rcases List.mem_cons.mp hin with rfl | hin
      · exact .inr hkey
      · exact .inl (hfollows.pending hin)
    · have hstart : Extends r t { t with pending := rest } := ⟨id, id, id⟩
      exact .inr ((hstart.trans hfollows.toExtends).traversed hdone)
  · exact .inl hwaits

/-- A traversal with enough fuel ends with every method that was found traversed. -/
theorem traverse_traversed {fuel : Nat} {t t' : Traversal} (h : Tracked r t)
    (hfuel : t.pending.length + unfound r t.found ≤ fuel) (hok : traverse r fuel t = .ok t') :
    Extends r t t' ∧ t'.pending = [] ∧ ∀ key ∈ t'.found, Traversed r t' key := by
  induction fuel generalizing t with
  | zero =>
      cases hok
      have hnil : t'.pending = [] := List.eq_nil_of_length_eq_zero (by omega)
      refine ⟨.refl r t', hnil, fun key hkey => (h key hkey).resolve_left ?_⟩
      simp [hnil]
  | succ fuel ih =>
      unfold traverse at hok
      split at hok
      · rename_i hnil
        cases hok
        refine ⟨.refl r t', hnil, fun key hkey => (h key hkey).resolve_left ?_⟩
        simp [hnil]
      · rename_i row sig rest hpending
        have hlen : t.pending.length = rest.length + 1 := by rw [hpending, List.length_cons]
        have hnext : ∀ {t₁}, Follows r { t with pending := rest } t₁ → Traversed r t₁ (row, sig) →
            traverse r fuel t₁ = .ok t' →
            Extends r t t' ∧ t'.pending = [] ∧ ∀ key ∈ t'.found, Traversed r t' key := by
          intro t₁ hfollows hkey hok₁
          have hwork := hfollows.work
          dsimp only at hwork
          obtain ⟨hext, hdone⟩ := ih (tracked_step h hpending hfollows hkey) (by omega) hok₁
          have hstart : Extends r t { t with pending := rest } := ⟨id, id, id⟩
          exact ⟨(hstart.trans hfollows.toExtends).trans hext, hdone⟩
        dsimp only at hok
        split at hok
        · rename_i hc
          refine hnext (.refl r _) ?_ hok
          intro c m hc' _
          cases hc.symm.trans hc'
        · rename_i c hc
          split at hok
          · rename_i hm
            refine hnext (.refl r _) ?_ hok
            intro c' m hc' hm'
            cases hc.symm.trans hc'
            cases hm.symm.trans hm'
          · rename_i m hm
            obtain ⟨t₁, hfold, hok⟩ := except_bind_ok.mp hok
            obtain ⟨hfollows, hmembers⟩ := foldlM_follows hfold
            refine hnext hfollows ?_ hok
            intro c' m' hc' hm' member hmember
            cases hc.symm.trans hc'
            cases hm.symm.trans hm'
            exact hmembers member (List.mem_reverse.mpr hmember)

/-! ### All initializers -/

/-- Everything that was found has been traversed. -/
structure Settled (r : Registry) (t : Traversal) : Prop where
  pending_eq : t.pending = []
  traversed : ∀ key ∈ t.found, Traversed r t key

/-- The initializer of a class is among what was found. -/
def Covers (t : Traversal) (row : Nat) (c : Class) : Prop :=
  t.graph.has c.name = true ∧ (row, Signature.initializer) ∈ t.found

/-- A class without a kept initializer adds nothing; otherwise the initializer is traversed. -/
theorem addInitializer_ok {t t' : Traversal} {row : Nat} {c : Class}
    (hok : addInitializer r t row c = .ok t') :
    (t' = t ∧ ∀ d, c.declared? Signature.initializer = some d → d.kept = false) ∨
      ∃ m, c.declared? Signature.initializer = some (.method m) ∧
        traverse r (methodCount r + 1)
          { graph := t.graph.addNode c.name, found := (row, m.sig) :: t.found
            pending := [(row, m.sig)] } = .ok t' := by
  unfold addInitializer at hok
  split at hok
  · rename_i hnone
    cases hok
    exact .inl ⟨rfl, fun d hd => by cases hnone.symm.trans hd⟩
  · rename_i d hd
    split at hok
    · rename_i hdropped
      cases hok
      refine .inl ⟨rfl, fun d' hd' => ?_⟩
      cases hd.symm.trans hd'
      simpa using hdropped
    · split at hok
      · cases hok
      · exact .inr ⟨_, hd, except_mapError_ok.mp hok⟩

/-- Adding the initializer of one class. -/
theorem addInitializer_settled {t t' : Traversal} {row : Nat} {c : Class} (h : Settled r t)
    (hok : addInitializer r t row c = .ok t') : Extends r t t' ∧ Settled r t' ∧
      ∀ {d}, c.declared? Signature.initializer = some d → d.kept = true → Covers t' row c := by
  rcases addInitializer_ok hok with ⟨rfl, hdropped⟩ | ⟨m, hd, htraverse⟩
  · refine ⟨.refl r t', h, fun hd hk => ?_⟩
    rw [hdropped _ hd] at hk
    cases hk
  · have hsig : m.sig = Signature.initializer := Class.sig_of_declared? hd
    generalize hstart : Traversal.mk (t.graph.addNode c.name) ((row, m.sig) :: t.found)
      [(row, m.sig)] = start at htraverse
    have hext : Extends r t start := by
      subst hstart
      exact ⟨fun hn => Graph.has_addNode.mpr (.inl hn),
        fun he => by rw [Graph.successors_addNode]; exact he, List.mem_cons_of_mem _⟩
    have htracked : Tracked r start := by
      intro key hkey
      by_cases hself : key = (row, m.sig)
      · subst hself hstart
        exact .inl List.mem_cons_self
      · refine .inr (hext.traversed (h.traversed key ?_))
        subst hstart
        exact (List.mem_cons.mp hkey).resolve_left hself
    have hfuel : start.pending.length + unfound r start.found ≤ methodCount r + 1 := by
      have hlen : start.pending.length = 1 := by subst hstart; rfl
      have hle := unfound_le r start.found
      omega
    obtain ⟨hext', hpending, htraversed⟩ := traverse_traversed htracked hfuel htraverse
    refine ⟨hext.trans hext', ⟨hpending, htraversed⟩,
      fun _ _ => ⟨hext'.nodes ?_, hext'.found ?_⟩⟩
    · subst hstart
      exact Graph.has_addNode.mpr (.inr rfl)
    · subst hstart
      rw [hsig]
      exact List.mem_cons_self

/-- The graph is that of a traversal to which the kept classes are added one after the other. -/
theorem graphOf_ok {g : Graph} : graphOf r = .ok g ↔ ∃ t, r.keptClasses.foldlM
    (fun t p => addInitializer r t p.1 p.2) ({} : Traversal) = .ok t ∧ t.graph = g := by
  refine except_bind_ok.trans (exists_congr fun t => and_congr_right fun _ => ?_)
  exact ⟨Except.ok.inj, congrArg Except.ok⟩

/-- A schedule is the order of the graph. -/
theorem schedule_ok {bootstrap : Text} {order : List Text} : schedule r bootstrap = .ok order ↔
    ∃ g, graphOf r = .ok g ∧ g.order bootstrap = .ok order :=
  except_bind_ok.trans (exists_congr fun _ => and_congr_right fun _ => except_mapError_ok)

/-- The graph of all kept initializers comes from a traversal of everything that they lead to. -/
theorem graphOf_settled {g : Graph} (hok : graphOf r = .ok g) : ∃ t : Traversal, t.graph = g ∧
    Settled r t ∧ ∀ {row c d}, (row, c) ∈ r.keptClasses →
      c.declared? Signature.initializer = some d → d.kept = true → Covers t row c := by
  obtain ⟨t, hfold, rfl⟩ := graphOf_ok.mp hok
  have hall := foldlM_accumulates (P := fun done t => Settled r t ∧ ∀ p ∈ done,
    ∀ {d}, p.2.declared? Signature.initializer = some d → d.kept = true → Covers t p.1 p.2)
    ⟨⟨rfl, by simp⟩, by simp⟩ ?_ hfold
  · exact ⟨t, rfl, hall.1, fun hmem hd hk => hall.2 _ hmem hd hk⟩
  · intro done p t t' _ ⟨ht, hdone⟩ hstep
    obtain ⟨hext, ht', hp⟩ := addInitializer_settled ht hstep
    refine ⟨ht', fun q hq d hd hk => ?_⟩
    rcases List.mem_append.mp hq with hq | hq
    · obtain ⟨hnode, hfound⟩ := hdone q hq hd hk
      exact ⟨hext.nodes hnode, hext.found hfound⟩
    · cases List.mem_singleton.mp hq
      exact hp hd hk

end ClassLinker.InitOrder
