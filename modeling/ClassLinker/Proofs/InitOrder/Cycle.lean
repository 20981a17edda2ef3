import Mathlib.Data.List.Chain
import Mathlib.Data.List.Perm.Subperm
import ClassLinker.Proofs.InitOrder.Canonical

/-! Orders and cycles. The nodes on the path of a visit differ and each has an edge to the one that
was entered after it, so a visit that comes back to its path closes a cycle, and the depth suffices
for every path. A graph has an order exactly if it has no cycle, and otherwise the one that is
reported is a cycle of the graph. -/

namespace ClassLinker

/-- A fold that fails fails in one of its steps. -/
theorem exists_error_of_foldlM {ε α β : Type} {f : β → α → Except ε β} {xs : List α} {b : β} {e : ε}
    (herror : xs.foldlM f b = .error e) : ∃ x ∈ xs, ∃ b', f b' x = .error e := by
  induction xs generalizing b with
  | nil => cases herror
  | cons x xs ih =>
      rw [List.foldlM_cons] at herror
      cases hx : f b x with
      | error e' =>
          rw [hx] at herror
          cases herror
          exact ⟨x, List.mem_cons_self, b, hx⟩
      | ok b₁ =>
          rw [hx] at herror
          obtain ⟨y, hy, hstep⟩ := ih herror
          exact ⟨y, List.mem_cons_of_mem _ hy, hstep⟩

/-- Where `y` stands once in a list, what stands before it is in the part before it. -/
theorem Before.mem_left {before rest : List Text} {x y : Text}
    (hnodup : (before ++ y :: rest).Nodup) (h : Before (before ++ y :: rest) x y) : x ∈ before := by
  obtain ⟨before', rest', hsplit, hmem⟩ := h
  have honce : y ∉ before ∧ y ∉ rest := by
    have hfresh := (List.nodup_cons.mp (List.nodup_middle.mp hnodup)).1
    rwa [List.mem_append, not_or] at hfresh
  obtain ⟨rfl, -⟩ := (List.append_cons_inj_of_notMem honce.1 honce.2).mp hsplit
  exact hmem

namespace Graph

/-! ### Cycles -/

/-- A cycle as it is reported: it follows edges from a node back to that node, and no other node is
on it twice. -/
structure IsCycle (edge : Text → Text → Prop) (name : Text) (cycle : List Text) : Prop where
  two_le_length : 2 ≤ cycle.length
  starts : cycle.head? = some name
  ends : cycle.getLast? = some name
  nodup : cycle.dropLast.Nodup
  follows : cycle.IsChain edge

/-- Who is on a cycle leads to itself. -/
theorem IsCycle.leads {edge : Text → Text → Prop} {name : Text} {cycle : List Text}
    (h : IsCycle edge name cycle) : Relation.TransGen edge name name := by
  obtain ⟨x, y, rest, rfl⟩ : ∃ x y rest, cycle = x :: y :: rest := by
    match cycle, h.two_le_length with
    | x :: y :: rest, _ => exact ⟨x, y, rest, rfl⟩
  obtain rfl : x = name := Option.some.inj h.starts
  obtain ⟨hfirst, hrest⟩ := List.isChain_cons_cons.mp h.follows
  have hlast : (y :: rest).getLast (List.cons_ne_nil _ _) = x := by
    have hends := h.ends
    rw [List.getLast?_eq_getLast_of_ne_nil (List.cons_ne_nil _ _),
      List.getLast_cons (List.cons_ne_nil _ _)] at hends
    exact Option.some.inj hends
  exact .head' hfirst (hlast ▸ List.relationReflTransGen_of_exists_isChain_cons rest hrest rfl)

variable {g : Graph}

/-- A path, latest node first, whose nodes differ, each with an edge to the one before it. -/
structure IsPath (g : Graph) (path : List Text) : Prop where
  nodup : path.Nodup
  follows : path.IsChain fun target source => target ∈ g.successors source
  nodes : ∀ name ∈ path, g.has name = true

theorem isPath_nil (g : Graph) : g.IsPath [] := ⟨List.nodup_nil, .nil, by simp⟩

/-- No path is longer than the graph. -/
theorem IsPath.length_le {path : List Text} (h : g.IsPath path) : path.length ≤ g.size := by
  have hsub : path ⊆ g.adjacency.map Prod.fst := fun name hname => has_iff.mp (h.nodes name hname)
  have hle := (List.subperm_of_subset h.nodup hsub).length_le
  rwa [List.length_map] at hle

/-- A path with one more node. -/
theorem IsPath.cons {path : List Text} {name : Text} (h : g.IsPath path) (hnew : name ∉ path)
    (hnext : ∀ last ∈ path.head?, name ∈ g.successors last) (hnode : g.has name = true) :
    g.IsPath (name :: path) := by
  refine ⟨List.nodup_cons.mpr ⟨hnew, h.nodup⟩, List.isChain_cons.mpr ⟨hnext, h.follows⟩, ?_⟩
  rintro other (_ | ⟨_, hother⟩)
  · exact hnode
  · exact h.nodes other hother

/-- A path that comes back to one of its nodes closes a cycle. -/
theorem IsPath.isCycle {path : List Text} {name : Text} (h : g.IsPath path) (hmem : name ∈ path)
    (hnext : ∀ last ∈ path.head?, name ∈ g.successors last) :
    IsCycle (fun source target => target ∈ g.successors source) name (cycleAt path name) := by
  obtain ⟨between, before, rfl, hfresh⟩ := List.eq_append_cons_of_mem hmem
  have htake : (between ++ name :: before).takeWhile (· ≠ name) = between := by
    rw [List.takeWhile_append_of_pos, List.takeWhile_cons_of_neg (by simp), List.append_nil]
    intro other hother
    have hne : other ≠ name := fun heq => hfresh (heq ▸ hother)
    simpa using hne
  have hcycle : cycleAt (between ++ name :: before) name =
      name :: (between.reverse ++ [name]) := by
    rw [cycleAt, htake]
  -- Backwards, the cycle is the part of the path up to the node, with the node in front.
  have hreverse : (name :: (between.reverse ++ [name])).reverse = name :: (between ++ [name]) := by
    rw [List.reverse_cons, List.reverse_append, List.reverse_reverse, List.reverse_singleton,
      List.singleton_append, List.cons_append]
  have hclosed : (name :: (between ++ name :: before)).IsChain fun target source =>
      target ∈ g.successors source := List.isChain_cons.mpr ⟨hnext, h.follows⟩
  have hpart : name :: (between ++ name :: before) = (name :: (between ++ [name])) ++ before := by
    rw [List.cons_append, List.append_assoc, List.singleton_append]
  rw [hcycle]
  refine ⟨by simp, rfl, ?_, ?_, ?_⟩
  · rw [← List.cons_append, List.getLast?_concat]
  · rw [← List.cons_append, List.dropLast_concat, List.nodup_cons, List.mem_reverse,
      List.nodup_reverse]
    exact ⟨hfresh, (List.nodup_append.mp h.nodup).1⟩
  · rw [← List.isChain_reverse, hreverse]
    exact (hpart ▸ hclosed).left_of_append

/-! ### Visits -/

/-- A visit that fails has found a cycle, if its depth covers the nodes that are not on its path. -/
theorem visit_error {depth : Nat} {path done : List Text} {name : Text} {e : Error}
    (hproper : g.Proper) (hpath : g.IsPath path)
    (hnext : ∀ last ∈ path.head?, name ∈ g.successors last) (hnode : g.has name = true)
    (hdepth : path.length + depth = g.size + 1) (herror : g.visit depth path done name = .error e) :
    ∃ name cycle, e = .cyclic name cycle ∧
      IsCycle (fun source target => target ∈ g.successors source) name cycle := by
  induction depth generalizing path done name with
  | zero =>
      have := hpath.length_le
      omega
  | succ depth ih =>
      unfold visit at herror
      split at herror
      · cases herror
      split at herror
      · rename_i hmem
        cases herror
        exact ⟨name, _, rfl, hpath.isCycle (by simpa using hmem) hnext⟩
      rename_i hnew
      have hnew : name ∉ path := by simpa using hnew
      have hlonger : g.IsPath (name :: path) := hpath.cons hnew hnext hnode
      cases hfold : (g.successors name).foldlM (visit g depth (name :: path)) done with
      | ok done' => rw [hfold] at herror; cases herror
      | error e' =>
          rw [hfold] at herror
          cases herror
          obtain ⟨next, hmem, done', hstep⟩ := exists_error_of_foldlM hfold
          refine ih hlonger ?_ (hproper.closed hmem) ?_ hstep
          · intro last hlast
            cases Option.some.inj hlast
            exact hmem
          · rw [List.length_cons]
            omega

/-- A visit lists only what its node leads to. -/
theorem reachable_of_visit {depth : Nat} {path done done' : List Text} {name other : Text}
    (hok : g.visit depth path done name = .ok done') (hmem : other ∈ done') :
    other ∈ done ∨ Relation.ReflTransGen (fun a b => b ∈ g.successors a) name other := by
  induction depth generalizing path done done' name other with
  | zero => cases hok
  | succ depth ih =>
      unfold visit at hok
      split at hok
      · cases hok
        exact .inl hmem
      split at hok
      · cases hok
      obtain ⟨done₁, hfold, ⟨⟩⟩ := except_bind_ok.mp hok
      rcases List.mem_append.mp hmem with hmem | hmem
      · refine foldlM_accumulates (P := fun _ visited => ∀ other ∈ visited, other ∈ done ∨
          Relation.ReflTransGen (fun a b => b ∈ g.successors a) name other)
          (fun _ hother => .inl hother) ?_ hfold other hmem
        intro _ next visited visited' hnext hvisited hstep other hother
        rcases ih hstep hother with hold | hleads
        · exact hvisited other hold
        · exact .inr (.head hnext hleads)
      · rw [List.mem_singleton.mp hmem]
        exact .inr .refl

/-! ### Graphs by what was added -/

/-- One addition to a graph. -/
inductive Addition where
  | node (name : Text)
  | edge (source target : Text)
deriving DecidableEq, Repr

/-- A graph after one more addition. -/
def add (g : Graph) : Addition → Graph
  | .node name => g.addNode name
  | .edge source target => g.addEdge source target

/-- The graph that additions lead to. -/
def ofAdditions (additions : List Addition) : Graph := additions.foldl add {}

/-- The edges among some additions. -/
def Edge (additions : List Addition) (source target : Text) : Prop :=
  .edge source target ∈ additions

/-- The nodes among some additions: those added as nodes and the two ends of every edge. -/
def Node (additions : List Addition) (name : Text) : Prop :=
  .node name ∈ additions ∨ ∃ other, Edge additions name other ∨ Edge additions other name

/-- No node leads back to itself. An edge from a node to itself is a cycle. -/
def Acyclic (additions : List Addition) : Prop :=
  ∀ name, ¬ Relation.TransGen (Edge additions) name name

theorem ofAdditions_snoc (additions : List Addition) (last : Addition) :
    ofAdditions (additions ++ [last]) = (ofAdditions additions).add last := by
  rw [ofAdditions, List.foldl_append, List.foldl_cons, List.foldl_nil, ofAdditions]

theorem proper_ofAdditions (additions : List Addition) : (ofAdditions additions).Proper := by
  induction additions using List.reverseRecOn with
  | nil => exact proper_empty
  | append_singleton additions last ih =>
      rw [ofAdditions_snoc]
      cases last with
      | node name => exact ih.addNode name
      | edge source target => exact ih.addEdge source target

/-- The successors of a node are the ends of its edges. -/
theorem mem_successors_ofAdditions {additions : List Addition} {source target : Text} :
    target ∈ (ofAdditions additions).successors source ↔ Edge additions source target := by
  induction additions using List.reverseRecOn with
  | nil => simp [ofAdditions, Edge, mem_successors]
  | append_singleton additions last ih =>
      rw [ofAdditions_snoc, Edge, List.mem_append, List.mem_singleton]
      cases last with
      | node name => simp only [add, successors_addNode, ih, Edge, reduceCtorEq, or_false]
      | edge a b => simp only [add, mem_successors_addEdge, ih, Edge, Addition.edge.injEq]

theorem edge_ofAdditions (additions : List Addition) :
    (fun source target => target ∈ (ofAdditions additions).successors source) = Edge additions :=
  funext fun _ => funext fun _ => propext mem_successors_ofAdditions

/-- The nodes of a graph are those that were added, alone or with an edge. -/
theorem has_ofAdditions {additions : List Addition} {name : Text} :
    (ofAdditions additions).has name = true ↔ Node additions name := by
  induction additions using List.reverseRecOn with
  | nil => simp [ofAdditions, Node, Edge, has]
  | append_singleton additions last ih =>
      rw [ofAdditions_snoc]
      cases last with
      | node other =>
          simp only [add, has_addNode, ih, Node, Edge, List.mem_append, List.mem_singleton,
            Addition.node.injEq, reduceCtorEq, or_false]
          exact or_right_comm
      | edge a b =>
          simp only [add, has_addEdge, ih, Node, Edge, List.mem_append, List.mem_singleton,
            Addition.edge.injEq, reduceCtorEq, or_false]
          grind

/-- What an order of a graph is: it lists every node once and after all its successors, and what it
lists before `first`, if that is a node, is what `first` leads to. -/
structure IsOrder (additions : List Addition) (first : Text) (order : List Text) : Prop where
  nodup : order.Nodup
  nodes : ∀ {name}, name ∈ order ↔ Node additions name
  after : ∀ {source target}, Edge additions source target → Before order target source
  first : Node additions first → ∃ before rest, order = before ++ first :: rest ∧
    ∀ {name}, name ∈ before ↔ name ≠ first ∧ Relation.ReflTransGen (Edge additions) first name

/-- An order begins with a visit to its first node. -/
theorem exists_visit_of_order {first : Text} {order : List Text} (hfirst : g.has first = true)
    (hok : g.order first = .ok order) :
    ∃ done, g.visit (g.size + 1) [] [] first = .ok done ∧ done <+: order := by
  unfold Graph.order at hok
  rw [if_pos hfirst, List.foldlM_cons] at hok
  obtain ⟨done, hvisit, hok⟩ := except_bind_ok.mp hok
  obtain ⟨hstart, -⟩ := visit_visits (.nil g) hvisit
  have hrest := visits_foldlM (fun hdone hok => visit_visits hdone hok) hstart.ordered hok
  exact ⟨done, hvisit, hrest.1.grows⟩

/-- Visits start at nodes. -/
theorem has_of_start {first name : Text}
    (hmem : name ∈ if g.has first then first :: g.nodes else g.nodes) : g.has name = true := by
  split at hmem
  · rename_i hfirst
    rcases List.mem_cons.mp hmem with rfl | hmem
    · exact hfirst
    · exact mem_nodes.mp hmem
  · exact mem_nodes.mp hmem

/-- What a node leads to are nodes. -/
theorem Proper.has_of_reachable (h : g.Proper) {name other : Text} (hname : g.has name = true)
    (hleads : Relation.ReflTransGen (fun a b => b ∈ g.successors a) name other) :
    g.has other = true := by
  induction hleads with
  | refl => exact hname
  | tail _ hnext _ => exact h.closed hnext

/-- An order lists nodes only. -/
theorem has_of_mem_order (hproper : g.Proper) {first name : Text} {order : List Text}
    (hok : g.order first = .ok order) (hmem : name ∈ order) : g.has name = true := by
  unfold Graph.order at hok
  refine foldlM_accumulates (P := fun _ visited => ∀ name ∈ visited, g.has name = true)
    (by simp) ?_ hok name hmem
  intro _ start visited visited' hstart hvisited hvisit other hother
  rcases reachable_of_visit hvisit hother with hold | hleads
  · exact hvisited other hold
  · exact hproper.has_of_reachable (has_of_start hstart) hleads

/-- A graph without an order has a cycle, which is reported. -/
theorem order_error (hproper : g.Proper) {first : Text} {e : Error}
    (herror : g.order first = .error e) : ∃ name cycle, e = .cyclic name cycle ∧
      IsCycle (fun source target => target ∈ g.successors source) name cycle := by
  unfold Graph.order at herror
  obtain ⟨start, hstart, done, hvisit⟩ := exists_error_of_foldlM herror
  exact visit_error hproper (isPath_nil g) (by simp) (has_of_start hstart) (by simp) hvisit

/-- What an order of a graph says about the graph. -/
theorem isOrder_of_order {additions : List Addition} {first : Text} {order : List Text}
    (hok : (ofAdditions additions).order first = .ok order) : IsOrder additions first order := by
  have hproper := proper_ofAdditions additions
  obtain ⟨hordered, hall⟩ := order_ordered hok
  have hedge := edge_ofAdditions additions
  have hbefore : ∀ {source target}, source ∈ order →
      Relation.TransGen (Edge additions) source target → Before order target source := by
    intro source target hsource hleads
    exact hordered.before hsource (hedge ▸ hleads)
  have hnodes : ∀ {name}, name ∈ order ↔ Node additions name :=
    ⟨fun hmem => has_ofAdditions.mp (has_of_mem_order hproper hok hmem),
      fun hnode => hall (has_ofAdditions.mpr hnode)⟩
  refine ⟨hordered.nodup, hnodes, fun {source target} hsource => ?_, fun hfirst => ?_⟩
  · exact hbefore (hnodes.mpr (.inr ⟨target, .inl hsource⟩)) (.single hsource)
  · obtain ⟨done, hvisit, after, rfl⟩ := exists_visit_of_order (has_ofAdditions.mpr hfirst) hok
    obtain ⟨before, rest, rfl⟩ := List.append_of_mem (visit_visits (.nil _) hvisit).2
    have hsplit : before ++ first :: rest ++ after = before ++ first :: (rest ++ after) := by
      rw [List.append_assoc, List.cons_append]
    have hnodup : (before ++ first :: (rest ++ after)).Nodup := hsplit ▸ hordered.nodup
    refine ⟨before, rest ++ after, hsplit, fun {name} => ⟨fun hmem => ⟨?_, ?_⟩, ?_⟩⟩
    · exact (List.nodup_append.mp hnodup).2.2 name hmem first List.mem_cons_self
    · rcases reachable_of_visit hvisit (List.mem_append_left _ hmem) with hold | hleads
      · cases hold
      · exact hedge ▸ hleads
    · rintro ⟨hne, hleads⟩
      rcases Relation.reflTransGen_iff_eq_or_transGen.mp hleads with heq | hleads
      · exact absurd heq hne
      have hstands := hbefore (hnodes.mpr hfirst) hleads
      rw [hsplit] at hstands
      exact hstands.mem_left hnodup

/-- A graph has an order exactly if no node leads back to itself, and otherwise the cycle that is
reported is one of the graph. -/
theorem order_correct (additions : List Addition) (first : Text) :
    match (ofAdditions additions).order first with
    | .ok order => Acyclic additions ∧ IsOrder additions first order
    | .error e => ¬ Acyclic additions ∧
        ∃ name cycle, e = .cyclic name cycle ∧ IsCycle (Edge additions) name cycle := by
  have hedge := edge_ofAdditions additions
  cases hok : (ofAdditions additions).order first with
  | ok order =>
      have horder := isOrder_of_order hok
      refine ⟨fun name hcycle => ?_, horder⟩
      -- A node on a cycle would stand before itself.
      obtain ⟨hordered, hall⟩ := order_ordered hok
      obtain ⟨other, hfirst, -⟩ := Relation.TransGen.head'_iff.mp hcycle
      have hmem := horder.nodes.mpr (.inr ⟨other, .inl hfirst⟩)
      obtain ⟨before, rest, rfl, hbefore⟩ := hordered.before hmem (hedge ▸ hcycle)
      exact (List.nodup_append.mp horder.nodup).2.2 name hbefore name List.mem_cons_self rfl
  | error e =>
      obtain ⟨name, cycle, rfl, hcycle⟩ := order_error (proper_ofAdditions additions) hok
      rw [hedge] at hcycle
      exact ⟨fun hacyclic => hacyclic name hcycle.leads, name, cycle, rfl, hcycle⟩

end Graph

end ClassLinker
