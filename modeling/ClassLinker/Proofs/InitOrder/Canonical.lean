import ClassLinker.Proofs.InitOrder.Traverse

/-! An order depends on nothing but the nodes and the edges of its graph. Nodes and successors are
visited in name order, and the graph of the initializers lists each of them once, so two such graphs
with the same nodes and the same edges have the same order, or none. -/

namespace ClassLinker

namespace Text

theorem le_trans {a b c : Text} (hab : le a b = true) (hbc : le b c = true) : le a c = true := by
  induction a generalizing b c with
  | nil => rfl
  | cons x a ih =>
      cases b with
      | nil => cases hab
      | cons y b =>
          cases c with
          | nil => cases hbc
          | cons z c =>
              simp only [le, Bool.or_eq_true, decide_eq_true_eq, Bool.and_eq_true] at hab hbc ⊢
              rcases hab with hxy | ⟨rfl, hab⟩
              · rcases hbc with hyz | ⟨rfl, -⟩
                · exact .inl (UInt8.lt_trans hxy hyz)
                · exact .inl hxy
              · exact hbc.imp_right fun h => ⟨h.1, ih hab h.2⟩

theorem le_total (a b : Text) : (le a b || le b a) = true := by
  induction a generalizing b with
  | nil => rfl
  | cons x a ih =>
      cases b with
      | nil => rfl
      | cons y b =>
          have := ih b
          simp only [le, Bool.or_eq_true, decide_eq_true_eq, Bool.and_eq_true] at this ⊢
          by_cases hxy : x = y
          · exact this.imp (fun h => .inr ⟨hxy, h⟩) fun h => .inr ⟨hxy.symm, h⟩
          · exact (UInt8.lt_or_lt_of_ne hxy).imp .inl .inl

theorem le_antisymm {a b : Text} (hab : le a b = true) (hba : le b a = true) : a = b := by
  induction a generalizing b with
  | nil =>
      cases b with
      | nil => rfl
      | cons y b => cases hba
  | cons x a ih =>
      cases b with
      | nil => cases hab
      | cons y b =>
          simp only [le, Bool.or_eq_true, decide_eq_true_eq, Bool.and_eq_true] at hab hba
          rcases hab with hlt | ⟨rfl, hab⟩
          · rcases hba with hgt | ⟨rfl, -⟩
            · exact absurd hgt (UInt8.lt_asymm hlt)
            · exact absurd hlt (UInt8.lt_irrefl _)
          · rw [ih hab (hba.resolve_left (UInt8.lt_irrefl _)).2]

/-- Sorting forgets the order in which different texts were listed. -/
theorem sort_eq_of_mem_iff {ts ts' : List Text} (hnodup : ts.Nodup) (hnodup' : ts'.Nodup)
    (h : ∀ t, t ∈ ts ↔ t ∈ ts') : sort ts = sort ts' := by
  have hperm : (sort ts).Perm (sort ts') :=
    (List.mergeSort_perm ts le).trans (((List.perm_ext_iff_of_nodup hnodup hnodup').mpr h).trans
      (List.mergeSort_perm ts' le).symm)
  have hsorted : ∀ ts, (sort ts).Pairwise fun a b => le a b = true :=
    List.pairwise_mergeSort (fun _ _ _ => le_trans) le_total
  exact hperm.eq_of_pairwise (fun _ _ _ _ hab hba => le_antisymm hab hba) (hsorted ts) (hsorted ts')

end Text

namespace Graph

/-- A graph that lists every node and every edge once, and has both ends of its edges as nodes. -/
structure Proper (g : Graph) : Prop where
  nodes_nodup : (g.adjacency.map Prod.fst).Nodup
  targets_nodup : ∀ e ∈ g.adjacency, e.2.Nodup
  closed : ∀ {name next}, next ∈ g.successors name → g.has next = true

/-- `g'` has the nodes and the edges of `g`. -/
structure Within (g g' : Graph) : Prop where
  nodes : ∀ {name}, g.has name = true → g'.has name = true
  edges : ∀ {name next}, next ∈ g.successors name → next ∈ g'.successors name

variable {g g' : Graph}

theorem proper_empty : Proper {} := ⟨List.nodup_nil, by simp, by simp [mem_successors]⟩

theorem mem_of_lookup {name : Text} {targets : List Text}
    (h : g.adjacency.lookup name = some targets) : (name, targets) ∈ g.adjacency := by
  obtain ⟨before, after, hsplit, -⟩ := List.lookup_eq_some_iff.mp h
  rw [hsplit]
  exact List.mem_append_right before List.mem_cons_self

theorem has_of_successor {name next : Text} (h : next ∈ g.successors name) : g.has name = true := by
  obtain ⟨targets, htargets, -⟩ := mem_successors.mp h
  exact has_iff.mpr (List.mem_map.mpr ⟨_, mem_of_lookup htargets, rfl⟩)

theorem Proper.addNode (h : g.Proper) (name : Text) : (g.addNode name).Proper := by
  refine ⟨?_, ?_, fun hnext => ?_⟩
  · unfold Graph.addNode
    split
    · exact h.nodes_nodup
    · rename_i hnew
      rw [List.map_append, List.map_cons, List.map_nil, ← List.concat_eq_append]
      exact h.nodes_nodup.concat fun hmem => hnew (has_iff.mpr hmem)
  · unfold Graph.addNode
    split
    · exact h.targets_nodup
    · intro e he
      rcases List.mem_append.mp he with he | he
      · exact h.targets_nodup e he
      · rw [List.mem_singleton.mp he]
        exact List.nodup_nil
  · rw [successors_addNode] at hnext
    exact has_addNode.mpr (.inl (h.closed hnext))

theorem Proper.addEdge (h : g.Proper) (source target : Text) : (g.addEdge source target).Proper := by
  have hends := (h.addNode source).addNode target
  refine ⟨?_, fun e he => ?_, fun hnext => ?_⟩
  · rw [addEdge_eq, List.map_map]
    exact hends.nodes_nodup
  · rw [addEdge_eq] at he
    obtain ⟨e₀, he₀, rfl⟩ := List.mem_map.mp he
    have hnodup := hends.targets_nodup e₀ he₀
    dsimp only
    split
    · rename_i hcond
      have hnew : target ∉ e₀.2 := by
        simp only [Bool.and_eq_true, Bool.not_eq_true'] at hcond
        simpa using hcond.2
      rw [← List.concat_eq_append]
      exact hnodup.concat hnew
    · exact hnodup
  · rw [has_addEdge]
    rcases mem_successors_addEdge.mp hnext with hold | ⟨-, rfl⟩
    · exact .inl (h.closed hold)
    · exact .inr (.inr rfl)

theorem Proper.successors_eq (h : g.Proper) (h' : g'.Proper) (hle : g.Within g')
    (hge : g'.Within g) (name : Text) : g.successors name = g'.successors name := by
  have hnodup : ∀ {g : Graph}, g.Proper → ((g.adjacency.lookup name).getD []).Nodup := by
    intro g hg
    cases htargets : g.adjacency.lookup name with
    | none => exact List.nodup_nil
    | some targets => exact hg.targets_nodup _ (mem_of_lookup htargets)
  refine Text.sort_eq_of_mem_iff (hnodup h) (hnodup h') fun next => ?_
  have hiff : next ∈ g.successors name ↔ next ∈ g'.successors name := ⟨hle.edges, hge.edges⟩
  simpa only [successors, Text.sort, List.mem_mergeSort] using hiff

theorem Proper.nodes_eq (h : g.Proper) (h' : g'.Proper) (hle : g.Within g')
    (hge : g'.Within g) : g.nodes = g'.nodes := by
  refine Text.sort_eq_of_mem_iff h.nodes_nodup h'.nodes_nodup fun name => ?_
  rw [← has_iff, ← has_iff]
  exact ⟨hle.nodes, hge.nodes⟩

theorem visit_congr (h : ∀ name, g.successors name = g'.successors name) (depth : Nat)
    (path : List Text) : g.visit depth path = g'.visit depth path := by
  induction depth generalizing path with
  | zero => rfl
  | succ depth ih =>
      funext done name
      rw [visit, visit, h name, ih]

/-- Graphs with the same nodes and the same edges have the same order. -/
theorem Proper.order_eq (h : g.Proper) (h' : g'.Proper) (hle : g.Within g')
    (hge : g'.Within g) (first : Text) : g.order first = g'.order first := by
  have hnodes := h.nodes_eq h' hle hge
  have hsize : g.size = g'.size := by
    simpa [nodes, Text.sort, size, List.length_mergeSort] using congrArg List.length hnodes
  have hhas : g.has first = g'.has first := Bool.eq_iff_iff.mpr ⟨hle.nodes, hge.nodes⟩
  unfold order
  rw [hnodes, hsize, hhas, visit_congr (h.successors_eq h' hle hge)]

end Graph

/-! ### The graph of the initializers -/

namespace InitOrder

open Registry

variable {r : Registry} {P : Graph → Prop}

theorem followedGraph_preserves (hedge : ∀ {g a b}, P g → P (g.addEdge a b)) {g : Graph}
    (h : P g) (self target owner : Text) : P (followedGraph g self target owner) := by
  have hdepend : ∀ {g a b}, P g → P (depend g a b) := by
    intro g a b hg
    unfold depend
    split
    · exact hg
    · exact hedge hg
  unfold followedGraph
  split
  · exact hdepend h
  · exact hdepend (hdepend h)

theorem follow_preserves (hedge : ∀ {g a b}, P g → P (g.addEdge a b)) {self : Text}
    {t t' : Traversal} {m : Member} (h : P t.graph) (hok : follow r self t m = .ok t') :
    P t'.graph := by
  obtain ⟨row, d, c, -, hc, hd, rfl⟩ := follow_ok hok
  rw [(withFound_follows _ hc hd).2.1]
  exact followedGraph_preserves hedge h _ _ _

theorem traverse_preserves (hedge : ∀ {g a b}, P g → P (g.addEdge a b)) {fuel : Nat}
    {t t' : Traversal} (h : P t.graph) (hok : traverse r fuel t = .ok t') : P t'.graph := by
  fun_induction traverse r fuel t with
  | case1 t => cases hok; exact h
  | case2 fuel t hpending => cases hok; exact h
  | case3 fuel t row sig rest hpending t₀ hc ih => exact ih h hok
  | case4 fuel t row sig rest hpending t₀ c hc hm ih => exact ih h hok
  | case5 fuel t row sig rest hpending t₀ c hc m hm ih =>
      obtain ⟨t₁, hfold, hok⟩ := except_bind_ok.mp hok
      refine ih t₁ ?_ hok
      exact foldlM_accumulates (P := fun _ u => P u.graph) h
        (fun _ _ _ _ _ hu hstep => follow_preserves hedge hu hstep) hfold

theorem addInitializer_preserves (hnode : ∀ {g a}, P g → P (g.addNode a))
    (hedge : ∀ {g a b}, P g → P (g.addEdge a b)) {t t' : Traversal} {row : Nat} {c : Class}
    (h : P t.graph) (hok : addInitializer r t row c = .ok t') : P t'.graph := by
  rcases addInitializer_ok hok with ⟨rfl, -⟩ | ⟨m, -, htraverse⟩
  · exact h
  · exact traverse_preserves hedge (hnode h) htraverse

/-- What adding nodes and edges preserves holds of the graph of the initializers. -/
theorem graphOf_preserves (hempty : P {}) (hnode : ∀ {g a}, P g → P (g.addNode a))
    (hedge : ∀ {g a b}, P g → P (g.addEdge a b)) {g : Graph} (hok : graphOf r = .ok g) : P g := by
  obtain ⟨t, hfold, rfl⟩ := graphOf_ok.mp hok
  exact foldlM_accumulates (P := fun _ u => P u.graph) hempty
    (fun _ _ _ _ _ hu hstep => addInitializer_preserves hnode hedge hu hstep) hfold

theorem graphOf_proper {g : Graph} (hok : graphOf r = .ok g) : g.Proper :=
  graphOf_preserves Graph.proper_empty (fun h => h.addNode _) (fun h => h.addEdge _ _) hok

end InitOrder

end ClassLinker
