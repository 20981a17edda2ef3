import Mathlib.Data.List.Nodup
import Mathlib.Logic.Relation
import ClassLinker.InitOrder.Graph

/-! Orders of the initialization graph. The nodes that a visit lists are listed once and after all
their successors; a node on the path of a visit is not listed before the visit ends. So an order
has every node after everything that the node leads to. -/

namespace ClassLinker

section Except

variable {ε ε' α β : Type}

theorem except_bind_ok {x : Except ε α} {f : α → Except ε β} {b : β} :
    (x >>= f) = .ok b ↔ ∃ a, x = .ok a ∧ f a = .ok b := by
  cases x with
  | error e => simp [bind, Except.bind]
  | ok a => simp [bind, Except.bind]

theorem except_mapError_ok {x : Except ε α} {f : ε → ε'} {a : α} :
    x.mapError f = .ok a ↔ x = .ok a := by
  cases x <;> simp [Except.mapError]

end Except

/-- What holds after some steps over a list holds after all of them, if each step that succeeds
carries it on. -/
theorem foldlM_accumulates {ε α β : Type} {f : β → α → Except ε β} {P : List α → β → Prop}
    {xs : List α} {b b' : β} (hstart : P [] b)
    (hstep : ∀ done x b b', x ∈ xs → P done b → f b x = .ok b' → P (done ++ [x]) b')
    (hok : xs.foldlM f b = .ok b') : P xs b' := by
  induction xs generalizing b P with
  | nil =>
      cases hok
      exact hstart
  | cons x xs ih =>
      rw [List.foldlM_cons] at hok
      obtain ⟨b₁, hx, hok⟩ := except_bind_ok.mp hok
      refine ih (P := fun done b => P (x :: done) b)
        (hstep [] x b b₁ List.mem_cons_self hstart hx) ?_ hok
      intro done y c c' hy hP hc
      exact hstep (x :: done) y c c' (List.mem_cons_of_mem _ hy) hP hc

/-- A fold succeeds when each step does wherever the ones before it may have led. -/
theorem foldlM_succeeds {ε α β : Type} {f : β → α → Except ε β} {P : β → Prop} {xs : List α} {b : β}
    (hstep : ∀ x ∈ xs, ∀ b, P b → ∃ b', f b x = .ok b' ∧ P b') (hb : P b) :
    ∃ b', xs.foldlM f b = .ok b' ∧ P b' := by
  induction xs generalizing b with
  | nil => exact ⟨b, rfl, hb⟩
  | cons x xs ih =>
      obtain ⟨b₁, hb₁, hP₁⟩ := hstep x List.mem_cons_self b hb
      obtain ⟨b', hb', hP'⟩ := ih (fun y hy => hstep y (List.mem_cons_of_mem _ hy)) hP₁
      refine ⟨b', ?_, hP'⟩
      rw [List.foldlM_cons, hb₁]
      exact hb'

/-- `x` stands in a list before an occurrence of `y`. -/
def Before (xs : List Text) (x y : Text) : Prop := ∃ before after, xs = before ++ y :: after ∧ x ∈ before

/-- `x` is `y` or stands in a list before it. -/
def AtOrBefore (xs : List Text) (x y : Text) : Prop := x = y ∨ Before xs x y

namespace Graph

variable {g : Graph}

theorem mem_successors {name next : Text} :
    next ∈ g.successors name ↔ ∃ targets, g.adjacency.lookup name = some targets ∧ next ∈ targets := by
  unfold successors Text.sort
  rw [List.mem_mergeSort]
  cases g.adjacency.lookup name <;> simp

theorem has_iff {name : Text} : g.has name = true ↔ name ∈ g.adjacency.map Prod.fst := by
  simp [has]

/-! ### Adding nodes and edges -/

theorem has_addNode {name other : Text} :
    (g.addNode name).has other = true ↔ g.has other = true ∨ other = name := by
  unfold addNode
  split
  · rename_i h
    refine ⟨Or.inl, ?_⟩
    rintro (hother | rfl)
    · exact hother
    · exact h
  · rw [has_iff, has_iff]
    simp

theorem successors_addNode (name other : Text) :
    (g.addNode name).successors other = g.successors other := by
  unfold addNode
  split
  · rfl
  · rename_i h
    unfold successors
    rw [List.lookup_append]
    cases hother : g.adjacency.lookup other with
    | some targets => rfl
    | none =>
        by_cases heq : other = name
        · subst heq
          simp
        · have hne : (other == name) = false := by simpa using heq
          simp [List.lookup_cons, hne]

theorem lookup_map_snd {α β : Type} [BEq α] [LawfulBEq α] (entries : List (α × β)) (f : α → β → β)
    (k : α) : (entries.map fun e => (e.1, f e.1 e.2)).lookup k = (entries.lookup k).map (f k) := by
  induction entries with
  | nil => rfl
  | cons e entries ih =>
      obtain ⟨k', v⟩ := e
      by_cases h : k = k'
      · subst h
        simp
      · have hne : (k == k') = false := by simpa using h
        rw [List.map_cons, List.lookup_cons, List.lookup_cons, hne, ih]

theorem mem_lookup_of_has {name : Text} (h : g.has name = true) :
    ∃ targets, g.adjacency.lookup name = some targets := by
  rw [has_iff] at h
  cases hl : g.adjacency.lookup name with
  | some targets => exact ⟨targets, rfl⟩
  | none =>
      obtain ⟨e, he, rfl⟩ := List.mem_map.mp h
      have := List.lookup_eq_none_iff.mp hl e he
      simp at this

/-- The graph with an entry for each end of an edge, before the edge is added. -/
theorem addEdge_eq (g : Graph) (source target : Text) : (g.addEdge source target).adjacency =
    ((g.addNode source).addNode target).adjacency.map fun e =>
      (e.1, if e.1 = source && !e.2.contains target then e.2 ++ [target] else e.2) := by
  unfold addEdge
  refine List.map_congr_left fun ⟨name, targets⟩ _ => ?_
  dsimp only
  split <;> rfl

theorem has_addEdge {source target other : Text} : (g.addEdge source target).has other = true ↔
    g.has other = true ∨ other = source ∨ other = target := by
  rw [has_iff, addEdge_eq, List.map_map]
  have hfst : (Prod.fst ∘ fun e : Text × List Text =>
      (e.1, if e.1 = source && !e.2.contains target then e.2 ++ [target] else e.2)) = Prod.fst := rfl
  rw [hfst, ← has_iff, has_addNode, has_addNode, or_assoc]

theorem mem_successors_addEdge {source target name next : Text} :
    next ∈ (g.addEdge source target).successors name ↔
      next ∈ g.successors name ∨ name = source ∧ next = target := by
  set g₁ := (g.addNode source).addNode target with hg₁
  have hold : next ∈ g.successors name ↔ next ∈ g₁.successors name := by
    rw [hg₁, successors_addNode, successors_addNode]
  have hlookup : (g.addEdge source target).adjacency.lookup name =
      (g₁.adjacency.lookup name).map fun targets =>
        if name = source && !targets.contains target then targets ++ [target] else targets := by
    rw [addEdge_eq]
    exact lookup_map_snd _ (fun n targets =>
      if n = source && !targets.contains target then targets ++ [target] else targets) name
  rw [hold, mem_successors, mem_successors, hlookup]
  by_cases hname : name = source
  · subst hname
    have hhas : g₁.has name = true := by
      rw [hg₁, has_addNode, has_addNode]
      exact .inl (.inr rfl)
    obtain ⟨targets, htargets⟩ := mem_lookup_of_has hhas
    by_cases hmem : target ∈ targets
    · have hsame : next = target → next ∈ targets := fun h => h ▸ hmem
      simpa [htargets, hmem] using hsame
    · simp [htargets, hmem]
  · simp [hname]

/-! ### Visits -/

/-- The listed nodes are listed once, each after all its successors. -/
structure Ordered (g : Graph) (done : List Text) : Prop where
  nodup : done.Nodup
  after : ∀ {before name rest}, done = before ++ name :: rest →
    ∀ next ∈ g.successors name, next ∈ before

theorem Ordered.nil (g : Graph) : g.Ordered [] := by
  refine ⟨List.nodup_nil, fun h => ?_⟩
  simp at h

/-- One more node, whose successors are all listed. -/
theorem Ordered.snoc {done : List Text} {name : Text} (h : g.Ordered done) (hnew : name ∉ done)
    (hsucc : ∀ next ∈ g.successors name, next ∈ done) : g.Ordered (done ++ [name]) := by
  refine ⟨List.nodup_append.mpr ⟨h.nodup, List.nodup_singleton _, ?_⟩, ?_⟩
  · rintro x hx y hy rfl
    exact hnew (List.mem_singleton.mp hy ▸ hx)
  · intro before other rest hsplit next hnext
    rcases List.eq_nil_or_concat rest with rfl | ⟨rest, last, rfl⟩
    · obtain ⟨rfl, hlast⟩ := List.append_inj' hsplit rfl
      cases hlast
      exact hsucc next hnext
    · rw [List.concat_eq_append, ← List.cons_append, ← List.append_assoc] at hsplit
      exact h.after (List.append_inj' hsplit rfl).1 next hnext

/-- What a visit does to the listed nodes: it lists more of them, in order, and none that is on the
path of the visit. -/
structure Visits (g : Graph) (path done done' : List Text) : Prop where
  ordered : g.Ordered done'
  grows : done <+: done'
  avoids : ∀ {x}, x ∈ path → x ∉ done → x ∉ done'

/-- Visits one after the other list all that was to be visited. -/
theorem visits_foldlM {f : List Text → Text → Except Error (List Text)} {path : List Text}
    (hf : ∀ {done done' name}, g.Ordered done → f done name = .ok done' →
      g.Visits path done done' ∧ name ∈ done')
    {names done done' : List Text} (hdone : g.Ordered done)
    (hok : names.foldlM f done = .ok done') :
    g.Visits path done done' ∧ ∀ name ∈ names, name ∈ done' := by
  refine foldlM_accumulates
    (P := fun visited b => g.Visits path done b ∧ ∀ name ∈ visited, name ∈ b)
    ⟨⟨hdone, List.prefix_refl _, fun _ hx => hx⟩, by simp⟩ ?_ hok
  intro visited name b b' _ ⟨hb, hlisted⟩ hstep
  obtain ⟨hb', hname⟩ := hf hb.ordered hstep
  refine ⟨⟨hb'.ordered, hb.grows.trans hb'.grows, fun hx hnot => hb'.avoids hx (hb.avoids hx hnot)⟩, ?_⟩
  intro x hx
  rcases List.mem_append.mp hx with hx | hx
  · exact hb'.grows.subset (hlisted x hx)
  · rw [List.mem_singleton.mp hx]
    exact hname

/-- A visit that succeeds lists its node. -/
theorem visit_visits {depth : Nat} {path done done' : List Text} {name : Text}
    (hdone : g.Ordered done) (hok : g.visit depth path done name = .ok done') :
    g.Visits path done done' ∧ name ∈ done' := by
  induction depth generalizing path done done' name with
  | zero => cases hok
  | succ depth ih =>
      unfold visit at hok
      split at hok
      · rename_i hmem
        cases hok
        exact ⟨⟨hdone, List.prefix_refl _, fun _ hx => hx⟩, by simpa using hmem⟩
      split at hok
      · cases hok
      rename_i hnew hpath
      have hnew : name ∉ done := by simpa using hnew
      have hpath : name ∉ path := by simpa using hpath
      obtain ⟨done₁, hsucc, ⟨⟩⟩ := except_bind_ok.mp hok
      obtain ⟨hvisits, hlisted⟩ := visits_foldlM (fun hdone hok => ih hdone hok) hdone hsucc
      have hname : name ∉ done₁ := hvisits.avoids List.mem_cons_self hnew
      refine ⟨⟨hvisits.ordered.snoc hname hlisted,
        hvisits.grows.trans (List.prefix_append _ _), ?_⟩, by simp⟩
      intro x hx hnot hmem
      rcases List.mem_append.mp hmem with hmem | hmem
      · exact hvisits.avoids (List.mem_cons_of_mem _ hx) hnot hmem
      · exact hpath (List.mem_singleton.mp hmem ▸ hx)

theorem mem_nodes {name : Text} : name ∈ g.nodes ↔ g.has name = true := by
  unfold nodes Text.sort
  rw [List.mem_mergeSort, has_iff]

/-- An order lists every node once and after its successors. -/
theorem order_ordered {first : Text} {order : List Text} (hok : g.order first = .ok order) :
    g.Ordered order ∧ ∀ {name}, g.has name = true → name ∈ order := by
  unfold Graph.order at hok
  obtain ⟨hvisits, hlisted⟩ := visits_foldlM (fun hdone hok => visit_visits hdone hok) (.nil g) hok
  refine ⟨hvisits.ordered, fun {name} hname => hlisted name ?_⟩
  split
  · exact List.mem_cons_of_mem _ (mem_nodes.mpr hname)
  · exact mem_nodes.mpr hname

/-- What a listed node leads to is listed before it. -/
theorem Ordered.before {order : List Text} (h : g.Ordered order) {name other : Text}
    (hname : name ∈ order) (hleads : Relation.TransGen (fun a b => b ∈ g.successors a) name other) :
    Before order other name := by
  obtain ⟨before, after, hsplit⟩ := List.append_of_mem hname
  refine ⟨before, after, hsplit, ?_⟩
  induction hleads with
  | single hnext => exact h.after hsplit _ hnext
  | @tail x _ _ hnext ih =>
      obtain ⟨u, v, rfl⟩ := List.append_of_mem ih
      have hsplit' : order = u ++ x :: (v ++ name :: after) := by
        rw [hsplit, List.append_assoc, List.cons_append]
      exact List.mem_append_left _ (h.after hsplit' _ hnext)

end Graph

end ClassLinker
