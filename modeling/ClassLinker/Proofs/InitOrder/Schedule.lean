import ClassLinker.Proofs.Closure.Overrides
import ClassLinker.Proofs.InitOrder.Traverse

/-! The order of static initializers is sound: when the initializer of a class runs, the classes of
all members that it can come to use through static calls have been initialized, whether a member is
named in the class or inherited by it. Each static method is traversed once for all initializers,
with edges from its own class, so a dependency may be a path through several classes. -/

namespace ClassLinker.InitOrder

open Registry Closure

variable {r : Registry}

/-- The methods that the initializer of the class in a row leads to, each with the row of the class
that declares it: the initializer itself, and every static method that a lookup of a member finds
to which one of these methods refers. -/
inductive LeadsTo (r : Registry) (row : Nat) : Nat → Method → Prop
  | self {c m} : r.classAt? row = some c → c.declared? Signature.initializer = some (.method m) →
      LeadsTo r row row m
  | call {owner m member next callee} : LeadsTo r row owner m → member ∈ membersOf r m →
      r.findMember member = .ok (next, .method callee) → callee.isStatic = true →
      LeadsTo r row next callee

/-- A class leads to another one along the edges of a graph, or is the same. -/
abbrev Leads (g : Graph) : Text → Text → Prop :=
  Relation.ReflTransGen fun a b => b ∈ g.successors a

theorem Depends.leads {g : Graph} {name other : Text} (h : Depends g name other) :
    Leads g name other := by
  rcases h with rfl | hedge
  · exact .refl
  · exact .single hedge

/-- What an initializer leads to was found, and its class leads to the classes of all of it. -/
theorem LeadsTo.found {t : Traversal} {row owner : Nat} {c : Class} {m : Method} (ht : Settled r t)
    (hc : r.classAt? row = some c) (hcovers : Covers t row c) (h : LeadsTo r row owner m) :
    (owner, m.sig) ∈ t.found ∧ ∃ co, r.classAt? owner = some co ∧
      co.declared? m.sig = some (.method m) ∧ Leads t.graph c.name co.name := by
  induction h with
  | self hc' hm =>
      cases hc.symm.trans hc'
      have hsig : _ = Signature.initializer := Class.sig_of_declared? hm
      simp only [Declaration.sig] at hsig
      rw [hsig]
      exact ⟨hcovers.2, c, hc, hm, .refl⟩
  | @call owner m member next callee _ hmember hfind hstatic ih =>
      obtain ⟨hfound, co, hco, hm, hleads⟩ := ih
      obtain ⟨-, cn, -, hcn, hd⟩ := findMember_ok hfind
      have hsig : callee.sig = member.sig := Class.sig_of_declared? hd
      have hfollowed := ht.traversed _ hfound hco (Class.find?_of_declared? hm) member hmember
      obtain ⟨row', d', c', hfind', hc', hdep, hcallee⟩ := hfollowed.resolved
      cases hfind.symm.trans hfind'
      cases hcn.symm.trans hc'
      refine ⟨hcallee callee rfl hstatic, cn, hcn, by rw [hsig]; exact hd, ?_⟩
      exact hleads.trans hdep.leads

/-- The initializers of a registry are ordered soundly. -/
theorem order_sound {bootstrap : Text} {order : List Text}
    (hok : schedule r bootstrap = .ok order) :
    order.Nodup ∧ ∀ {row c d}, (row, c) ∈ r.keptClasses →
      c.declared? Signature.initializer = some d → d.kept = true → c.name ∈ order ∧
        ∀ {owner m}, LeadsTo r row owner m → ∀ member ∈ membersOf r m,
          ∃ next d cn, r.findMember member = .ok (next, d) ∧ r.classAt? next = some cn ∧
            AtOrBefore order member.className c.name ∧ AtOrBefore order cn.name c.name := by
  obtain ⟨g, hgraph, horder⟩ := schedule_ok.mp hok
  obtain ⟨t, rfl, hsettled, hcovers⟩ := graphOf_settled hgraph
  obtain ⟨hordered, hlisted⟩ := Graph.order_ordered horder
  refine ⟨hordered.nodup, fun {row c d} hmem hd hkept => ?_⟩
  have hcover := hcovers hmem hd hkept
  have hname := hlisted hcover.1
  have hc := (mem_keptClasses.mp hmem).2.1
  refine ⟨hname, fun {owner m} hleads member hmember => ?_⟩
  obtain ⟨hfound, co, hco, hm, hpath⟩ := hleads.found hsettled hc hcover
  have hfollowed := hsettled.traversed _ hfound hco (Class.find?_of_declared? hm) member hmember
  obtain ⟨next, d', cn, hfind, hcn, hdep, -⟩ := hfollowed.resolved
  have hbefore : ∀ {name}, Depends t.graph co.name name → AtOrBefore order name c.name := by
    intro name hname'
    rcases Relation.reflTransGen_iff_eq_or_transGen.mp (hpath.trans hname'.leads) with h | h
    · exact .inl h
    · exact .inr (hordered.before hname h)
  exact ⟨next, d', cn, hfind, hcn, hbefore hfollowed.named, hbefore hdep⟩

/-- The initializers of a link are ordered soundly, whatever it was asked to do: the order has no
duplicates and every class with a kept initializer, and a class comes after the classes of all
members that the methods its initializer leads to refer to, those named and those that declare
them. -/
theorem schedule_sound (s : Source) (root : Text) (actions : List Action) (l : Linker)
    (hrun : actions.forM (Action.run s) { root := root } = .ok () l) (bootstrap : Text)
    (order : List Text) (hok : schedule l.registry bootstrap = .ok order) :
    order.Nodup ∧ ∀ row c d, l.registry.classAt? row = some c →
      c.declared? Signature.initializer = some d → d.kept = true → c.name ∈ order ∧
        ∀ owner m, LeadsTo l.registry row owner m → ∀ member ∈ membersOf l.registry m,
          ∃ next d cn, l.registry.findMember member = .ok (next, d) ∧
            l.registry.classAt? next = some cn ∧
            AtOrBefore order member.className c.name ∧ AtOrBefore order cn.name c.name := by
  have hwired := (forM_continues (settled_empty s root) hrun).settled.wired
  obtain ⟨hnodup, hsound⟩ := order_sound hok
  refine ⟨hnodup, fun row c d hc hd hkept => ?_⟩
  have hmem := mem_keptClasses.mpr ⟨hwired.tidy.live_of_class hc, hc, hwired.kept hc⟩
  obtain ⟨hname, hbefore⟩ := hsound hmem hd hkept
  exact ⟨hname, fun owner m hleads => hbefore hleads⟩

/-- A program in which the initializer of `A` calls a static method of `B`, which `B` inherits from
`P`. -/
def inheritedSource : Source := .ofDecls [
  .bareRoot,
  .simple false "P" RuntimeSeeds.defaultRoot []
    [.simple "<clinit>" true [0xB1], .simple "run" true [0xB1]] [],
  .simple false "B" "P" [] [] [],
  .simple false "A" RuntimeSeeds.defaultRoot []
    [.simple "<clinit>" true [0xB8, 0x00, 0x01, 0xB1]] [⟨1, .member "B" "run" "()V" false⟩]]

/-- The graph of the program: `A` needs the class that its call names and the one that declares the
method. -/
def inheritedGraph : Graph := ⟨[("A", ["B", "P"]), ("B", []), ("P", [])]⟩

/-- What happens to be sorted needs no sorting. -/
theorem sort_of_pairwise {ts : List Text} (h : ts.Pairwise fun a b => Text.le a b) :
    Text.sort ts = ts := List.mergeSort_of_pairwise h

theorem inheritedGraph_order : inheritedGraph.order [] = .ok [Text.ofString "B", "P", "A"] := by
  have ha : inheritedGraph.successors "A" = [Text.ofString "B", "P"] :=
    sort_of_pairwise (by decide +kernel)
  have hb : inheritedGraph.successors "B" = [] := sort_of_pairwise (by decide +kernel)
  have hp : inheritedGraph.successors "P" = [] := sort_of_pairwise (by decide +kernel)
  have hnodes : inheritedGraph.nodes = [Text.ofString "A", "B", "P"] :=
    sort_of_pairwise (by decide +kernel)
  have hvisitB : inheritedGraph.visit 3 ["A"] [] "B" = .ok [Text.ofString "B"] := by
    rw [Graph.visit, hb]
    decide +kernel
  have hvisitP : inheritedGraph.visit 3 ["A"] ["B"] "P" = .ok [Text.ofString "B", "P"] := by
    rw [Graph.visit, hp]
    decide +kernel
  have hvisitA : inheritedGraph.visit 4 [] [] "A" = .ok [Text.ofString "B", "P", "A"] := by
    have hfold : [Text.ofString "B", "P"].foldlM (inheritedGraph.visit 3 ["A"]) [] =
        .ok [Text.ofString "B", "P"] := by
      rw [List.foldlM_cons, hvisitB]
      show [Text.ofString "P"].foldlM (inheritedGraph.visit 3 ["A"]) ["B"] = _
      rw [List.foldlM_cons, hvisitP]
      rfl
    rw [Graph.visit, ha, hfold]
    decide +kernel
  have hstarts : (if inheritedGraph.has [] then [] :: inheritedGraph.nodes else inheritedGraph.nodes) =
      inheritedGraph.nodes := if_neg (by decide +kernel)
  unfold Graph.order
  rw [hstarts, hnodes]
  -- The visit of `A` has listed the other nodes.
  show inheritedGraph.visit 4 [] [] "A" >>= _ = _
  rw [hvisitA]
  decide +kernel

/-- Whether the initializer of the class in row 1 is kept and calls the inherited method. -/
def callsInherited (r : Registry) : Bool :=
  (r.classAt? 1).any fun c => c.name = Text.ofString "A" &&
    match c.declared? Signature.initializer with
    | some (.method m) => m.kept && (membersOf r m).contains ⟨"B", "run", "()V"⟩
    | _ => false

theorem schedule_sound_inherited : ∃ l order,
    [Action.call (.load "A"), .overrides].forM (Action.run inheritedSource)
      { root := RuntimeSeeds.defaultRoot } = .ok () l ∧
    schedule l.registry [] = .ok order ∧ order.Nodup ∧ AtOrBefore order "B" "A" := by
  have hcheck : Step.yields ([Action.call (.load "A"), .overrides].forM
      (Action.run inheritedSource) { root := RuntimeSeeds.defaultRoot }) (fun _ l =>
        (graphOf l.registry).toOption = some inheritedGraph && callsInherited l.registry) = true := by
    decide +kernel
  obtain ⟨⟨⟩, l, hrun, hcheck⟩ := Step.exists_of_yields hcheck
  simp only [Bool.and_eq_true, decide_eq_true_eq] at hcheck
  obtain ⟨hgraph, hcalls⟩ := hcheck
  have hok : schedule l.registry [] = .ok [Text.ofString "B", "P", "A"] := by
    cases hg : graphOf l.registry with
    | error e => rw [hg] at hgraph; cases hgraph
    | ok g =>
        rw [hg] at hgraph
        cases hgraph
        exact schedule_ok.mpr ⟨_, hg, inheritedGraph_order⟩
  simp only [callsInherited, Option.any_eq_true, Bool.and_eq_true, decide_eq_true_eq] at hcalls
  obtain ⟨c, hc, hname, hcalls⟩ := hcalls
  split at hcalls
  · rename_i m hm
    simp only [Bool.and_eq_true, List.contains_iff_mem] at hcalls
    obtain ⟨hnodup, hsound⟩ := schedule_sound inheritedSource RuntimeSeeds.defaultRoot
      [.call (.load "A"), .overrides] l hrun [] _ hok
    obtain ⟨-, hbefore⟩ := hsound 1 c _ hc hm hcalls.1
    obtain ⟨-, -, -, -, -, hat, -⟩ := hbefore 1 m (.self hc hm) _ hcalls.2
    rw [hname] at hat
    exact ⟨l, _, hrun, hok, hnodup, hat⟩
  · cases hcalls

end ClassLinker.InitOrder
