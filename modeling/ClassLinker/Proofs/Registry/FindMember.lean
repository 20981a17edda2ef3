import ClassLinker.Proofs.Registry.Ancestry
import ClassLinker.Proofs.Registry.Weight

/-! What a lookup of a member answers. The nearest class of the superclass chain that declares the
signature comes first, and then the first of the interfaces in breadth-first order: those that the
classes of the chain list, in the order of the chain, the ones that these extend, and so on. The
search visits a name once only, which changes nothing, since the interfaces below a name that comes
again have all come before. -/

namespace ClassLinker.Registry

open Step

/-! ### Breadth-first order -/

/-- The interfaces that named interfaces extend, in their order. -/
def extended (r : Registry) (names : List Text) : List Text :=
  names.flatMap fun name => (((r.find? name).bind r.classAt?).map Class.interfaces).getD []

/-- The layers of the interfaces of a chain: those that its classes list, the ones that these
extend, and so on. -/
def layer (r : Registry) (chain : List (Nat × Class)) : Nat → List Text
  | 0 => chain.flatMap fun q => q.2.interfaces
  | n + 1 => r.extended (r.layer chain n)

/-- The interfaces that the classes of a chain list, and all that these extend. -/
inductive InterfaceOf (r : Registry) (chain : List (Nat × Class)) : Text → Prop where
  | listed {q : Nat × Class} {name : Text} (hq : q ∈ chain) (hname : name ∈ q.2.interfaces) :
      InterfaceOf r chain name
  | extended {name name' : Text} {row : Nat} {c : Class} (h : InterfaceOf r chain name)
      (hfind : r.find? name = some row) (hc : r.classAt? row = some c)
      (hname' : name' ∈ c.interfaces) : InterfaceOf r chain name'

/-- What the class of a name declares with a signature, and its row. -/
def declaredIn? (r : Registry) (sig : Signature) (name : Text) : Option (Nat × Declaration) :=
  (r.find? name).bind fun row => (r.classAt? row).bind fun c => (c.declared? sig).map (row, ·)

/-- What the first class of a chain that declares a signature declares, and its row. -/
def nearest? (chain : List (Nat × Class)) (sig : Signature) : Option (Nat × Declaration) :=
  chain.findSome? fun (row, c) => (c.declared? sig).map (row, ·)

/-- What the first interface of a layer that declares a signature declares, and its row. -/
def firstIn? (r : Registry) (chain : List (Nat × Class)) (sig : Signature) (n : Nat) :
    Option (Nat × Declaration) :=
  (r.layer chain n).findSome? (r.declaredIn? sig)

/-- The answer for a member whose class has a given chain. -/
inductive Answers (r : Registry) (chain : List (Nat × Class)) (m : Member) :
    Except Error (Nat × Declaration) → Prop where
  | onChain {found : Nat × Declaration} (h : nearest? chain m.sig = some found) :
      Answers r chain m (.ok found)
  | inInterface {n : Nat} {found : Nat × Declaration} (hchain : nearest? chain m.sig = none)
      (hbefore : ∀ k < n, r.firstIn? chain m.sig k = none)
      (h : r.firstIn? chain m.sig n = some found) : Answers r chain m (.ok found)
  | nowhere (hchain : nearest? chain m.sig = none) (h : ∀ n, r.firstIn? chain m.sig n = none) :
      Answers r chain m (.error (.unresolved m))

section

variable {r : Registry} {chain : List (Nat × Class)} {sig : Signature} {m : Member}

theorem extended_append (r : Registry) (names names' : List Text) :
    r.extended (names ++ names') = r.extended names ++ r.extended names' :=
  List.flatMap_append

theorem mem_extended {names : List Text} {name' : Text} : name' ∈ r.extended names ↔
    ∃ name ∈ names, ∃ row c, r.find? name = some row ∧ r.classAt? row = some c ∧
      name' ∈ c.interfaces := by
  rw [extended, List.mem_flatMap]
  refine exists_congr fun name => and_congr_right fun _ => ?_
  constructor
  · intro h
    cases hfind : r.find? name with
    | none => simp [hfind] at h
    | some row =>
        cases hc : r.classAt? row with
        | none => simp [hfind, hc] at h
        | some c => exact ⟨row, c, rfl, hc, by simpa [hfind, hc] using h⟩
  · rintro ⟨row, c, hfind, hc, h⟩
    simpa [hfind, hc] using h

theorem interfaceOf_iff {name : Text} : r.InterfaceOf chain name ↔ ∃ n, name ∈ r.layer chain n := by
  constructor
  · intro h
    induction h with
    | listed hq hname => exact ⟨0, List.mem_flatMap.mpr ⟨_, hq, hname⟩⟩
    | extended _ hfind hc hname' ih =>
        obtain ⟨n, hn⟩ := ih
        exact ⟨n + 1, mem_extended.mpr ⟨_, hn, _, _, hfind, hc, hname'⟩⟩
  · rintro ⟨n, hn⟩
    induction n generalizing name with
    | zero =>
        obtain ⟨q, hq, hname⟩ := List.mem_flatMap.mp hn
        exact .listed hq hname
    | succ n ih =>
        obtain ⟨name', hname', row, c, hfind, hc, hmem⟩ := mem_extended.mp hn
        exact .extended (ih hname') hfind hc hmem

theorem declaredIn?_eq {name : Text} {row : Nat} {c : Class} (hfind : r.find? name = some row)
    (hc : r.classAt? row = some c) :
    r.declaredIn? sig name = (c.declared? sig).map (row, ·) := by
  rw [declaredIn?, hfind, Option.bind_some, hc, Option.bind_some]

theorem firstIn?_eq_none {n : Nat} :
    r.firstIn? chain sig n = none ↔ ∀ name ∈ r.layer chain n, r.declaredIn? sig name = none :=
  List.findSome?_eq_none_iff

/-- A member has one answer. -/
theorem Answers.unique {a a' : Except Error (Nat × Declaration)} (h : r.Answers chain m a)
    (h' : r.Answers chain m a') : a = a' := by
  cases h with
  | onChain h =>
      cases h' with
      | onChain h' => rw [Option.some.inj (h.symm.trans h')]
      | inInterface hchain => cases h.symm.trans hchain
      | nowhere hchain => cases h.symm.trans hchain
  | @inInterface n found hchain hbefore h =>
      cases h' with
      | onChain h' => cases h'.symm.trans hchain
      | @inInterface n' found' _ hbefore' h' =>
          obtain hlt | rfl | hlt := Nat.lt_trichotomy n n'
          · cases h.symm.trans (hbefore' n hlt)
          · rw [Option.some.inj (h.symm.trans h')]
          · cases h'.symm.trans (hbefore n' hlt)
      | nowhere _ hall => cases h.symm.trans (hall n)
  | nowhere hchain hall =>
      cases h' with
      | onChain h' => cases h'.symm.trans hchain
      | @inInterface n' _ _ _ h' => cases h'.symm.trans (hall n')
      | nowhere => rfl

theorem nearest?_of_declared {row : Nat} {c : Class} {d : Declaration}
    (hd : c.declared? sig = some d) : nearest? ((row, c) :: chain) sig = some (row, d) := by
  simp [nearest?, hd]

theorem nearest?_eq_none :
    nearest? chain sig = none ↔ ∀ q ∈ chain, q.2.declared? sig = none := by
  simp [nearest?, List.findSome?_eq_none_iff]

/-! ### The search -/

/-- What is left to visit in breadth-first order when no name before it declares the signature: the
rest of a layer, and then the interfaces that the other names of the layer extend. -/
def Frontier (r : Registry) (chain : List (Nat × Class)) (sig : Signature) (pending : List Text) :
    Prop :=
  ∃ n done rest, r.layer chain n = done ++ rest ∧ pending = rest ++ r.extended done ∧
    (∀ k < n, ∀ x ∈ r.layer chain k, r.declaredIn? sig x = none) ∧
    ∀ x ∈ done, r.declaredIn? sig x = none

namespace Frontier

variable {x : Text} {pending : List Text}

theorem start : r.Frontier chain sig (r.layer chain 0) :=
  ⟨0, [], _, rfl, (List.append_nil _).symm, fun _ hk => absurd hk (Nat.not_lt_zero _),
    fun _ hx => absurd hx List.not_mem_nil⟩

/-- The next name stands in some layer. After the last one of a layer it starts the layer below. -/
theorem exists_layer (h : r.Frontier chain sig (x :: pending)) :
    ∃ n done rest, r.layer chain n = done ++ x :: rest ∧ pending = rest ++ r.extended done ∧
      (∀ k < n, ∀ x ∈ r.layer chain k, r.declaredIn? sig x = none) ∧
      ∀ x ∈ done, r.declaredIn? sig x = none := by
  obtain ⟨n, done, rest, hlayer, hpending, hbefore, hdone⟩ := h
  cases rest with
  | cons y rest =>
      cases hpending
      exact ⟨n, done, rest, hlayer, rfl, hbefore, hdone⟩
  | nil =>
      rw [List.append_nil] at hlayer
      refine ⟨n + 1, [], pending, ?_, (List.append_nil _).symm, fun k hk => ?_,
        fun _ hx => absurd hx List.not_mem_nil⟩
      · rw [layer, hlayer]
        exact hpending.symm
      · obtain hlt | rfl := Nat.lt_succ_iff_lt_or_eq.mp hk
        · exact hbefore k hlt
        · exact hlayer ▸ hdone

theorem pass (h : r.Frontier chain sig (x :: pending)) (hx : r.declaredIn? sig x = none) :
    r.Frontier chain sig (pending ++ r.extended [x]) := by
  obtain ⟨n, done, rest, hlayer, rfl, hbefore, hdone⟩ := h.exists_layer
  refine ⟨n, done ++ [x], rest, ?_, ?_, hbefore, ?_⟩
  · rw [hlayer, List.append_assoc, List.singleton_append]
  · rw [extended_append, List.append_assoc]
  · exact List.forall_mem_append.mpr ⟨hdone, List.forall_mem_singleton.mpr hx⟩

theorem passAll {names : List Text} (h : r.Frontier chain sig (names ++ pending))
    (hnames : ∀ x ∈ names, r.declaredIn? sig x = none) :
    r.Frontier chain sig (pending ++ r.extended names) := by
  induction names generalizing pending with
  | nil => exact (List.append_nil pending).symm ▸ h
  | cons x names ih =>
      obtain ⟨hx, hnames⟩ := List.forall_mem_cons.mp hnames
      have hpass : r.Frontier chain sig (names ++ pending ++ r.extended [x]) := h.pass hx
      rw [List.append_assoc] at hpass
      have hall := ih hpass hnames
      rwa [List.append_assoc, ← extended_append, List.singleton_append] at hall

theorem found {a : Nat × Declaration} (h : r.Frontier chain sig (x :: pending))
    (hx : r.declaredIn? sig x = some a) :
    ∃ n, (∀ k < n, r.firstIn? chain sig k = none) ∧ r.firstIn? chain sig n = some a := by
  obtain ⟨n, done, rest, hlayer, -, hbefore, hdone⟩ := h.exists_layer
  refine ⟨n, fun k hk => firstIn?_eq_none.mpr (hbefore k hk), ?_⟩
  rw [firstIn?, hlayer, List.findSome?_append, List.findSome?_eq_none_iff.mpr hdone,
    Option.none_or, List.findSome?_cons, hx]

/-- When what is left to visit stays among names that do not declare the signature, no interface
declares it. -/
theorem exhausted {P : Text → Prop} (h : r.Frontier chain sig pending) (hpending : ∀ x ∈ pending, P x)
    (hsilent : ∀ x, P x → r.declaredIn? sig x = none)
    (hclosed : ∀ x, P x → ∀ y ∈ r.extended [x], P y) (n : Nat) : r.firstIn? chain sig n = none := by
  obtain ⟨m, done, rest, hlayer, rfl, hbefore, hdone⟩ := h
  obtain ⟨hrest, hextended⟩ := List.forall_mem_append.mp hpending
  have hstep : ∀ names : List Text, (∀ x ∈ names, P x) → ∀ y ∈ r.extended names, P y := by
    intro names hnames y hy
    obtain ⟨x, hx, hy⟩ := List.mem_flatMap.mp hy
    exact hclosed x (hnames x hx) y (List.mem_flatMap.mpr ⟨x, List.mem_singleton_self x, hy⟩)
  have hbelow : ∀ k, ∀ x ∈ r.layer chain (m + 1 + k), P x := by
    intro k
    induction k with
    | zero =>
        rw [Nat.add_zero, layer, hlayer, extended_append]
        exact List.forall_mem_append.mpr ⟨hextended, hstep rest hrest⟩
    | succ k ih => exact hstep _ ih
  refine firstIn?_eq_none.mpr fun x hx => ?_
  obtain hlt | rfl | hlt := Nat.lt_trichotomy n m
  · exact hbefore n hlt x hx
  · rcases List.mem_append.mp (hlayer ▸ hx) with hx | hx
    · exact hdone x hx
    · exact hsilent x (hrest x hx)
  · obtain ⟨k, rfl⟩ := Nat.exists_eq_add_of_le (Nat.succ_le_of_lt hlt)
    exact hsilent x (hbelow k x hx)

end Frontier

end

/-- `queue` is `pending` without some of the names that were seen or come before in it. -/
inductive Remains : List Text → List Text → List Text → Prop where
  | nil (seen : List Text) : Remains seen [] []
  | keep {seen pending queue : List Text} {x : Text} (h : Remains (x :: seen) pending queue) :
      Remains seen (x :: pending) (x :: queue)
  | drop {seen pending queue : List Text} {x : Text} (hx : x ∈ seen)
      (h : Remains seen pending queue) : Remains seen (x :: pending) queue

namespace Remains

variable {seen pending queue : List Text} {x : Text}

theorem refl (seen names : List Text) : Remains seen names names := by
  induction names generalizing seen with
  | nil => exact .nil seen
  | cons x names ih => exact .keep (ih _)

theorem mono {seen' : List Text} (h : Remains seen pending queue) (hseen : seen ⊆ seen') :
    Remains seen' pending queue := by
  induction h generalizing seen' with
  | nil => exact .nil _
  | keep _ ih => exact .keep (ih (List.cons_subset_cons _ hseen))
  | drop hx _ ih => exact .drop (hseen hx) (ih hseen)

theorem append (h : Remains seen pending queue) (names : List Text) :
    Remains seen (pending ++ names) (queue ++ names) := by
  induction h with
  | nil seen => exact refl seen names
  | keep _ ih => exact .keep ih
  | drop hx _ ih => exact .drop hx ih

theorem append_seen {names : List Text} (h : Remains seen pending queue)
    (hnames : ∀ y ∈ names, y ∈ seen ∨ y ∈ queue) : Remains seen (pending ++ names) queue := by
  induction h with
  | nil seen =>
      induction names with
      | nil => exact .nil seen
      | cons y names ih =>
          obtain ⟨hy, hnames⟩ := List.forall_mem_cons.mp hnames
          exact .drop (hy.resolve_right List.not_mem_nil) (ih hnames)
  | @keep seen pending queue x _ ih =>
      refine .keep (ih fun y hy => ?_)
      rcases hnames y hy with hseen | hqueue
      · exact .inl (List.mem_cons_of_mem _ hseen)
      · rcases List.mem_cons.mp hqueue with rfl | hqueue
        · exact .inl List.mem_cons_self
        · exact .inr hqueue
  | drop hx _ ih => exact .drop hx (ih hnames)

/-- Before the first name of the queue only names that were seen are left out. -/
theorem exists_cons (h : Remains seen pending (x :: queue)) :
    ∃ names pending', pending = names ++ x :: pending' ∧ (∀ y ∈ names, y ∈ seen) ∧
      Remains (x :: seen) pending' queue := by
  generalize hq : x :: queue = q at h
  induction h with
  | nil => cases hq
  | keep h _ =>
      cases hq
      exact ⟨[], _, rfl, fun _ hy => absurd hy List.not_mem_nil, h⟩
  | drop hx _ ih =>
      obtain ⟨names, pending', rfl, hnames, h⟩ := ih hq
      exact ⟨_ :: names, pending', rfl, List.forall_mem_cons.mpr ⟨hx, hnames⟩, h⟩

theorem seen_of_nil (h : Remains seen pending []) : ∀ y ∈ pending, y ∈ seen := by
  generalize hq : ([] : List Text) = q at h
  induction h with
  | nil => exact fun _ hy => absurd hy List.not_mem_nil
  | keep => cases hq
  | drop hx _ ih => exact List.forall_mem_cons.mpr ⟨hx, ih hq⟩

end Remains

/-- The state of a search that has found nothing yet: what is queued is what is left to visit but
for names that come again, none of those seen declares the signature, and what these extend is
seen or queued. -/
structure Searching (r : Registry) (chain : List (Nat × Class)) (sig : Signature)
    (seen queue : List Text) : Prop where
  frontier : ∃ pending, r.Frontier chain sig pending ∧ Remains seen pending queue
  silent : ∀ x ∈ seen, r.declaredIn? sig x = none
  closed : ∀ x ∈ seen, ∀ y ∈ r.extended [x], y ∈ seen ∨ y ∈ queue

namespace Searching

variable {r : Registry} {chain : List (Nat × Class)} {sig : Signature} {seen queue : List Text}
  {x : Text}

theorem start : r.Searching chain sig [] (r.layer chain 0) :=
  ⟨⟨_, .start, .refl _ _⟩, fun _ hx => absurd hx List.not_mem_nil,
    fun _ hx => absurd hx List.not_mem_nil⟩

/-- The first name of the queue is the next one to visit, once the names before it are passed. -/
theorem next (h : r.Searching chain sig seen (x :: queue)) :
    ∃ pending, r.Frontier chain sig (x :: pending) ∧ Remains (x :: seen) pending queue := by
  obtain ⟨pending, hfrontier, hremains⟩ := h.frontier
  obtain ⟨names, pending', rfl, hnames, hremains⟩ := hremains.exists_cons
  refine ⟨pending' ++ r.extended names, ?_, ?_⟩
  · exact hfrontier.passAll fun y hy => h.silent y (hnames y hy)
  · refine hremains.append_seen fun y hy => ?_
    obtain ⟨z, hz, hy⟩ := List.mem_flatMap.mp hy
    rcases h.closed z (hnames z hz) y (List.mem_flatMap.mpr ⟨z, List.mem_singleton_self z, hy⟩) with
      hseen | hqueue
    · exact .inl (List.mem_cons_of_mem _ hseen)
    · rcases List.mem_cons.mp hqueue with rfl | hqueue
      · exact .inl List.mem_cons_self
      · exact .inr hqueue

theorem skip (h : r.Searching chain sig seen (x :: queue)) (hx : x ∈ seen) :
    r.Searching chain sig seen queue := by
  have hclosed : ∀ z ∈ seen, ∀ y ∈ r.extended [z], y ∈ seen ∨ y ∈ queue := by
    intro z hz y hy
    rcases h.closed z hz y hy with hseen | hqueue
    · exact .inl hseen
    · rcases List.mem_cons.mp hqueue with rfl | hqueue
      · exact .inl hx
      · exact .inr hqueue
  obtain ⟨pending, hfrontier, hremains⟩ := h.next
  have hremains : Remains seen pending queue :=
    hremains.mono (List.cons_subset.mpr ⟨hx, List.Subset.refl _⟩)
  exact ⟨⟨_, hfrontier.pass (h.silent x hx), hremains.append_seen (hclosed x hx)⟩, h.silent, hclosed⟩

theorem visit (h : r.Searching chain sig seen (x :: queue)) (hx : r.declaredIn? sig x = none) :
    r.Searching chain sig (x :: seen) (queue ++ r.extended [x]) := by
  obtain ⟨pending, hfrontier, hremains⟩ := h.next
  refine ⟨⟨_, hfrontier.pass hx, hremains.append _⟩, List.forall_mem_cons.mpr ⟨hx, h.silent⟩, ?_⟩
  refine List.forall_mem_cons.mpr ⟨fun y hy => .inr (List.mem_append_right _ hy), ?_⟩
  intro z hz y hy
  rcases h.closed z hz y hy with hseen | hqueue
  · exact .inl (List.mem_cons_of_mem _ hseen)
  · rcases List.mem_cons.mp hqueue with rfl | hqueue
    · exact .inl List.mem_cons_self
    · exact .inr (List.mem_append_left _ hqueue)

theorem exhausted (h : r.Searching chain sig seen []) (n : Nat) : r.firstIn? chain sig n = none := by
  obtain ⟨pending, hfrontier, hremains⟩ := h.frontier
  exact hfrontier.exhausted hremains.seen_of_nil h.silent
    (fun x hx y hy => (h.closed x hx y hy).resolve_right List.not_mem_nil) n

end Searching

/-- The interfaces of a chain are registered. -/
def InterfacesKnown (r : Registry) (chain : List (Nat × Class)) : Prop :=
  ∀ {name}, r.InterfaceOf chain name →
    ∃ row c, r.find? name = some row ∧ r.classAt? row = some c ∧ c.name = name

section

variable {r : Registry} {chain : List (Nat × Class)} {m : Member}

/-- The search answers for the first interface in breadth-first order, and it has fuel enough to look
at all of them. -/
theorem searchInterfaces_answers (hknown : r.InterfacesKnown chain)
    (hchain : nearest? chain m.sig = none) (fuel : Nat) (seen queue : List Text)
    (h : r.Searching chain m.sig seen queue)
    (hfuel : queue.length + r.unseen seen < fuel) :
    r.Answers chain m (r.searchInterfaces m fuel seen queue) := by
  have hnext : ∀ {seen name queue}, r.Searching chain m.sig seen (name :: queue) →
      ∃ row c, r.find? name = some row ∧ r.classAt? row = some c ∧ c.name = name := by
    intro seen name queue h
    obtain ⟨pending, hfrontier, -⟩ := h.next
    obtain ⟨n, done, rest, hlayer, -⟩ := hfrontier.exists_layer
    exact hknown (interfaceOf_iff.mpr ⟨n, hlayer ▸ List.mem_append_right _ List.mem_cons_self⟩)
  fun_induction searchInterfaces r m fuel seen queue with
  | case1 => exact absurd hfuel (Nat.not_lt_zero _)
  | case2 => exact .nowhere hchain h.exhausted
  | case3 fuel seen name queue hseen ih =>
      rw [List.length_cons] at hfuel
      exact ih (h.skip (List.contains_iff_mem.mp hseen)) (by omega)
  | case4 fuel seen name queue hseen hfind =>
      obtain ⟨row, c, hrow, -⟩ := hnext h
      cases hfind.symm.trans hrow
  | case5 fuel seen name queue hseen row hfind hnone =>
      obtain ⟨row', c, hrow, hc, -⟩ := hnext h
      cases hfind.symm.trans hrow
      cases hnone.symm.trans hc
  | case6 fuel seen name queue hseen row hfind c hc d hd =>
      obtain ⟨pending, hfrontier, -⟩ := h.next
      have hdeclared : r.declaredIn? m.sig name = some (row, d) := by
        rw [declaredIn?_eq hfind hc, hd, Option.map_some]
      obtain ⟨n, hbefore, hfirst⟩ := hfrontier.found hdeclared
      exact .inInterface hchain hbefore hfirst
  | case7 fuel seen name queue hseen row hfind c hc hd ih =>
      obtain ⟨row', c', hrow, hc', hname⟩ := hnext h
      cases hfind.symm.trans hrow
      cases hc.symm.trans hc'
      have hextended : r.extended [name] = c.interfaces := by
        rw [extended, List.flatMap_singleton, hfind, Option.bind_some, hc]
        rfl
      have hvisit := h.visit (by rw [declaredIn?_eq hfind hc, hd, Option.map_none])
      rw [hextended] at hvisit
      refine ih hvisit ?_
      have hcount : r.unseen (name :: seen) + c.interfaces.length ≤ r.unseen seen :=
        hname ▸ unseen_cons hc seen fun hmem => hseen (List.contains_iff_mem.mpr (hname ▸ hmem))
      rw [List.length_cons] at hfuel
      rw [List.length_append]
      omega

theorem chainFrom_eq {row fuel : Nat} (h : r.IsChain row chain) (hfuel : chain.length ≤ fuel) :
    r.chainFrom fuel row = chain := by
  induction h generalizing fuel with
  | root hc hroot =>
      obtain ⟨fuel, rfl⟩ := Nat.exists_eq_add_one.mpr (Nat.lt_of_lt_of_le Nat.zero_lt_one hfuel)
      rw [chainFrom, hc]
      simp only [superOf?, hroot, if_true]
  | super hc hsuper hparent _ ih =>
      obtain ⟨fuel, rfl⟩ :=
        Nat.exists_eq_add_one.mpr (Nat.lt_of_lt_of_le (Nat.succ_pos _) hfuel)
      rw [chainFrom, hc]
      simp only [superOf?, if_neg hsuper, hparent]
      rw [ih (Nat.le_of_succ_le_succ hfuel)]

/-- A lookup answers for the chain of the class. -/
theorem findMember_answers {row : Nat} (hrow : r.find? m.className = some row)
    (hchain : r.IsChain row chain) (hlength : chain.length ≤ r.rows.size)
    (hknown : r.InterfacesKnown chain) : r.Answers chain m (r.findMember m) := by
  unfold findMember
  simp only [hrow, Registry.chain, chainFrom_eq hchain hlength]
  split
  · rename_i found hfound
    exact .onChain hfound
  · rename_i hnone
    refine searchInterfaces_answers hknown hnone _ [] _ .start ?_
    rw [unseen_nil]
    exact Nat.lt_succ_self _

end

theorem Descending.interfacesKnown {r : Registry} (h : r.Descending) (hknown : r.SupertypesKnown)
    {chain : List (Nat × Class)} (hchain : ∀ q ∈ chain, q.1 ∈ r.live ∧ r.classAt? q.1 = some q.2) :
    r.InterfacesKnown chain := by
  have hfound : ∀ {name row c}, row ∈ r.live → r.classAt? row = some c → name ∈ c.interfaces →
      ∃ p c', r.find? name = some p ∧ r.classAt? p = some c' ∧ c'.name = name := by
    intro name row c hrow hc hname
    obtain ⟨p, hp⟩ := hknown.interface hrow hc hname
    obtain ⟨-, c', hc', hname'⟩ := h.find_class hp
    exact ⟨p, c', hp, hc', hname'⟩
  intro name hname
  cases hname with
  | listed hq hname => exact hfound (hchain _ hq).1 (hchain _ hq).2 hname
  | extended _ hfind hc hname' => exact hfound (h.find_class hfind).1 hc hname'

/-! ### Registering further classes -/

/-- `r'` has the classes of `r`, but for their children, under the same names. -/
structure ExtendsTo (r r' : Registry) : Prop where
  size_le : r.rows.size ≤ r'.rows.size
  find : ∀ {name row}, r.find? name = some row → r'.find? name = some row
  classes : ∀ {row c}, r.classAt? row = some c →
    ∃ children, r'.classAt? row = some { c with children := children }

/-- The operation registers a class, or it is about a class that was registered when there were
`rows` rows already. -/
def Operation.Beyond (rows : Nat) (op : Operation) : Prop :=
  (∃ spec, op = .createClass spec) ∨ ∃ row, op.row? = some row ∧ rows ≤ row

/-- The entries of two chains that are the same but for the children of the class. -/
def SameEntry (q q' : Nat × Class) : Prop :=
  ∃ children, q' = (q.1, { q.2 with children := children })

theorem findSome?_eq_map {α β : Type} (f : α → Option β) (xs : List α) :
    xs.findSome? f = (xs.map f).findSome? id := by
  rw [List.findSome?_map]
  rfl

theorem map_eq_of_sameEntry {β : Type} {f : Nat × Class → β} {chain chain' : List (Nat × Class)}
    (h : List.Forall₂ SameEntry chain chain')
    (hf : ∀ row (c : Class) children, f (row, { c with children := children }) = f (row, c)) :
    chain'.map f = chain.map f := by
  induction h with
  | nil => rfl
  | cons hq _ ih =>
      obtain ⟨children, rfl⟩ := hq
      rw [List.map_cons, List.map_cons, ih]
      exact congrArg (· :: _) (hf _ _ _)

namespace ExtendsTo

variable {r r' r'' : Registry} {chain chain' : List (Nat × Class)}

theorem refl (r : Registry) : r.ExtendsTo r :=
  ⟨Nat.le_refl _, id, fun {_ c} hc => ⟨c.children, hc⟩⟩

theorem store (h : r.ExtendsTo r') (c : Class) : r.ExtendsTo (r'.store c) := by
  refine ⟨?_, h.find, fun {row d} hd => ?_⟩
  · exact Nat.le_trans h.size_le (by simp [Registry.store])
  · obtain ⟨children, hd'⟩ := h.classes hd
    refine ⟨children, ?_⟩
    rw [classAt?_store, if_neg (Nat.ne_of_lt (classAt?_lt hd')), hd']

theorem sameButChildren (h : r.ExtendsTo r') (hsame : SameButChildren r' r'') : r.ExtendsTo r'' := by
  refine ⟨?_, fun hfind => ?_, fun hc => ?_⟩
  · exact hsame.size_eq ▸ h.size_le
  · rw [hsame.find?_eq]
    exact h.find hfind
  · obtain ⟨children, hc'⟩ := h.classes hc
    obtain ⟨children', hc''⟩ := hsame.classes hc'
    exact ⟨children', hc''⟩

theorem enlist (h : r.ExtendsTo r') {row : Nat} {name : Text} (hnew : r'.find? name = none) :
    r.ExtendsTo (r'.enlist row name) := by
  refine ⟨h.size_le, fun {name' p} hfind => ?_, h.classes⟩
  have hfind' := h.find hfind
  rw [find?_enlist, if_neg]
  · exact hfind'
  · rintro rfl
    cases hnew.symm.trans hfind'

theorem apply (h : r.ExtendsTo r') {op : Operation} (hop : op.Beyond r.rows.size) :
    r.ExtendsTo (op.apply r') := by
  rcases hop with ⟨spec, rfl⟩ | ⟨row, hrow, hle⟩
  · rw [Operation.apply, Operation.run, final_discard]
    cases hcreate : Registry.createClass spec r' with
    | ok row r'' =>
        obtain ⟨-, hnew, -, -, -, -, hsame, -⟩ := createClass_ok hcreate
        exact ((h.store _).enlist hnew).sameButChildren hsame
    | error e r'' =>
        rcases createClass_error hcreate with rfl | hsame
        · exact h
        · exact (h.store _).sameButChildren hsame
  · rcases Operation.apply_changesAt r' hrow with heq | ⟨f, heq, -⟩
    · rw [heq]
      exact h
    · rw [heq]
      refine ⟨?_, h.find, fun {p c} hc => ?_⟩
      · rw [size_modifyClass]
        exact h.size_le
      · rw [classAt?_modifyClass, if_neg]
        · exact h.classes hc
        · have hlt := classAt?_lt hc
          omega

theorem foldl (h : r.ExtendsTo r') {ops : List Operation} (hops : ∀ op ∈ ops, op.Beyond r.rows.size) :
    r.ExtendsTo (ops.foldl Operation.apply r') := by
  induction ops generalizing r' with
  | nil => exact h
  | cons op ops ih =>
      obtain ⟨hop, hops⟩ := List.forall_mem_cons.mp hops
      exact ih (h.apply hop) hops

/-- The chain of a class stays, but for the children of its classes. -/
theorem exists_chain (h : r.ExtendsTo r') {row : Nat} (hchain : r.IsChain row chain) :
    ∃ chain', r'.IsChain row chain' ∧ List.Forall₂ SameEntry chain chain' := by
  induction hchain with
  | root hc hroot =>
      obtain ⟨children, hc'⟩ := h.classes hc
      exact ⟨_, .root hc' hroot, .cons ⟨children, rfl⟩ .nil⟩
  | super hc hsuper hparent _ ih =>
      obtain ⟨children, hc'⟩ := h.classes hc
      obtain ⟨rest', hrest', hall⟩ := ih
      exact ⟨_, .super hc' hsuper (h.find hparent) hrest', .cons ⟨children, rfl⟩ hall⟩

theorem declaredIn?_eq (h : r.ExtendsTo r') (sig : Signature) {name : Text} {row : Nat} {c : Class}
    (hfind : r.find? name = some row) (hc : r.classAt? row = some c) :
    r'.declaredIn? sig name = r.declaredIn? sig name := by
  obtain ⟨children, hc'⟩ := h.classes hc
  rw [Registry.declaredIn?_eq hfind hc, Registry.declaredIn?_eq (h.find hfind) hc']
  rfl

theorem layer_eq (h : r.ExtendsTo r') (hknown : r.InterfacesKnown chain)
    (hall : List.Forall₂ SameEntry chain chain') (n : Nat) :
    r'.layer chain' n = r.layer chain n := by
  induction n with
  | zero =>
      rw [layer, layer, List.flatMap_def, List.flatMap_def,
        map_eq_of_sameEntry hall fun _ _ _ => rfl]
  | succ n ih =>
      rw [layer, layer, ih]
      refine List.flatMap_congr fun name hname => ?_
      obtain ⟨row, c, hfind, hc, -⟩ := hknown (interfaceOf_iff.mpr ⟨n, hname⟩)
      obtain ⟨children, hc'⟩ := h.classes hc
      rw [hfind, h.find hfind, Option.bind_some, Option.bind_some, hc, hc']
      rfl

/-- The answer for a class stays. -/
theorem findMember_eq (h : r.ExtendsTo r') {m : Member} {row : Nat}
    (hrow : r.find? m.className = some row) (hchain : r.IsChain row chain)
    (hlength : chain.length ≤ r.rows.size) (hknown : r.InterfacesKnown chain) :
    r'.findMember m = r.findMember m := by
  obtain ⟨chain', hchain', hall⟩ := h.exists_chain hchain
  have hlayer := h.layer_eq hknown hall
  have hknown' : r'.InterfacesKnown chain' := by
    intro name hname
    obtain ⟨n, hn⟩ := interfaceOf_iff.mp hname
    obtain ⟨p, c, hfind, hc, hname⟩ := hknown (interfaceOf_iff.mpr ⟨n, hlayer n ▸ hn⟩)
    obtain ⟨children, hc'⟩ := h.classes hc
    exact ⟨p, _, h.find hfind, hc', hname⟩
  have hnearest : nearest? chain' m.sig = nearest? chain m.sig := by
    rw [nearest?, nearest?, findSome?_eq_map _ chain', findSome?_eq_map _ chain,
      map_eq_of_sameEntry hall fun _ _ _ => rfl]
  have hfirst : ∀ n, r'.firstIn? chain' m.sig n = r.firstIn? chain m.sig n := by
    intro n
    rw [firstIn?, firstIn?, hlayer, findSome?_eq_map (r'.declaredIn? m.sig),
      findSome?_eq_map (r.declaredIn? m.sig)]
    refine congrArg _ (List.map_congr_left fun name hname => ?_)
    obtain ⟨p, c, hfind, hc, -⟩ := hknown (interfaceOf_iff.mpr ⟨n, hname⟩)
    exact h.declaredIn?_eq m.sig hfind hc
  have hanswers : r'.Answers chain' m (r'.findMember m) := by
    refine findMember_answers (h.find hrow) hchain' ?_ hknown'
    rw [← hall.length_eq]
    exact Nat.le_trans hlength h.size_le
  suffices hsame : r.Answers chain m (r'.findMember m) from
    hsame.unique (findMember_answers hrow hchain hlength hknown)
  generalize r'.findMember m = answer at hanswers
  cases hanswers with
  | onChain hfound => exact .onChain (hnearest ▸ hfound)
  | inInterface hnone hbefore hfound =>
      exact .inInterface (hnearest ▸ hnone) (fun k hk => hfirst k ▸ hbefore k hk)
        (hfirst _ ▸ hfound)
  | nowhere hnone hnowhere => exact .nowhere (hnearest ▸ hnone) fun n => hfirst n ▸ hnowhere n

end ExtendsTo

/-! ### The answer for a registered class -/

/-- Lookup of members in a registry whose supertypes are all registered: every registered class has a
chain that ends at the root, a lookup answers for it, with the nearest class that declares the
signature or else the first interface, or with a failure exactly when none of them declares it, and
what is registered later does not change the answer. -/
theorem findMember_correct (r : Registry) (h : r.Reachable) (hknown : r.SupertypesKnown) (row : Nat)
    (c : Class) (hrow : row ∈ r.live) (hc : r.classAt? row = some c) :
    ∃ chain, r.IsChain row chain ∧ ∀ sig,
      r.Answers chain (c.member sig) (r.findMember (c.member sig)) ∧
      (r.findMember (c.member sig) = .error (.unresolved (c.member sig)) ↔
        (∀ q ∈ chain, q.2.declared? sig = none) ∧
          ∀ name, r.InterfaceOf chain name → r.declaredIn? sig name = none) ∧
      ∀ ops : List Operation, (∀ op ∈ ops, op.Beyond r.rows.size) →
        (ops.foldl Operation.apply r).findMember (c.member sig) = r.findMember (c.member sig) := by
  have hdesc := h.descending
  obtain ⟨chain, hchain, hlength⟩ := exists_chain hdesc hknown hrow hc
  have hlength : chain.length ≤ r.rows.size := Nat.le_trans hlength (classAt?_lt hc)
  have hinterfaces : r.InterfacesKnown chain :=
    hdesc.interfacesKnown hknown (hchain.mem_live hdesc hrow)
  refine ⟨chain, hchain, fun sig => ?_⟩
  have hfind : r.find? (c.member sig).className = some row := hdesc.find_self hrow hc
  have hanswers := findMember_answers hfind hchain hlength hinterfaces
  refine ⟨hanswers, ⟨fun herror => ?_, fun ⟨hnone, hnowhere⟩ => ?_⟩, fun ops hops => ?_⟩
  · rw [herror] at hanswers
    cases hanswers with
    | nowhere hnone hnowhere =>
        refine ⟨nearest?_eq_none.mp hnone, fun name hname => ?_⟩
        obtain ⟨n, hn⟩ := interfaceOf_iff.mp hname
        exact firstIn?_eq_none.mp (hnowhere n) name hn
  · refine hanswers.unique (.nowhere (nearest?_eq_none.mpr hnone) fun n => ?_)
    exact firstIn?_eq_none.mpr fun name hname => hnowhere name (interfaceOf_iff.mpr ⟨n, hname⟩)
  · exact ((ExtendsTo.refl r).foldl hops).findMember_eq hfind hchain hlength hinterfaces

/-- Registers an interface without a pool. -/
def Operation.bareInterface (name super : Text) (interfaces : List Text) : Operation :=
  .createClass { name, super, kind := .ordinary, interfaces, element := [], elementType := 0
                 poolSize := 1 }

/-- `D` extends `C`, which implements `J` and `K`; both extend `I`, and `I` and `K` declare `m`. -/
def diamondOps : List Operation := [
  .bareClass "R" [], .bareInterface "I" "R" [], .bareInterface "J" "R" ["I"],
  .bareInterface "K" "R" ["I"], .bareInterface "C" "R" ["J", "K"], .bareClass "D" "C",
  .bareMethod 0 "n" [0xB1], .bareMethod 1 "m" [0xB1], .bareMethod 3 "m" [0xB1]]

theorem findMember_correct_diamond : ∃ r c, r = diamondOps.foldl Operation.apply {} ∧
    r.Reachable ∧ r.SupertypesKnown ∧ 5 ∈ r.live ∧ r.classAt? 5 = some c ∧
    (["m", "n", "x"].map fun name =>
      (r.findMember (c.member ⟨name, "()V"⟩)).toOption.map Prod.fst) = [some 3, some 0, none] ∧
    ∃ chain, r.IsChain 5 chain ∧ ∀ sig,
      r.Answers chain (c.member sig) (r.findMember (c.member sig)) ∧
      (r.findMember (c.member sig) = .error (.unresolved (c.member sig)) ↔
        (∀ q ∈ chain, q.2.declared? sig = none) ∧
          ∀ name, r.InterfaceOf chain name → r.declaredIn? sig name = none) ∧
      ∀ ops : List Operation, (∀ op ∈ ops, op.Beyond r.rows.size) →
        (ops.foldl Operation.apply r).findMember (c.member sig) = r.findMember (c.member sig) := by
  have hcheck : ((diamondOps.foldl Operation.apply {}).classAt? 5).any (fun c =>
      5 ∈ (diamondOps.foldl Operation.apply {}).live ∧
      (["m", "n", "x"].map fun name => ((diamondOps.foldl Operation.apply {}).findMember
        (c.member ⟨name, "()V"⟩)).toOption.map Prod.fst) = [some 3, some 0, none]) = true := by
    decide +kernel
  rw [Option.any_eq_true] at hcheck
  obtain ⟨c, hc, hcheck⟩ := hcheck
  obtain ⟨hrow, hfound⟩ := of_decide_eq_true hcheck
  have hreach : (diamondOps.foldl Operation.apply {}).Reachable :=
    Reachable.empty.foldl diamondOps (by decide +kernel)
  have hknown := hreach.supertypesKnown (by decide +kernel)
  exact ⟨_, c, rfl, hreach, hknown, hrow, hc, hfound, findMember_correct _ hreach hknown 5 c hrow hc⟩

/-! ### After a failed compaction -/

/-- A class `E` below `D` is kept and a compaction fails, because a reference was kept after linking.
With it the name of `D` is forgotten, though `D` stays registered. -/
def forgottenOps : List Operation := [
  .bareClass "R" [], .bareClass "D" "R", .bareMethod 1 "s" [0xB1], .bareClass "E" "D",
  .createClassRef 2 1 "R", .keepClass 0, .keepClass 2, .link, .keepRef ⟨2, 0⟩, .compact]

/-- Whether every supertype that a registered class names is registered. -/
def knowsSupertypes (r : Registry) : Bool :=
  r.live.all fun row => (r.classAt? row).all fun c =>
    (c.super.isEmpty || (r.find? c.super).isSome) && c.interfaces.all fun name =>
      (r.find? name).isSome

theorem supertypesKnown_of_knowsSupertypes {r : Registry} (h : r.knowsSupertypes = true) :
    r.SupertypesKnown := by
  have hclass : ∀ {row c}, row ∈ r.live → r.classAt? row = some c →
      (c.super = [] ∨ ∃ p, r.find? c.super = some p) ∧
        ∀ name ∈ c.interfaces, ∃ p, r.find? name = some p := by
    intro row c hrow hc
    have hrow := List.all_eq_true.mp h row hrow
    simpa [hc, Option.isSome_iff_exists] using hrow
  exact ⟨fun hrow hc hne => (hclass hrow hc).1.resolve_left hne,
    fun hrow hc hname => (hclass hrow hc).2 _ hname⟩

/-- Another class is registered under the forgotten name. -/
def shadowedOps : List Operation := forgottenOps ++ [.bareClass "D" "R"]

/-- After a compaction that failed, a class may be registered under the name of another one, and what
the other one declares is not found. -/
theorem lookup_lost_after_failure : ∃ r c,
    r = shadowedOps.foldl Operation.apply {} ∧ r.SupertypesKnown ∧
    1 ∈ r.live ∧ r.classAt? 1 = some c ∧
    ¬ ∃ chain, r.IsChain 1 chain ∧ r.Answers chain (c.member ⟨"s", "()V"⟩)
      (r.findMember (c.member ⟨"s", "()V"⟩)) := by
  have hcheck : ((shadowedOps.foldl Operation.apply {}).classAt? 1).any
      (fun c => (shadowedOps.foldl Operation.apply {}).knowsSupertypes ∧
        1 ∈ (shadowedOps.foldl Operation.apply {}).live ∧
        (c.declared? ⟨"s", "()V"⟩).isSome ∧
        ((shadowedOps.foldl Operation.apply {}).findMember
          (c.member ⟨"s", "()V"⟩)).toOption = none) = true := by decide +kernel
  rw [Option.any_eq_true] at hcheck
  obtain ⟨c, hc, hcheck⟩ := hcheck
  obtain ⟨hknows, hrow, hsome, hfound⟩ := of_decide_eq_true hcheck
  refine ⟨_, c, rfl, supertypesKnown_of_knowsSupertypes hknows, hrow, hc, ?_⟩
  rintro ⟨chain, hchain, hanswers⟩
  obtain ⟨d, hd⟩ := Option.isSome_iff_exists.mp hsome
  have hnearest : nearest? chain ⟨"s", "()V"⟩ = some (1, d) := by
    cases hchain with
    | root hc' =>
        cases hc.symm.trans hc'
        exact nearest?_of_declared hd
    | super hc' =>
        cases hc.symm.trans hc'
        exact nearest?_of_declared hd
  rw [hanswers.unique (.onChain hnearest)] at hfound
  cases hfound

end ClassLinker.Registry
