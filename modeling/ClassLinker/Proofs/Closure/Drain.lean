import ClassLinker.Proofs.Closure.Spending

/-! What requiring spends. A member that becomes kept pays for the members that it makes pending, and a
catalog entry for those of its expansion, so working off what is pending comes to an end. -/

namespace ClassLinker

namespace Closure

open LinkM RegistryM Step Registry

variable {s : Source} {l l' t : Linker} {name : Text}

/-! ### Catalog entries -/

/-- No more entries can be kept than the catalog has. -/
theorem length_le_catalog {ids : List Nat} (hsorted : ids.Pairwise (· < ·))
    (hids : ∀ id ∈ ids, id < Builtin.catalog.length) : ids.length ≤ Builtin.catalog.length := by
  have hnodup : ids.Nodup := hsorted.imp fun hlt => Nat.ne_of_lt hlt
  have hsub : ids ⊆ List.range Builtin.catalog.length := fun id hid => List.mem_range.mpr (hids id hid)
  calc
    ids.length ≤ (List.range Builtin.catalog.length).length :=
      (List.Nodup.subperm hnodup hsub).length_le
    _ = Builtin.catalog.length := List.length_range

/-- A list of entries that has one more than a sorted one is longer. -/
theorem length_lt_of_new {n : Nat} {ids kept : List Nat} (hsorted : ids.Pairwise (· < ·))
    (hnew : n ∉ ids) (hsub : ∀ k, k ∈ ids → k ∈ kept) (hn : n ∈ kept) :
    ids.length + 1 ≤ kept.length := by
  have hnodup : (n :: ids).Nodup :=
    List.nodup_cons.mpr ⟨hnew, hsorted.imp fun hlt => Nat.ne_of_lt hlt⟩
  exact (List.Nodup.subperm hnodup (List.forall_mem_cons.mpr ⟨hn, hsub⟩)).length_le

/-- An expansion is no longer than the catalog. -/
theorem length_expand_le : ∀ id < Builtin.catalog.length,
    ((Builtin.expand? id).map List.length).getD 0 ≤ Builtin.catalog.length := by decide +kernel

/-- An expansion is loaded, and its members become pending. -/
theorem loadEntries_metered (ids : List Nat) : Metered s ids.length 0
    ((ids.filterMap fun (e : Nat) => Builtin.lookup? e).forM fun e => do
      discard (loadClass s e.className)
      if e.isMember then push ⟨e.className, e.member, e.descriptor⟩) := by
  have hentry : ∀ e : Builtin, Metered s 1 0 (do
      discard (loadClass s e.className)
      if e.isMember then push ⟨e.className, e.member, e.descriptor⟩) := by
    intro e
    refine (loadClass_metered e.className).discard.seq fun _ => ?_
    split
    · exact .push _
    · exact (Metered.pure _).mono (Nat.zero_le _) (Nat.le_refl _)
  refine (Metered.forM (n := fun _ => 1) fun e _ => hentry e).mono ?_ (Nat.le_refl _)
  rw [total_map_one]
  exact List.length_filterMap_le _ _

/-- A new entry pays for the members of its expansion. -/
theorem keepBuiltin_metered (id : Int) : Metered s 0 0 (keepBuiltin s id) := by
  refine ⟨fun {l} hl => ?_⟩
  rw [keepBuiltin, bind_of_ok (get_ok.mpr ⟨rfl, rfl⟩)]
  split
  · exact .refl hl
  rename_i hany
  cases hkeep : Builtin.keep? l.builtins id with
  | none => exact .refl hl
  | some kept =>
      obtain ⟨ids, hexpand, hkept⟩ := Builtin.keep?_eq_some hkeep
      obtain ⟨n, rfl, hself, hids⟩ := Builtin.exists_of_expand? hexpand
      have hcatalog : ∀ k ∈ kept, k < Builtin.catalog.length := by
        intro k hk
        rcases (hkept k).mp hk with hk | ⟨e, he, hk⟩
        · exact hl.catalog k hk
        · obtain ⟨b, hb, -⟩ := hids e he
          rcases hk with rfl | rfl
          · exact (List.getElem?_eq_some_iff.mp hb).1
          · obtain ⟨a, ha, -⟩ := Builtin.classEntry_of_mem b (List.mem_of_getElem? hb)
            rw [hb]
            exact (List.getElem?_eq_some_iff.mp ha).1
      have hnew : n ∉ l.builtins := fun hn => hany (List.any_eq_true.mpr ⟨n, hn, by simp⟩)
      have hlonger := length_lt_of_new hl.sorted hnew (fun k hk => (hkept k).mpr (.inl hk))
        ((hkept n).mpr (.inr ⟨n, hself, .inl rfl⟩))
      have hsorted := Builtin.sorted_keep? hkeep hl.sorted
      have hfit : Linker.Fit { l with builtins := kept } :=
        ⟨hl.orderly, hsorted, hcatalog, hl.plain⟩
      have hpaid : ({ l with builtins := kept } : Linker).callsLeft s + Builtin.catalog.length ≤
          l.callsLeft s := by
        have hle := length_le_catalog hsorted hcatalog
        have hless : Builtin.catalog.length - kept.length + 1 ≤
            Builtin.catalog.length - l.builtins.length := by omega
        have hmul := Nat.mul_le_mul_left Builtin.catalog.length hless
        rw [Nat.mul_succ] at hmul
        unfold Linker.callsLeft
        dsimp only
        omega
      have hlength := length_expand_le n (hcatalog n ((hkept n).mpr (.inr ⟨n, hself, .inl rfl⟩)))
      rw [hexpand, Option.map_some, Option.getD_some] at hlength
      simp only [hexpand]
      rw [bind_of_ok (a := .unit) (set_ok.mpr rfl)]
      refine .of_paid ((loadEntries_metered ids).spends hfit) rfl ?_ (Nat.le_refl _)
      omega

/-! ### Members -/

theorem expand_metered (m : Method) : Metered s m.memberDeps.length 0 (expand s m) := by
  have hkeepRef : ∀ a, Metered s 0 0 (discard (onRegistry (keepRef a))) := fun a =>
    (Metered.of_sameMethods (keepRef_keepsOrder a) (keepRef_sameMethods a)).discard
  have hpush : Metered s m.memberDeps.length 0
      (m.memberDeps.reverse.forM fun a => do push (← memberAt a)) := by
    refine (Metered.forM (n := fun _ => 1) fun a _ => Metered.seq ?_ fun m => .push m).mono ?_
      (Nat.le_refl _)
    · refine (Metered.readRef a).seq fun ref => ?_
      split
      · exact .pure _
      · exact .fault
    · rw [total_map_one, List.length_reverse]
  refine (Metered.loop fun a _ => ?_).seq fun _ => (Metered.loop fun code _ => ?_).seq fun _ =>
    (Metered.loop fun a _ => ?_).seq fun _ => (Metered.loop fun id _ => ?_).seq fun _ =>
    (Metered.loop fun a _ => hkeepRef a).seq fun _ => hpush
  · refine (hkeepRef a).seq fun _ => (Metered.readRef a).seq fun ref => ?_
    split
    · exact (loadClass_metered _).discard
    · exact .fault
  · exact (loadClass_metered _).discard
  · refine (hkeepRef a).seq fun _ => (Metered.readRef a).seq fun ref => ?_
    split
    · exact (loadClass_metered _).discard
    · exact .pure _
  · exact keepBuiltin_metered id

/-- What is spent on following a member that is found and marked. A method that becomes kept pays for
the members that it refers to, and it is one method less that can become kept. -/
theorem follow_spends {row : Nat} {c : Class} {d : Declaration} {fresh : Bool} {r : Registry}
    (hl : l.Fit) (hc : l.registry.classAt? row = some c) (hd : c.declared? d.sig = some d)
    (hkeep : keepMember row d.sig l.registry = .ok fresh r) :
    let t := final ((if fresh then follow s d else pure () : LinkM Unit) { l with registry := r })
    Spends s 0 0 l t ∧
      t.registry.openMethods s + (if fresh then d.weight (fun _ => 1) else 0) ≤
        l.registry.openMethods s := by
  obtain ⟨horderly, -⟩ := Registry.Orderly.keepMember hl.orderly hc hd hkeep
  have hwf := hl.orderly.tidy.wellFormed
  have hcalls : r.openCalls s + _ ≤ l.registry.openCalls s :=
    reserve_keepMember hwf hc hd hkeep Registry.inherent_calls
  have hmethods : r.openMethods s + _ ≤ l.registry.openMethods s :=
    reserve_keepMember hwf hc hd hkeep fun _ => rfl
  have hkept : (if fresh then d.weight (fun _ => 1) else 0) = 0 →
      Spends s 0 0 l { l with registry := r } := fun hzero =>
    .of_registry hl (by rwa [hzero] at horderly)
      ⟨Nat.le_trans (Nat.le_add_right _ _) hcalls, Nat.le_trans (Nat.le_add_right _ _) hmethods⟩
  cases fresh with
  | false => exact ⟨hkept rfl, hmethods⟩
  | true =>
      cases d with
      | field f => exact ⟨hkept rfl, hmethods⟩
      | method method =>
          simp only [if_true, Declaration.weight] at horderly hcalls hmethods ⊢
          rw [follow_method]
          have hfit : Linker.Fit { l with registry := r, expansions := l.expansions + 1 } :=
            ⟨horderly, hl.sorted, hl.catalog, hl.plain⟩
          have hspent := (expand_metered (s := s) method).spends hfit
          refine ⟨.of_paid hspent rfl ?_ (Nat.le_trans (Nat.le_add_right _ 1) hmethods),
            Nat.le_trans (Nat.add_le_add_right hspent.methods 1) hmethods⟩
          unfold Linker.callsLeft
          dsimp only
          omega

/-- Requiring one member makes no more pending than it pays for. -/
theorem requireOne_metered (m : Member) : Metered s 0 0 (requireOne s m) := by
  refine (loadClass_metered m.className).discard.seq fun _ => ⟨fun {l} hl => ?_⟩
  rcases requireLoaded_cases m l with ⟨e, hrun⟩ | ⟨row, d, fresh, r, hfind, hkeep, hrun⟩
  · rw [hrun]
    exact .refl hl
  · rw [hrun]
    obtain ⟨name, c, -, hc, hd⟩ := findMember_ok hfind
    rw [← Class.sig_of_declared? hd] at hd
    exact (follow_spends hl hc hd hkeep).1

/-- Requiring a declared method that is not kept leaves one method less that can become kept. -/
theorem requireOne_keeps {row : Nat} {c : Class} {method : Method} {sig : Signature} (hl : l.Fit)
    (hc : l.registry.classAt? row = some c) (hd : c.declared? sig = some (.method method))
    (hdropped : method.kept = false) (hok : requireOne s (c.member sig) l = .ok () l') :
    l'.registry.openMethods s + 1 ≤ l.registry.openMethods s := by
  have hrow := hl.orderly.tidy.find_self hc
  have hload : loadClass s (c.member sig).className l = .ok row l := by
    simp only [loadClass, loadFrom, bind_ok, registered?_ok, and_assoc]
    exact ⟨_, _, hrow, rfl, pure_ok.mpr ⟨rfl, rfl⟩⟩
  rw [requireOne, bind_of_ok (discard_ok (b := ()).mpr ⟨row, hload⟩)] at hok
  rcases requireLoaded_cases (c.member sig) l with
    ⟨e, hrun⟩ | ⟨row', d, fresh, r, hfind, hkeep, hrun⟩
  · cases (hrun s).symm.trans hok
  cases (findMember_of_declared (m := c.member sig) hrow hc hd).symm.trans hfind
  rw [← Class.sig_of_declared? hd] at hd
  obtain rfl : fresh = true := by
    obtain ⟨-, c', hc', -, ⟨⟨d, hd', hkept⟩, -, -⟩ | ⟨-, hfresh, -⟩⟩ := keepMember_ok.mp hkeep
    · cases hc.symm.trans hc'
      cases hd.symm.trans hd'
      exact absurd hkept (by rw [Declaration.kept, hdropped]; exact Bool.false_ne_true)
    · exact hfresh
  have hspent := (follow_spends (s := s) hl hc hd hkeep).2
  rwa [← hrun, hok] at hspent

/-! ### Requiring all of them -/

theorem callsLeft_cons {m : Member} {rest : List Member} (hpending : l.pending = m :: rest) :
    ({ l with pending := rest } : Linker).callsLeft s + 1 = l.callsLeft s := by
  unfold Linker.callsLeft
  rw [hpending, List.length_cons]
  dsimp only
  omega

/-- A queue is worked off when there is fuel for all that is still to come. Its first member is paid
for by leaving the queue. -/
theorem drainFrom_spends {fuel : Nat} (hl : l.Fit) (hfuel : l.callsLeft s ≤ fuel) :
    Spends s 0 0 { l with pending := l.pending.tail } (final (drainFrom s fuel l)) := by
  have hempty : ∀ {l : Linker} {fuel : Nat}, l.Fit → l.pending = [] →
      Spends s 0 0 { l with pending := l.pending.tail } (final (drainFrom s fuel l)) := by
    intro l fuel hl hnone
    rw [drainFrom_nil fuel hnone, hnone, List.tail_nil, ← hnone]
    exact .refl hl
  induction fuel generalizing l with
  | zero =>
      unfold Linker.callsLeft at hfuel
      exact hempty hl (List.length_eq_zero_iff.mp (by omega))
  | succ fuel ih =>
      cases hpending : l.pending with
      | nil => exact hpending ▸ hempty hl hpending
      | cons m rest =>
          have hrest := callsLeft_cons (s := s) hpending
          have hone := (requireOne_metered (s := s) m).spends (hl.repend rest)
          rw [drainFrom_cons hpending, List.tail_cons]
          cases hrun : requireOne s m { l with pending := rest } with
          | ok u t =>
              rw [hrun] at hone
              have hcalls : t.callsLeft s ≤ ({ l with pending := rest } : Linker).callsLeft s :=
                hone.calls
              have hdrain := ih hone.fit (show t.callsLeft s ≤ fuel by omega)
              refine hone.trans (hdrain.of_paid rfl ?_ (Nat.le_refl _))
              unfold Linker.callsLeft
              dsimp only [final]
              rw [List.length_tail]
              omega
          | error e t =>
              rw [hrun] at hone
              cases e with
              | fault => exact hone
              | error e =>
                  refine ⟨hone.fit.repend [], hone.cut_eq, Nat.le_trans ?_ hone.calls, hone.methods⟩
                  unfold Linker.callsLeft
                  dsimp only [final, List.length_nil]
                  omega

theorem callsLeft_le_workBound (s : Source) (l : Linker) : l.callsLeft s ≤ workBound s l := by
  have hcalls : l.registry.openCalls s ≤ _ := reserve_le s _ _ l.registry
  have hcatalog : Builtin.catalog.length * (Builtin.catalog.length - l.builtins.length) ≤
      Builtin.catalog.length * Builtin.catalog.length := Nat.mul_le_mul_left _ (Nat.sub_le _ _)
  unfold Linker.callsLeft workBound
  omega

theorem drain_spends (hl : l.Fit) :
    Spends s 0 0 { l with pending := l.pending.tail } (final (drain s l)) :=
  drainFrom_spends hl (callsLeft_le_workBound s l)

theorem require_metered (m : Member) : Metered s 0 0 (require s m) := by
  refine ⟨fun {l} hl => ?_⟩
  rw [require, bind_of_ok (a := .unit) (push_ok.mpr rfl)]
  exact drain_spends (hl.repend (m :: l.pending))

theorem load_metered (name : Text) : Metered s 0 0 (load s name) := by
  have hdrain : Metered s 0 0 (drain s) := by
    refine ⟨fun {l} hl => (drain_spends hl).of_paid rfl ?_ (Nat.le_refl _)⟩
    unfold Linker.callsLeft
    dsimp only
    rw [List.length_tail]
    omega
  exact (loadClass_metered name).seq fun _ => hdrain.seq fun _ => .pure _

/-- A method that was not kept can no longer become kept once it is required. -/
theorem require_keeps {row : Nat} {c : Class} {method : Method} {sig : Signature} (hl : l.Fit)
    (hc : l.registry.classAt? row = some c) (hd : c.declared? sig = some (.method method))
    (hdropped : method.kept = false) (hok : require s (c.member sig) l = .ok () l') :
    l'.registry.openMethods s + 1 ≤ l.registry.openMethods s := by
  have hbound := callsLeft_le_workBound s { l with pending := c.member sig :: l.pending }
  have hcons : l.callsLeft s + 1 = _ :=
    callsLeft_cons (l := { l with pending := c.member sig :: l.pending }) rfl
  rw [← hcons] at hbound
  obtain ⟨fuel, hfuel⟩ := Nat.exists_eq_add_one.mpr (Nat.lt_of_lt_of_le (Nat.succ_pos _) hbound)
  rw [require, bind_of_ok (a := .unit) (push_ok.mpr rfl), drain, hfuel, drainFrom_cons rfl] at hok
  have hone := (requireOne_metered (s := s) (c.member sig)).spends hl
  cases hrun : requireOne s (c.member sig) l with
  | error e t =>
      simp only [hrun] at hok
      cases e <;> cases hok
  | ok u t =>
      rw [hrun] at hone
      simp only [hrun] at hok
      have hcalls : t.callsLeft s ≤ l.callsLeft s := hone.calls
      have hdrain := drainFrom_spends (s := s) hone.fit (show t.callsLeft s ≤ fuel by omega)
      dsimp only [final] at hdrain
      rw [hok] at hdrain
      have hmethods : l'.registry.openMethods s ≤ t.registry.openMethods s := hdrain.methods
      exact Nat.le_trans (Nat.add_le_add_right hmethods 1)
        (requireOne_keeps hl hc hd hdropped hrun)

end Closure

end ClassLinker
