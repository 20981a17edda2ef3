import ClassLinker.InitOrder.Startup
import ClassLinker.Proofs.Closure.Uses
import ClassLinker.Proofs.Registry.Meaning

/-! Adding the startup method. The entry class gets one more kept reference for each call, at the
slots above everything in use, and a kept method whose code calls through them; nothing else
happens to the registry. It fails only when the slots run out or the class has such a method. -/

namespace ClassLinker

/-- The kept reference of a call. -/
def callRef (owner : Nat) (slot : Int) (m : Member) : Reference :=
  { owner, slot, kept := true, body := .memberRef m none none none none }

namespace Class

/-- The class with a kept reference to a member at its next slot. -/
def addCall (c : Class) (m : Member) : Class :=
  { c with
    pool := c.pool.push (callRef c.id (c.maxSlot + 1) m)
    listed := c.listed ++ [c.pool.size]
    slots := (c.maxSlot + 1, c.pool.size) :: c.slots
    maxSlot := c.maxSlot + 1 }

/-- The class with kept references to members at its next slots. -/
def addCalls (c : Class) (ms : List Member) : Class := ms.foldl addCall c

theorem addCalls_frame (c : Class) (ms : List Member) : c.addCalls ms = { c with
    pool := (c.addCalls ms).pool, listed := (c.addCalls ms).listed
    slots := (c.addCalls ms).slots, maxSlot := c.maxSlot + ms.length } := by
  induction ms generalizing c with
  | nil =>
      show c = { c with maxSlot := c.maxSlot + 0 }
      rw [Int.add_zero]
  | cons m ms ih =>
      show (c.addCall m).addCalls ms = _
      rw [ih]
      simp only [addCall, addCalls, List.foldl_cons, List.length_cons]
      congr 1
      omega

theorem references_addCall {c : Class} (hlt : ∀ pos ∈ c.listed, pos < c.pool.size) (m : Member) :
    (c.addCall m).references =
      c.references ++ [(c.pool.size, callRef c.id (c.maxSlot + 1) m)] := by
  unfold references
  simp only [addCall, List.filterMap_append]
  congr 1
  · refine List.filterMap_congr fun pos hpos => ?_
    rw [Array.getElem?_push_lt (hlt pos hpos), Array.getElem?_eq_getElem (hlt pos hpos)]
  · simp

/-- The references of the calls come after those of the class. -/
theorem mem_references_addCalls {c : Class} (hlt : ∀ pos ∈ c.listed, pos < c.pool.size)
    {ms : List Member} {pos : Nat} {ref : Reference} :
    (pos, ref) ∈ (c.addCalls ms).references ↔ (pos, ref) ∈ c.references ∨
      ∃ (i : Nat) (m : Member), ms[i]? = some m ∧ pos = c.pool.size + i ∧
        ref = callRef c.id (c.maxSlot + 1 + i) m := by
  induction ms generalizing c with
  | nil => simp [addCalls]
  | cons m ms ih =>
      have hlt' : ∀ pos ∈ (c.addCall m).listed, pos < (c.addCall m).pool.size := by
        intro pos hpos
        simp only [addCall, Array.size_push]
        rcases List.mem_append.mp hpos with hpos | hpos
        · exact Nat.lt_succ_of_lt (hlt pos hpos)
        · rw [List.mem_singleton.mp hpos]
          exact Nat.lt_succ_self _
      show (pos, ref) ∈ ((c.addCall m).addCalls ms).references ↔ _
      rw [ih hlt', references_addCall hlt, List.mem_append, List.mem_singleton, Prod.mk.injEq]
      constructor
      · rintro ((hold | ⟨rfl, rfl⟩) | ⟨i, m', hm', rfl, rfl⟩)
        · exact .inl hold
        · exact .inr ⟨0, m, rfl, rfl, by simp⟩
        · refine .inr ⟨i + 1, m', hm', ?_, ?_⟩
          · simp only [addCall, Array.size_push]
            omega
          · simp only [addCall]
            congr 1
            omega
      · rintro (hold | ⟨i, m', hm', rfl, rfl⟩)
        · exact .inl (.inl hold)
        · cases i with
          | zero =>
              cases hm'
              exact .inl (.inr ⟨rfl, by simp⟩)
          | succ i =>
              refine .inr ⟨i, m', hm', ?_, ?_⟩
              · simp only [addCall, Array.size_push]
                omega
              · simp only [addCall]
                congr 1
                omega

end Class

namespace InitOrder

open RegistryM Step Registry

variable {r : Registry} {row : Nat} {c : Class}

theorem push_modify_last {α : Type} (xs : Array α) (x : α) (f : α → α) :
    (xs.push x).modify xs.size f = xs.push (f x) := by
  refine Array.ext_getElem? fun i => ?_
  rw [Array.getElem?_modify, Array.getElem?_push, Array.getElem?_push]
  split <;> split <;> simp_all

/-- The next slot of a class is taken. -/
theorem allocSlot_next (hr : r.Tidy) (hc : r.classAt? row = some c) (hslot : c.maxSlot < lastSlot) :
    allocSlot row r = .ok (c.maxSlot + 1)
        (r.modifyClass row fun c => { c with maxSlot := c.maxSlot + 1 }) ∧
      (r.modifyClass row fun c => { c with maxSlot := c.maxSlot + 1 }).Tidy :=
  ⟨allocSlot_ok.mpr ⟨hr.isOpen, c, hc, hslot, rfl, rfl⟩,
    hr.modifyClass (hr.wellFormed.raiseMaxSlot row) fun _ => ⟨rfl, rfl, rfl, rfl⟩⟩

/-- A reference is created at a free slot. -/
theorem createRef_free (hr : r.Tidy) (hc : r.classAt? row = some c) {slot : Int} (hpos : 0 < slot)
    (hle : slot ≤ lastSlot) (hfree : c.slots.lookup slot = none) (body : RefBody) :
    createRef row slot body r = .ok ⟨row, c.pool.size⟩ (r.modifyClass row (Class.addRef slot body)) ∧
      (r.modifyClass row (Class.addRef slot body)).Tidy := by
  have hnone : r.refAddr? c.id slot = none := by
    rw [hr.refAddr?_eq hc]
    exact congrArg (Option.map (RefAddr.mk row)) hfree
  exact ⟨createRef_ok.mpr ⟨hr.isOpen, c, hc, hpos, hle, hnone, rfl, rfl⟩,
    hr.modifyClass (hr.wellFormed.addRef hc hpos hle hnone body) fun _ => ⟨rfl, rfl, rfl, rfl⟩⟩

/-- A reference of a kept class is kept. -/
theorem keepRef_fresh (hr : r.Tidy) (hc : r.classAt? row = some c) (hkept : c.kept = true) {pos : Nat}
    {ref : Reference} (href : c.pool[pos]? = some ref) (howner : ref.owner = c.id)
    (hnew : ref.kept = false) :
    keepRef ⟨row, pos⟩ r = .ok true (r.modifyRef ⟨row, pos⟩ markRef) ∧
      (r.modifyRef ⟨row, pos⟩ markRef).Tidy := by
  have hplace : r.byId? ref.owner = some row := by
    rw [howner, byId?, if_neg (by omega), Int.toNat_natCast]
    exact hr.wellFormed.getElem?_id (hr.live_of_class hc) hc
  exact ⟨keepRef_ok.mpr ⟨hr.isOpen, ref, refAt?_eq_some.mpr ⟨c, hc, href⟩, ⟨row, c, hplace, hc, hkept⟩,
      .inr ⟨hnew, rfl, rfl⟩⟩,
    hr.modifyClass (modifyRef_wellFormed hr.wellFormed ⟨row, pos⟩ fun _ => rfl)
      fun _ => ⟨rfl, rfl, rfl, rfl⟩⟩

/-- A call is added at the next slot of its class. -/
theorem addCall_ok (hr : r.Tidy) (hc : r.classAt? row = some c) (hkept : c.kept = true)
    (m : Member) (hslot : c.maxSlot < lastSlot) :
    addCall row m r = .ok (c.maxSlot + 1, ⟨row, c.pool.size⟩)
        (r.modifyClass row fun c => c.addCall m) ∧
      (r.modifyClass row fun c => c.addCall m).Tidy := by
  have hindexed := hr.indexed hc
  have hmax := hindexed.maxSlot_nonneg
  obtain ⟨halloc, htidy₁⟩ := allocSlot_next hr hc hslot
  generalize hr₁ : (r.modifyClass row fun c => { c with maxSlot := c.maxSlot + 1 }) = r₁
    at halloc htidy₁
  have hc₁ : r₁.classAt? row = some { c with maxSlot := c.maxSlot + 1 } := by
    rw [← hr₁, classAt?_modifyClass, if_pos rfl, hc, Option.map_some]
  have hfree : c.slots.lookup (c.maxSlot + 1) = none := hindexed.lookup_eq_none (by omega)
  obtain ⟨hcreate, htidy₂⟩ := createRef_free htidy₁ hc₁ (by omega) (by omega) hfree
    (.memberRef m none none none none)
  generalize hr₂ : r₁.modifyClass row
    (Class.addRef (c.maxSlot + 1) (.memberRef m none none none none)) = r₂ at hcreate htidy₂
  have hc₂ : r₂.classAt? row = some (Class.addRef (c.maxSlot + 1)
      (.memberRef m none none none none) { c with maxSlot := c.maxSlot + 1 }) := by
    rw [← hr₂, classAt?_modifyClass, if_pos rfl, hc₁, Option.map_some]
  obtain ⟨hkeep, htidy⟩ := keepRef_fresh htidy₂ hc₂ hkept (Array.getElem?_push_size ..) rfl rfl
  have hfinal : r₂.modifyRef ⟨row, c.pool.size⟩ markRef = r.modifyClass row fun c => c.addCall m := by
    rw [← hr₂, ← hr₁, modifyRef, modifyClass_modifyClass, modifyClass_modifyClass]
    refine modifyClass_congr hc ?_
    simp only [Function.comp_apply, Class.addRef, Class.addCall, push_modify_last]
    rw [Int.max_eq_right (by omega)]
    rfl
  rw [hfinal] at hkeep htidy
  have hdone : discard (keepRef ⟨row, c.pool.size⟩) r₂ = .ok () (r.modifyClass row (·.addCall m)) :=
    discard_ok.mpr ⟨true, hkeep⟩
  refine ⟨?_, htidy⟩
  unfold addCall createMemberRef
  rw [bind_of_ok halloc, bind_of_ok hcreate, bind_of_ok hdone]
  rfl

theorem addCall_error (hr : r.Tidy) (hc : r.classAt? row = some c) (m : Member)
    (hslot : lastSlot ≤ c.maxSlot) :
    addCall row m r = .error (.internal (.poolExhausted c.name)) r := by
  have halloc : allocSlot row r = .error (.internal (.poolExhausted c.name)) r := by
    unfold allocSlot
    rw [bind_of_ok (checkOpen_ok.mpr ⟨hr.isOpen, rfl⟩ : checkOpen .allocSlot r = .ok () r),
      bind_of_ok (classAt_ok.mpr ⟨hc, rfl⟩), if_pos hslot]
    rfl
  exact bind_of_error halloc

/-- The slots and the addresses of the next calls of a class. -/
def callSlots (row : Nat) (c : Class) (n : Nat) : List (Int × RefAddr) :=
  (List.range n).map fun i : Nat => (c.maxSlot + 1 + i, ⟨row, c.pool.size + i⟩)

theorem callSlots_succ (row : Nat) (c : Class) (m : Member) (n : Nat) :
    callSlots row c (n + 1) =
      (c.maxSlot + 1, ⟨row, c.pool.size⟩) :: callSlots row (c.addCall m) n := by
  unfold callSlots
  rw [List.range_succ_eq_map, List.map_cons, List.map_map]
  congr 1
  · simp
  · refine List.map_congr_left fun i _ => ?_
    simp only [Function.comp_apply, Class.addCall, Array.size_push, Prod.mk.injEq,
      RefAddr.mk.injEq, true_and]
    omega

/-- The calls are added when there are slots for all of them. -/
theorem mapM_addCall (hr : r.Tidy) (hc : r.classAt? row = some c) (hkept : c.kept = true)
    (ms : List Member) :
    ((ms ≠ [] → c.maxSlot + ms.length ≤ lastSlot) ∧
        ms.mapM (addCall row) r = .ok (callSlots row c ms.length)
          (r.modifyClass row fun c => c.addCalls ms) ∧
        (r.modifyClass row fun c => c.addCalls ms).Tidy) ∨
      lastSlot < c.maxSlot + ms.length ∧
        ∃ r', ms.mapM (addCall row) r = .error (.internal (.poolExhausted c.name)) r' := by
  induction ms generalizing r c with
  | nil =>
      have hsame : (r.modifyClass row fun c => c.addCalls []) = r := by
        rw [modifyClass_congr (g := fun _ => c) hc rfl, modifyClass_self hc]
      exact .inl ⟨fun h => absurd rfl h, by rw [hsame]; rfl, hsame.symm ▸ hr⟩
  | cons m ms ih =>
      rw [List.mapM_cons, List.length_cons]
      by_cases hslot : c.maxSlot < lastSlot
      · obtain ⟨hcall, htidy⟩ := addCall_ok hr hc hkept m hslot
        have hc' : (r.modifyClass row fun c => c.addCall m).classAt? row = some (c.addCall m) := by
          rw [classAt?_modifyClass, if_pos rfl, hc, Option.map_some]
        have hmax : (c.addCall m).maxSlot = c.maxSlot + 1 := rfl
        rw [bind_of_ok hcall]
        rcases ih htidy hc' hkept with ⟨hroom, hrest, htidy'⟩ | ⟨hfull, r', hrest⟩
        · rw [modifyClass_modifyClass] at hrest htidy'
          refine .inl ⟨fun _ => ?_, ?_, htidy'⟩
          · by_cases hnil : ms = []
            · subst hnil
              rw [List.length_nil]
              omega
            · have := hroom hnil
              omega
          · rw [bind_of_ok hrest, callSlots_succ row c m]
            rfl
        · exact .inr ⟨by omega, r', by rw [bind_of_error hrest]; rfl⟩
      · exact .inr ⟨by omega, r, bind_of_error (addCall_error hr hc m (by omega))⟩

/-! ### The startup method -/

/-- The slots of the next calls of a class. -/
def slotNumbers (c : Class) (n : Nat) : List Nat :=
  (List.range n).map fun i : Nat => (c.maxSlot + 1 + i).toNat

/-- The startup method of a class that is to make `n` calls. -/
def startupSpec (c : Class) (n : Nat) : MethodSpec :=
  { sig := Signature.startup, isStatic := true, isNative := false, isAbstract := false
    code := Code.invokeAll (slotNumbers c n) ++ [Opcode.ret]
    argSlots := 0, maxLocals := 0, lines := [], handlers := [] }

/-- The startup method that was added to a class, with the dependencies recorded for it. -/
def startupMethod (c : Class) (n : Nat) (deps : List RefAddr) : Method :=
  { (startupSpec c n).toMethod with memberDeps := deps, kept := true }

theorem startupMethod_rawCode (c : Class) (n : Nat) (deps : List RefAddr) :
    (startupMethod c n deps).rawCode = Code.invokeAll (slotNumbers c n) ++ [Opcode.ret] := rfl

/-- The class with one more method. -/
def withMethod (m : Method) (c : Class) : Class := { c with methods := c.methods ++ [m] }

/-- The class with a startup method that calls some members. -/
def withStartup (ms : List Member) (deps : List RefAddr) (c : Class) : Class :=
  withMethod (startupMethod c ms.length deps) (c.addCalls ms)

/-- The members that the startup method calls: the kept initializers in order, then the entry
method. -/
def startupCalls (r : Registry) (main : Member) (order : List Text) : List Member :=
  (initializedClasses r order).map (fun name => ⟨name, Signature.initializer⟩) ++ [main]

theorem length_startupCalls (r : Registry) (main : Member) (order : List Text) :
    (startupCalls r main order).length = (initializedClasses r order).length + 1 := by
  simp [startupCalls]

section NewMethod

variable {m : Method}

theorem map_withMethod (hnew : m.sig ∉ c.signatures) (f : Method → Method) :
    ((withMethod m c).methods.map fun x => if x.sig = m.sig then f x else x) =
      c.methods ++ [f m] := by
  have hold : ∀ x ∈ c.methods, (if x.sig = m.sig then f x else x) = x := fun x hx =>
    if_neg fun hsig : x.sig = m.sig =>
      hnew (List.mem_append_left _ (hsig ▸ List.mem_map_of_mem hx))
  rw [withMethod, List.map_append, List.map_congr_left hold, List.map_id', List.map_singleton,
    if_pos rfl]

/-- Changing the new method of a class. -/
theorem modifyMethod_withMethod (hc : r.classAt? row = some c) (hnew : m.sig ∉ c.signatures)
    (f : Method → Method) :
    (r.modifyClass row (withMethod m)).modifyMethod row m.sig f =
      r.modifyClass row (withMethod (f m)) := by
  rw [modifyMethod, modifyClass_modifyClass]
  refine modifyClass_congr hc ?_
  simp only [Function.comp_apply, map_withMethod hnew]
  rfl

theorem declared?_withMethod (hnew : m.sig ∉ c.signatures) (sig : Signature) :
    (withMethod m c).declared? sig = if sig = m.sig then some (.method m) else c.declared? sig := by
  unfold Class.declared? withMethod
  rw [List.find?_append]
  by_cases hsig : sig = m.sig
  · subst hsig
    have hnone : (c.methods.find? fun x => x.sig = m.sig) = none := by
      refine List.find?_eq_none.mpr fun x hx => ?_
      simp only [decide_eq_true_eq]
      exact fun hsig => hnew (List.mem_append_left _ (hsig ▸ List.mem_map_of_mem hx))
    rw [hnone, Option.none_or, List.find?_singleton, if_pos (decide_eq_true rfl), if_pos rfl]
  · have hnone : ([m].find? fun x => x.sig = sig) = none := by simp [Ne.symm hsig]
    rw [hnone, Option.or_none, if_neg hsig]

/-- A class may get one more method whose signature is new to it. -/
theorem withMethod_tidy (hr : r.Tidy) (hc : r.classAt? row = some c) (hnew : m.sig ∉ c.signatures) :
    (r.modifyClass row (withMethod m)).Tidy :=
  hr.modifyClass (hr.wellFormed.addMethod hc (Class.declared?_eq_none.mpr hnew))
    fun _ => ⟨rfl, rfl, rfl, rfl⟩

/-- Recording the calls of a new method. -/
theorem forM_addMemberDep (hc : r.classAt? row = some c) (hnew : m.sig ∉ c.signatures)
    (calls : List (Int × RefAddr)) : ∃ deps,
      calls.forM (fun p => (modify (addMemberDep row m.sig p.2) : RegistryM Unit))
        (r.modifyClass row (withMethod m)) =
        .ok () (r.modifyClass row (withMethod { m with memberDeps := deps })) := by
  have hstep : ∀ p ∈ calls, ∀ u,
      (∃ deps, u = r.modifyClass row (withMethod { m with memberDeps := deps })) →
      ∃ v, (modify (addMemberDep row m.sig p.2) : RegistryM Unit) u = .ok .unit v ∧
        ∃ deps, v = r.modifyClass row (withMethod { m with memberDeps := deps }) := by
    rintro p - _ ⟨deps, rfl⟩
    refine ⟨_, modify_ok.mpr rfl, Method.note deps p.2, ?_⟩
    rw [addMemberDep_eq]
    exact modifyMethod_withMethod (m := { m with memberDeps := deps }) hc hnew _
  obtain ⟨_, hok, deps, rfl⟩ := forM_succeeds hstep ⟨m.memberDeps, rfl⟩
  exact ⟨deps, hok⟩

theorem keepMember_withMethod (hr : r.Tidy) (hc : r.classAt? row = some c) (hkept : c.kept = true)
    (hnew : m.sig ∉ c.signatures) (hdropped : m.kept = false) :
    keepMember row m.sig (r.modifyClass row (withMethod m)) =
      .ok true (r.modifyClass row (withMethod { m with kept := true })) := by
  have hc' : (r.modifyClass row (withMethod m)).classAt? row = some (withMethod m c) := by
    rw [classAt?_modifyClass, if_pos rfl, hc, Option.map_some]
  refine keepMember_ok.mpr ⟨hr.isOpen, _, hc', hkept, .inr ⟨fun d hd => ?_, rfl, ?_⟩⟩
  · rw [declared?_withMethod hnew, if_pos rfl] at hd
    cases hd
    exact hdropped
  · rw [modifyClass_modifyClass]
    refine modifyClass_congr hc ?_
    have hany : ((withMethod m c).methods.any fun x => x.sig = m.sig) = true :=
      List.any_eq_true.mpr ⟨m, List.mem_append_right _ (List.mem_singleton_self m), by simp⟩
    rw [Function.comp_apply, markMember, if_pos hany, map_withMethod hnew]
    rfl

/-- A method whose signature is declared is refused. -/
theorem createMethod_declared (hr : r.Tidy) (hc : r.classAt? row = some c) {spec : MethodSpec}
    (hdecl : (c.declared? spec.sig).isSome = true) :
    createMethod row spec r = .error (.internal (.declaredTwice c.name spec.sig)) r := by
  unfold createMethod
  rw [bind_of_ok (checkOpen_ok.mpr ⟨hr.isOpen, rfl⟩ : checkOpen .createMethod r = .ok () r),
    bind_of_ok (classAt_ok.mpr ⟨hc, rfl⟩), if_pos hdecl]
  rfl

/-- A new method of a kept class gets the references as its dependencies and is kept. -/
theorem addKeptMethod_ok (hr : r.Tidy) (hc : r.classAt? row = some c) (hkept : c.kept = true)
    {spec : MethodSpec} (hnew : c.declared? spec.sig = none)
    (hcode : (spec.kind = .native ∨ spec.kind = .abstract) ↔ spec.code = [])
    (calls : List (Int × RefAddr)) : ∃ deps,
      (do createMethod row spec
          calls.forM fun (_, a) => modify (addMemberDep row spec.sig a)
          discard (keepMember row spec.sig)
          return row : RegistryM Nat) r =
        .ok row (r.modifyClass row
          (withMethod { spec.toMethod with memberDeps := deps, kept := true })) ∧
      (r.modifyClass row (withMethod { spec.toMethod with memberDeps := deps, kept := true })).Tidy := by
  have hfresh : spec.toMethod.sig ∉ c.signatures := Class.declared?_eq_none.mp hnew
  have hcreate : createMethod row spec r = .ok () (r.modifyClass row (withMethod spec.toMethod)) :=
    createMethod_ok.mpr ⟨hr.isOpen, c, hc, hnew, hcode, rfl⟩
  obtain ⟨deps, hdeps⟩ := forM_addMemberDep hc hfresh calls
  have hkeep : discard (keepMember row spec.sig) (r.modifyClass row
      (withMethod { spec.toMethod with memberDeps := deps })) = .ok () (r.modifyClass row
        (withMethod { spec.toMethod with memberDeps := deps, kept := true })) :=
    discard_ok.mpr ⟨true,
      keepMember_withMethod (m := { spec.toMethod with memberDeps := deps }) hr hc hkept hfresh rfl⟩
  refine ⟨deps, ?_, withMethod_tidy hr hc hfresh⟩
  rw [bind_of_ok hcreate]
  exact (bind_of_ok hdeps).trans (bind_of_ok hkeep)

end NewMethod

/-- Adds calls of some members to a class and the startup method that makes them. -/
def addCallsAndStartup (row : Nat) (ms : List Member) : RegistryM Nat := do
  let calls ← ms.mapM (addCall row)
  createMethod row
    { sig := Signature.startup, isStatic := true, isNative := false, isAbstract := false
      code := Code.invokeAll (calls.map fun (slot, _) => slot.toNat) ++ [Opcode.ret]
      argSlots := 0, maxLocals := 0, lines := [], handlers := [] }
  calls.forM fun (_, a) => modify (Registry.addMemberDep row Signature.startup a)
  discard (Registry.keepMember row Signature.startup)
  return row

theorem addStartup_eq {entry : Text} (hrow : r.find? entry = some row)
    (hc : r.classAt? row = some c) (hkept : c.kept = true) (main : Signature)
    (order : List Text) : addStartup entry main order r =
      addCallsAndStartup row (startupCalls r ⟨entry, main⟩ order) r := by
  unfold addStartup
  rw [bind_of_ok (get_ok.mpr ⟨rfl, rfl⟩)]
  simp only [hrow, hc, Option.bind_some, Option.map_some, hkept]
  rfl

theorem signatures_addCalls (c : Class) (ms : List Member) :
    (c.addCalls ms).signatures = c.signatures := by rw [Class.addCalls_frame]; rfl

theorem declared?_addCalls (c : Class) (ms : List Member) (sig : Signature) :
    (c.addCalls ms).declared? sig = c.declared? sig := by rw [Class.addCalls_frame]; rfl

/-- The startup method calls through the slots that the calls were given. -/
theorem startupSpec_eq (row : Nat) (c : Class) (n : Nat) :
    ({ sig := Signature.startup, isStatic := true, isNative := false, isAbstract := false
       code := Code.invokeAll ((callSlots row c n).map fun (slot, _) => slot.toNat) ++ [Opcode.ret]
       argSlots := 0, maxLocals := 0, lines := [], handlers := [] } : MethodSpec) =
      startupSpec c n := by
  unfold startupSpec slotNumbers callSlots
  rw [List.map_map]
  rfl

theorem kind_startupSpec (c : Class) (n : Nat) : (startupSpec c n).kind = .concrete := by
  have hconstructor : Signature.startup.name ≠ Signature.constructorName := by decide
  have hinitializer : Signature.startup.name ≠ Signature.initializerName := by decide
  unfold MethodSpec.kind startupSpec
  rw [if_neg Bool.false_ne_true, if_neg Bool.false_ne_true, if_neg hconstructor,
    if_neg hinitializer]

/-- The startup method is added when the class has slots for the calls and no such method. -/
theorem addCallsAndStartup_cases (hr : r.Tidy) (hc : r.classAt? row = some c)
    (hkept : c.kept = true) {ms : List Member} (hms : ms ≠ []) :
    (c.maxSlot + ms.length ≤ lastSlot ∧ c.declared? Signature.startup = none ∧ ∃ deps,
        addCallsAndStartup row ms r = .ok row (r.modifyClass row (withStartup ms deps)) ∧
        (r.modifyClass row (withStartup ms deps)).Tidy) ∨
      (lastSlot < c.maxSlot + ms.length ∧ ∃ r', addCallsAndStartup row ms r =
        .error (.internal (.poolExhausted c.name)) r') ∨
      ((c.declared? Signature.startup).isSome = true ∧ ∃ r', addCallsAndStartup row ms r =
        .error (.internal (.declaredTwice c.name Signature.startup)) r') := by
  unfold addCallsAndStartup
  rcases mapM_addCall hr hc hkept ms with ⟨hroom, hcalls, htidy⟩ | ⟨hfull, r', hcalls⟩
  · have hc₁ : (r.modifyClass row fun c => c.addCalls ms).classAt? row = some (c.addCalls ms) := by
      rw [classAt?_modifyClass, if_pos rfl, hc, Option.map_some]
    generalize hr₁ : (r.modifyClass row fun c => c.addCalls ms) = r₁ at hcalls htidy hc₁
    rw [bind_of_ok hcalls, startupSpec_eq]
    have hdecl₁ := declared?_addCalls c ms (startupSpec c ms.length).sig
    cases hdecl : c.declared? Signature.startup with
    | some d =>
        have hname : (c.addCalls ms).name = c.name := by rw [Class.addCalls_frame]
        have hrefused := createMethod_declared htidy hc₁
          (Option.isSome_iff_exists.mpr ⟨d, hdecl₁.trans hdecl⟩)
        rw [hname] at hrefused
        exact .inr (.inr ⟨rfl, r₁, bind_of_error hrefused⟩)
    | none =>
        have hcode : ((startupSpec c ms.length).kind = .native ∨
            (startupSpec c ms.length).kind = .abstract) ↔ (startupSpec c ms.length).code = [] := by
          rw [kind_startupSpec]
          simp [startupSpec]
        have hkept₁ : (c.addCalls ms).kept = true := by
          rw [Class.addCalls_frame]
          exact hkept
        obtain ⟨deps, hadd, htidy'⟩ := addKeptMethod_ok htidy hc₁ hkept₁ (hdecl₁.trans hdecl) hcode
          (callSlots row c ms.length)
        have hfinal : r₁.modifyClass row (withMethod (startupMethod c ms.length deps)) =
            r.modifyClass row (withStartup ms deps) := by
          rw [← hr₁, modifyClass_modifyClass]
          exact modifyClass_congr hc rfl
        exact .inl ⟨hroom hms, rfl, deps, hfinal ▸ hadd, hfinal ▸ htidy'⟩
  · exact .inr (.inl ⟨hfull, r', bind_of_error hcalls⟩)

theorem withStartup_frame (ms : List Member) (deps : List RefAddr) (c : Class) :
    withStartup ms deps c = { c with
      methods := c.methods ++ [startupMethod c ms.length deps]
      pool := (c.addCalls ms).pool, listed := (c.addCalls ms).listed
      slots := (c.addCalls ms).slots, maxSlot := c.maxSlot + ms.length } := by
  rw [withStartup, withMethod, Class.addCalls_frame]

theorem name_withStartup (ms : List Member) (deps : List RefAddr) (c : Class) :
    (withStartup ms deps c).name = c.name := by rw [withStartup_frame]

theorem kept_withStartup (ms : List Member) (deps : List RefAddr) (c : Class) :
    (withStartup ms deps c).kept = c.kept := by rw [withStartup_frame]

theorem declared?_withStartup (hnew : c.declared? Signature.startup = none) (ms : List Member)
    (deps : List RefAddr) (sig : Signature) : (withStartup ms deps c).declared? sig =
      if sig = Signature.startup then some (.method (startupMethod c ms.length deps))
      else c.declared? sig := by
  have hnew' : (startupMethod c ms.length deps).sig ∉ (c.addCalls ms).signatures := by
    rw [signatures_addCalls]
    exact Class.declared?_eq_none.mp hnew
  rw [withStartup, declared?_withMethod hnew', declared?_addCalls]
  rfl

end InitOrder

end ClassLinker
