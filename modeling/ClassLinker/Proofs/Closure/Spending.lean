import ClassLinker.Proofs.Closure.Budget

/-! What loading spends. A new class pays for its initializer and for the calls of its methods, which
are no more than their code has bytes. Loading comes to an end: the classes whose loading is under way
are different ones that the source serves, and the classes of elements have shorter names than their
arrays. -/

namespace ClassLinker

/-- How many members an instruction makes a method refer to. -/
def Instruction.callCount (i : Instruction) : Nat :=
  if Opcode.operand i.op = .memberSlot then 1 else 0

namespace Code

theorem length_instrs_decodeFrom (fuel pc : Nat) (code : Bytes) :
    (decodeFrom fuel pc code).instrs.length ≤ fuel := by
  induction fuel generalizing pc code with
  | zero =>
      cases code with
      | nil => rw [decodeFrom_nil]; exact Nat.zero_le _
      | cons op after => exact Nat.zero_le _
  | succ fuel ih =>
      cases code with
      | nil => rw [decodeFrom_nil]; exact Nat.zero_le _
      | cons op after =>
          rw [decodeFrom_succ]
          split
          · exact Nat.zero_le _
          · split
            · exact Nat.zero_le _
            · split
              · exact Nat.zero_le _
              · exact Nat.succ_le_succ (ih _ _)

/-- The number of members that code refers to. -/
def callCount (code : Bytes) : Nat := total ((decode code).instrs.map Instruction.callCount)

theorem callCount_le (code : Bytes) : callCount code ≤ code.length := by
  have hone : ∀ is : List Instruction, total (is.map Instruction.callCount) ≤ is.length := by
    intro is
    induction is with
    | nil => exact Nat.le_refl 0
    | cons i is ih =>
        have hi : i.callCount ≤ 1 := by
          unfold Instruction.callCount
          split <;> omega
        simp only [List.map_cons, total, List.length_cons]
        omega
  exact Nat.le_trans (hone _) (length_instrs_decodeFrom _ _ _)

end Code

namespace Closure

open LinkM RegistryM Step Registry

variable {s : Source} {l l' : Linker} {name : Text}

/-! ### Scanning -/

theorem refAtSlot?_metered (row : Nat) (slot : Int) : Metered s 0 0 (refAtSlot? row slot) :=
  (Metered.readClass row).seq fun _ => Metered.get.seq fun _ => .pure _

theorem classRefAt_metered (row : Nat) (slot : Int) : Metered s 0 0 (classRefAt row slot) := by
  refine (refAtSlot?_metered row slot).seq fun found => ?_
  cases found with
  | none => exact .fail _
  | some found =>
      dsimp only
      split
      · exact .pure _
      · exact .fail _

theorem arrayRef_metered (row : Nat) (name : Text) : Metered s 0 0 (arrayRef row name) := by
  refine (Metered.readClass row).seq fun c => Metered.get.seq fun l => ?_
  split
  · exact .pure _
  · refine (Metered.of_sameMethods (allocSlot_keepsOrder row) (allocSlot_sameMethods row)).seq
      fun slot => ?_
    refine (Metered.of_sameMethods (createRef_keepsOrder row slot _)
      (createRef_sameMethods row slot _)).seq fun a => ?_
    exact (Metered.of_same fun _ => ⟨_, _, _, rfl, Nat.le_refl _⟩).seq fun _ => .pure _

/-- Recording something about a method. -/
theorem record_metered (row : Nat) (sig : Signature) {f : Method → Method} {n : Nat}
    (hsig : ∀ m, (f m).sig = m.sig) (hkept : ∀ m, (f m).kept = m.kept)
    (hcalls : ∀ m, (f m).memberDeps.length ≤ m.memberDeps.length + n) :
    Metered s n 0 (record fun r => r.modifyMethod row sig f) := by
  refine ⟨fun {l} hl => ?_⟩
  obtain ⟨horderly, -⟩ := Registry.Orderly.modifyMethod hl.orderly row sig hsig hkept
  exact .of_registry hl horderly (adds_modifyMethod hl.orderly.tidy.wellFormed hkept hcalls)

theorem recordClass_metered (row : Nat) (sig : Signature) (a : RefAddr) :
    Metered s 0 0 (record (addClassDep row sig a)) := by
  refine record_metered row sig (fun m => ?_) (fun m => ?_) fun m => ?_ <;> split <;> rfl

theorem recordMember_metered (row : Nat) (sig : Signature) (a : RefAddr) :
    Metered s 1 0 (record (addMemberDep row sig a)) := by
  refine record_metered row sig (fun m => ?_) (fun m => ?_) fun m => ?_
  · split <;> rfl
  · split <;> rfl
  · split
    · exact Nat.le_succ _
    · exact Nat.le_of_eq List.length_append

theorem recordLiteral_metered (row : Nat) (sig : Signature) (a : RefAddr) :
    Metered s 0 0 (record (addLiteralDep row sig a)) := by
  refine record_metered row sig (fun m => ?_) (fun m => ?_) fun m => ?_ <;> split <;> rfl

theorem recordArray_metered (row : Nat) (sig : Signature) (code : Int) :
    Metered s 0 0 (record (addArrayDep row sig code)) := by
  refine record_metered row sig (fun m => ?_) (fun m => ?_) fun m => ?_ <;> split <;> rfl

theorem recordBuiltin_metered (row : Nat) (sig : Signature) (id : Int) :
    Metered s 0 0 (record (addBuiltin row sig id)) := by
  refine record_metered row sig (fun m => ?_) (fun m => ?_) fun m => ?_ <;> split <;> rfl

theorem scanInstruction_metered (row : Nat) (sig : Signature) (i : Instruction) :
    Metered s i.callCount 0 (scanInstruction row sig i) := by
  refine (Metered.loop fun (id : Nat) _ => recordBuiltin_metered row sig id).seq fun _ => ?_
  unfold Instruction.callCount
  dsimp only
  cases Opcode.operand i.op with
  | none => exact .pure _
  | memberSlot =>
      rw [if_pos rfl]
      refine (refAtSlot?_metered row _).seq fun found => ?_
      split
      · exact recordMember_metered row sig _
      · exact (Metered.fail _).mono (Nat.zero_le _) (Nat.le_refl _)
  | classSlot =>
      rw [if_neg nofun]
      refine (classRefAt_metered row _).mapError.seq fun found => ?_
      refine (recordClass_metered row sig found.1).seq fun _ => ?_
      split
      · exact (arrayRef_metered row _).seq fun a => recordClass_metered row sig a
      · exact .pure _
  | constantSlot =>
      rw [if_neg nofun]
      refine (refAtSlot?_metered row _).seq fun found => ?_
      split
      · exact .fail _
      · split
        · exact recordLiteral_metered row sig _
        · exact recordClass_metered row sig _
        · exact .fail _
  | arrayType =>
      rw [if_neg nofun]
      dsimp only
      split
      · exact (Metered.fail _).seq fun _ => recordArray_metered row sig _
      · exact recordArray_metered row sig _
  | dynamicSlot => exact .fail _

theorem scan_metered (row : Nat) (sig : Signature) (code : Bytes) (handlers : List Handler)
    (throws : List Int) : Metered s (Code.callCount code) 0 (scan row sig code handlers throws) := by
  have hrefs : Metered s 0 0 (do
      handlers.forM fun h => do
        if h.catchSlot ≠ 0 then
          let a ← mapError (.within "exception handler") (classRefAt row h.catchSlot)
          record (Registry.addClassDep row sig a.1)
      throws.forM fun slot => do
        let a ← mapError (.within "throws clause") (classRefAt row slot)
        record (Registry.addClassDep row sig a.1)) := by
    refine (Metered.loop fun h _ => ?_).seq fun _ => Metered.loop fun slot _ => ?_
    · split
      · exact (classRefAt_metered row _).mapError.seq fun a => recordClass_metered row sig a.1
      · exact .pure _
    · exact (classRefAt_metered row slot).mapError.seq fun a => recordClass_metered row sig a.1
  refine ((Metered.forM (n := Instruction.callCount) fun i _ =>
    scanInstruction_metered row sig i).bind fun _ => (?_ : Metered s 0 0 _)).mono (Nat.le_refl _)
      (Nat.le_refl _)
  dsimp only
  split
  · exact hrefs
  · exact (Metered.fail _).seq fun _ => hrefs
  · exact Metered.fault.seq fun _ => hrefs

/-! ### Registering -/

theorem registerSlot_metered (d : ClassDecl) (row : Nat) (p : PoolSlot) :
    Metered s 0 0 (registerSlot d row p) := by
  have hcreate : ∀ body, Metered s 0 0 (onRegistry (createRef row p.slot body)) := fun body =>
    .of_sameMethods (createRef_keepsOrder row _ _) (createRef_sameMethods row _ _)
  unfold registerSlot
  split
  · exact (hcreate _).discard
  · exact (hcreate _).discard
  · split
    · exact .fail _
    · exact (Metered.of_sameMethods (createLiteral_keepsOrder row _ _ _)
        (createLiteral_sameMethods row _ _ _)).discard

theorem registerField_metered (row : Nat) (f : FieldDecl) : Metered s 0 0 (registerField row f) :=
  .of_sameMethods (createField_keepsOrder row _) (createField_sameMethods row _)

/-- The code of the root's constructor is replaced by one that calls nothing. -/
theorem callCount_methodSpec_le (root : Text) (d : ClassDecl) (m : MethodDecl) :
    Code.callCount (methodSpec root d m).code ≤ m.code.length := by
  unfold methodSpec
  dsimp only
  split
  · have hnone : Code.callCount [Opcode.ret] = 0 := by decide +kernel
    rw [hnone]
    exact Nat.zero_le _
  · exact Code.callCount_le _

theorem registerMethod_metered (d : ClassDecl) (row : Nat) (m : MethodDecl) :
    Metered s m.code.length 1 (registerMethod d row m) := by
  refine Metered.get.seq fun l => ?_
  have hcreate : Metered s 0 1 (onRegistry (createMethod row (methodSpec l.root d m))) :=
    .onRegistry (createMethod_keepsOrder row _) fun _ => adds_createMethod s row _ _
  refine (hcreate.bind fun _ => (scan_metered row _ _ _ _).mapError).mono ?_ (Nat.le_refl _)
  rw [Nat.zero_add]
  exact callCount_methodSpec_le l.root d m

/-- What a declaration costs is spent on registering it. -/
theorem register_spends {d : ClassDecl} (hl : l.Fit) (hd : d ∈ s.decls)
    (hinterfaces : ∀ i ∈ d.interfaces, ∃ p, l.registry.find? i = some p) :
    Spends s 0 0 l (final (register d l)) := by
  unfold register
  rw [bind_of_ok (get_ok.mpr ⟨rfl, rfl⟩)]
  dsimp only
  split
  · exact .refl hl
  have hrest : ∀ row, Metered s (total (d.methods.map fun m => m.code.length) + 1) d.methods.length (do
      d.pool.forM (registerSlot d row)
      d.fields.forM (registerField row)
      d.methods.forM (registerMethod d row)
      let c ← onRegistry (RegistryM.classAt row)
      if (c.declared? Signature.initializer).isSome then push (c.member Signature.initializer)) := by
    intro row
    refine (Metered.loop fun p _ => registerSlot_metered d row p).seq fun _ => ?_
    refine (Metered.loop fun f _ => registerField_metered row f).seq fun _ => ?_
    refine ((Metered.forM fun m _ => registerMethod_metered d row m).bind fun _ =>
      (Metered.readClass row).seq fun c => (?_ : Metered s 1 0 _)).mono (Nat.le_refl _) (by omega)
    split
    · exact .push _
    · exact (Metered.pure _).mono (Nat.zero_le _) (Nat.le_refl _)
  rcases createKept_cases { name := d.name, super := d.super
                            kind := if d.isInterface then .interface else .ordinary
                            interfaces := d.interfaces, element := [], elementType := 0
                            poolSize := d.poolSize } hl.orderly hinterfaces with
    ⟨e, hcreate⟩ | ⟨row, l₁, r, hcreate, hkeep, hcreated⟩
  · rw [bind_of_error hcreate]
    exact .refl hl
  · rw [bind_of_ok hcreate, bind_of_ok hkeep]
    have hkept : Spends s 0 0 l { l with registry := r } :=
      .of_registry hl (Proceeds.of_created hl.orderly hcreated).orderly
        ⟨reserve_created hcreated, reserve_created hcreated⟩
    -- The new class pays for all that is registered of it.
    have hcalls : r.openCalls s + (1 + total (d.methods.map fun m => m.code.length)) ≤
        l.registry.openCalls s := reserve_created_decl hcreated hd rfl
    have hmethods : r.openMethods s + d.methods.length ≤ l.registry.openMethods s :=
      reserve_created_decl hcreated hd rfl
    refine .of_paid ((hrest row).spends hkept.fit) rfl ?_ hmethods
    unfold Linker.callsLeft
    dsimp only
    omega

/-! ### Loading -/

/-- Loading a class. The path holds different classes that the source serves, so it does not get
longer than the declarations are many. -/
theorem loadTree_spends {depth : Nat} {path : List Text} (hl : l.Fit) (hnodup : path.Nodup)
    (hserved : ∀ n ∈ path, ∃ d, s.load n = .ok d)
    (hdepth : s.decls.length < depth + path.length) :
    Spends s 0 0 l (final (loadTree s depth path name l)) := by
  induction depth generalizing l path name with
  | zero =>
      have hle := length_le_decls hnodup hserved
      omega
  | succ depth ih =>
      unfold loadTree
      dsimp only
      split
      · exact .refl hl
      rename_i hpath
      have hasked : Spends s 0 0 l { l with asked := name :: l.asked } :=
        (Metered.ask name).spends hl
      rw [bind_of_ok (ask_ok.mpr ⟨rfl, rfl⟩)]
      cases hload : s.load name with
      | error e => exact hasked
      | ok d =>
          dsimp only
          have hdep : ∀ dep, Metered s 0 0 (loadTree s depth (name :: path) dep) := fun dep =>
            ⟨fun hu => ih hu (List.nodup_cons.mpr ⟨by simpa using hpath, hnodup⟩)
              (List.forall_mem_cons.mpr ⟨⟨d, hload⟩, hserved⟩)
              (by rw [List.length_cons]; omega)⟩
          have hsupers : Metered s 0 0 ((supertypes d).forM fun dep => do
              if (← LinkM.registered? dep).isNone then
                loadTree s depth (name :: path) dep : LinkM Unit) := by
            refine Metered.loop fun dep _ => (Metered.registered? dep).seq fun row => ?_
            split
            · exact hdep dep
            · exact .pure _
          have hspent := hsupers.spends hasked.fit
          refine hasked.trans (final_bind hspent fun {u t} hok => ?_)
          rw [hok] at hspent
          have hall := registered_of_loop (fun _ _ hu => loadTree_proceeds s hu) hasked.fit.orderly hok
          exact hspent.trans (register_spends hspent.fit (Source.mem_decls_of_load hload)
            fun i hi => hall i (List.mem_append_right _ hi))

theorem createArray_metered (name : Text) (kind : ClassKind) (element : Text) (elementType : Int) :
    Metered s 0 0 (createArray name kind element elementType) := by
  refine ⟨fun {l} hl => ?_⟩
  rcases createArray_cases name kind element elementType hl.orderly with
    ⟨e, hrun⟩ | ⟨r, hrun, hcreated⟩
  · rw [hrun]
    exact .refl hl
  · rw [hrun]
    exact .of_registry hl (Proceeds.of_created hl.orderly hcreated).orderly
      ⟨reserve_created hcreated, reserve_created hcreated⟩

theorem registerArray_metered {loadElement : Text → LinkM Nat} (name : Text)
    (helement : ∀ e, objectName? (name.drop 1) = some e → Metered s 0 0 (loadElement e)) :
    Metered s 0 0 (registerArray loadElement name) := by
  unfold registerArray
  dsimp only
  split
  · split
    · exact .fail _
    · exact createArray_metered name _ _ _
  · split
    · rename_i e he
      exact (helement e he).discard.seq fun _ => createArray_metered name _ _ _
    · split
      · exact createArray_metered name _ _ _
      · exact .fail _

theorem length_of_mem_arrayChain {isRegistered : Text → Bool} {t : Text}
    (ht : t ∈ arrayChain isRegistered name) : t.length ≤ name.length := by
  induction name with
  | nil => cases ht
  | cons b elem ih =>
      unfold arrayChain at ht
      split at ht
      · cases ht
      · split at ht
        · rcases List.mem_cons.mp ht with rfl | ht
          · exact Nat.le_refl _
          · exact Nat.le_succ_of_le (ih ht)
        · obtain rfl := List.mem_singleton.mp ht
          exact Nat.le_refl _

theorem registeredRow_metered (name : Text) : Metered s 0 0 (do
    match ← LinkM.registered? name with
    | some row => return row
    | none => throw .fault) := by
  refine (Metered.registered? name).seq fun row => ?_
  cases row with
  | some row => exact .pure _
  | none => exact .fault

/-- Loading a class, or making an array with a name that is short enough. -/
theorem loadFrom_metered {fuel : Nat} (hpos : 0 < fuel)
    (hfuel : name.head? = some (Text.byte '[') → name.length < fuel) :
    Metered s 0 0 (loadFrom s fuel name) := by
  induction fuel generalizing name with
  | zero => exact absurd hpos (Nat.lt_irrefl 0)
  | succ fuel ih =>
      refine (Metered.registered? name).seq fun row => ?_
      cases row with
      | some row => exact .pure _
      | none =>
          dsimp only
          split
          · rename_i hbracket
            have hshort := hfuel hbracket
            have hname : 0 < name.length := List.length_pos_iff.mpr (by rintro rfl; cases hbracket)
            have hchain : ∀ u : Linker, Metered s 0 0
                ((arrayChain (fun t => (u.registry.find? t).isSome) name).reverse.forM
                  (registerArray (loadFrom s fuel))) := by
              intro u
              refine Metered.loop fun t ht => registerArray_metered t fun e he => ?_
              have hlength := length_of_mem_arrayChain (List.mem_reverse.mp ht)
              have helement := length_objectName?_le he
              rw [List.length_drop] at helement
              exact ih (by omega) fun _ => by omega
            refine ⟨fun {l} hl => ?_⟩
            rw [bind_of_ok (get_ok.mpr ⟨rfl, rfl⟩)]
            have hroot : Metered s 0 0 (Functor.discard (loadFrom s fuel l.root)) :=
              (ih (by omega) fun h => absurd h hl.plain).discard
            exact Metered.spends (hroot.seq fun _ => Metered.get.seq fun u => (hchain u).seq fun _ =>
              registeredRow_metered name) hl
          · have htree : Metered s 0 0 (loadTree s (s.decls.length + 1) [] name) :=
              ⟨fun hl => loadTree_spends hl List.nodup_nil (by simp) (by simp)⟩
            exact htree.seq fun _ => registeredRow_metered name

theorem loadClass_metered (name : Text) : Metered s 0 0 (loadClass s name) :=
  loadFrom_metered (Nat.succ_pos _) fun _ => Nat.lt_succ_self _

end Closure

end ClassLinker
