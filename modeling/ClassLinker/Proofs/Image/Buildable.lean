import ClassLinker.Proofs.Image.Closed

/-! When a linked program has an image. The offsets that linking gives to methods are those at which
the image holds their code, the classes that handlers catch are kept, and so are the elements of
arrays and the classes of catalog entries. What is left to fail is a native method whose descriptor
cannot be read, and a catalog entry whose member the class of the entry does not declare itself. -/

namespace ClassLinker

open Registry InitOrder Closure

section Ends

variable {ε α β : Type} {bad : ε → Prop}

/-- A computation ends in an error or a value that is as it should be. -/
def Ends (bad : ε → Prop) (good : α → Prop) : Except ε α → Prop
  | .error e => bad e
  | .ok a => good a

theorem Ends.bind {good : α → Prop} {good' : β → Prop} {x : Except ε α} {f : α → Except ε β}
    (h : Ends bad good x) (hf : ∀ {a}, good a → Ends bad good' (f a)) :
    Ends bad good' (x >>= f) := by
  cases x with
  | error e => exact h
  | ok a => exact hf h

theorem Ends.imp {good good' : α → Prop} {x : Except ε α} (h : Ends bad good x)
    (himp : ∀ {a}, good a → good' a) : Ends bad good' x := by
  cases x with
  | error e => exact h
  | ok a => exact himp h

/-- A fold over a list, when each step leaves a good state for the items after it. -/
theorem ends_foldlM {P : List α → β → Prop} {f : β → α → Except ε β} {xs : List α} {b : β}
    (hb : P xs b)
    (hstep : ∀ x ∈ xs, ∀ {rest b}, P (x :: rest) b → Ends bad (P rest) (f b x)) :
    Ends bad (P []) (xs.foldlM f b) := by
  induction xs generalizing b with
  | nil => exact hb
  | cons x xs ih =>
      rw [List.foldlM_cons]
      refine (hstep x List.mem_cons_self hb).bind fun {b'} hb' => ?_
      exact ih hb' fun y hy => hstep y (List.mem_cons_of_mem _ hy)

theorem ends_mapM {f : α → Except ε β} {xs : List α}
    (h : ∀ x ∈ xs, Ends bad (fun _ => True) (f x)) : Ends bad (fun _ => True) (xs.mapM f) := by
  induction xs with
  | nil => trivial
  | cons x xs ih =>
      rw [List.mapM_cons]
      refine (h x List.mem_cons_self).bind fun _ => ?_
      refine (ih fun y hy => h y (List.mem_cons_of_mem _ hy)).bind fun _ => ?_
      trivial

/-- A fold that ends in a value has done each of its steps. -/
theorem exists_step_of_foldlM {f : β → α → Except ε β} {xs : List α} {b b' : β}
    (hok : xs.foldlM f b = .ok b') {x : α} (hx : x ∈ xs) : ∃ u v, f u x = .ok v := by
  induction xs generalizing b with
  | nil => cases hx
  | cons y xs ih =>
      rw [List.foldlM_cons, except_bind_ok] at hok
      obtain ⟨u, hu, hok⟩ := hok
      rcases List.mem_cons.mp hx with rfl | hx
      · exact ⟨b, u, hu⟩
      · exact ih hok hx

end Ends

namespace Image

variable {r : Registry} {c : Class} {m : Method} {image : Image} {bad : Failure → Prop}

/-! ### Methods -/

/-- The native table entry of a method fails exactly on a native method whose descriptor cannot be
read. -/
theorem nativeInfo_error {e : Failure} : nativeInfo c m = .error e ↔
    m.kind = .native ∧ ∃ fault, MethodType.read m.sig.descriptor = .error fault ∧
      e = .error (.within ("native " ++ c.name ++ "." ++ m.sig.name) (.descriptor fault)) := by
  unfold nativeInfo NativeBinding.declaration
  by_cases hnative : m.kind = .native
  · simp only [hnative, if_true, true_and]
    cases MethodType.read m.sig.descriptor with
    | error fault =>
        simp only [Except.error.injEq, exists_eq_left']
        exact eq_comm
    | ok type => simp only [reduceCtorEq, false_and, exists_false]
  · simp only [hnative, if_false, reduceCtorEq, false_and]

/-- What the image needs of a method: its code has the length that it was placed with, and the
classes that its handlers catch are found. -/
structure Sound (r : Registry) (c : Class) (m : Method) : Prop where
  kept : m.kept = true
  length_eq : m.hasCode = true → m.code.length = m.rawCode.length
  caught : ∀ h ∈ m.handlers, ∃ id, catchId r c m h = .ok id

theorem Sound.addMethod_ends (hm : Sound r c m) (hnative : ∀ {e}, nativeInfo c m = .error e → bad e)
    {ms : List Method} {spans : List (Option Nat × Nat)} {stop : Nat}
    (hspans : Consecutive image.code.length (Method.spans (m :: ms) ++ spans) stop) :
    Ends bad (fun image' => Consecutive image'.code.length (Method.spans ms ++ spans) stop)
      (addMethod r c image m) := by
  have hinfo : Ends bad (fun _ => True) (nativeInfo c m) := by
    cases hinfo : nativeInfo c m with
    | error e => exact hnative hinfo
    | ok natives => trivial
  unfold addMethod
  refine hinfo.bind fun {natives} _ => ?_
  by_cases hcode : m.hasCode = true
  · -- The next stretch of code is that of the method.
    rw [Method.spans, List.filter_cons_of_pos (by simp [hm.kept, hcode]), List.map_cons,
      List.cons_append] at hspans
    obtain ⟨offset, hoffset, hrest⟩ : ∃ offset, m.codeOffset = some offset ∧
        offset = image.code.length ∧
        Consecutive (offset + m.code.length) (Method.spans ms ++ spans) stop := by
      rw [hm.length_eq hcode]
      generalize m.codeOffset = place at hspans
      cases hspans with
      | cons hrest => exact ⟨_, rfl, rfl, hrest⟩
    obtain ⟨rfl, hrest⟩ := hrest
    have hhandlers : Ends bad (fun _ => True) (m.handlers.mapM fun h => do
        return HandlerInfo.mk c.id (wordAdd image.code.length h.start)
          (wordAdd image.code.length h.stop) (wordAdd image.code.length h.target)
          (← catchId r c m h)) := by
      refine ends_mapM fun h hh => ?_
      obtain ⟨id, hid⟩ := hm.caught h hh
      rw [hid]
      trivial
    simp only [hcode, hoffset, idOr, Bool.not_true, Bool.false_eq_true, if_false, ne_eq,
      not_true_eq_false]
    refine hhandlers.bind fun {handlers} _ => ?_
    show Consecutive (image.code ++ m.code).length _ stop
    rwa [List.length_append]
  · -- A method without code has no part in the code of the image.
    rw [Method.spans, List.filter_cons_of_neg (by simp [hcode])] at hspans
    simp only [hcode, Bool.not_false, if_true]
    exact hspans

/-! ### Classes -/

/-- What the image needs of a class: the class of its elements, if it is an array of objects, and
what it needs of its methods. -/
structure ClassSound (r : Registry) (c : Class) : Prop where
  element : ∃ id, elementId r c = .ok id
  methods : ∀ m ∈ c.methods, Sound r c m

theorem ClassSound.addClass_ends (hc : ClassSound r c)
    (hnative : ∀ {m e}, m ∈ c.methods → nativeInfo c m = .error e → bad e)
    {spans : List (Option Nat × Nat)} {stop : Nat}
    (hspans : Consecutive image.code.length (c.spans ++ spans) stop) :
    Ends bad (fun image' => Consecutive image'.code.length spans stop) (addClass r image c) := by
  obtain ⟨id, hid⟩ := hc.element
  have hinfo : Ends bad (fun _ => True) (classInfo r c) := by
    unfold classInfo
    rw [hid]
    trivial
  have hmethods : Ends bad (fun image' => Consecutive image'.code.length spans stop)
      (c.methods.foldlM (addMethod r c) image) := by
    refine ends_foldlM (P := fun ms (image' : Image) =>
      Consecutive image'.code.length (Method.spans ms ++ spans) stop) hspans ?_
    intro m hm ms image' hspans'
    exact (hc.methods m hm).addMethod_ends (hnative hm) hspans'
  unfold addClass
  refine hinfo.bind fun {info} _ => ?_
  refine hmethods.bind fun {image'} hspans' => ?_
  exact hspans'

/-- The native table entries of the methods of a class that is added succeed. -/
theorem nativeInfo_of_addClass {image' : Image} (hok : addClass r image c = .ok image')
    (hm : m ∈ c.methods) : ∃ natives, nativeInfo c m = .ok natives := by
  obtain ⟨info, raw, -, hmethods, -⟩ := addClass_eq_ok.mp hok
  obtain ⟨u, v, hadded⟩ := exists_step_of_foldlM hmethods hm
  obtain ⟨natives, hnatives, -⟩ := addMethod_ok hadded
  exact ⟨natives, hnatives⟩

/-! ### Plans -/

/-- What an image needs of a plan: all its classes are sound, their code was placed without gaps, and
its catalog entries exist. -/
structure PlanSound (plan : Plan) : Prop where
  closed : plan.registry.closed = true
  classes : ∀ {row c}, (row, c) ∈ plan.registry.classes → ClassSound plan.registry c
  consecutive : ∃ size,
    Consecutive 0 ((plan.registry.classes.map Prod.snd).flatMap Class.spans) size
  builtins : ∀ id ∈ plan.builtins, ∃ e, Builtin.lookup? id = some e

/-- A reason for which the image of a plan cannot be built. -/
inductive Obstacle (plan : Plan) : Failure → Prop where
  | native {row : Nat} {c : Class} {m : Method} {e : Failure} :
      (row, c) ∈ plan.registry.classes → m ∈ c.methods → nativeInfo c m = .error e →
      Obstacle plan e
  | builtin {id : Int} {b : Builtin} {e : Failure} :
      id ∈ plan.builtins → Builtin.lookup? id = some b → builtinLink plan.registry b = .error e →
      Obstacle plan e

theorem PlanSound.build_ends {plan : Plan} (h : PlanSound plan) :
    Ends (Obstacle plan) (fun _ => True) (build plan) := by
  obtain ⟨size, hsize⟩ := h.consecutive
  have hclasses : ∀ bare : Image, bare.code = [] → Ends (Obstacle plan) (fun _ => True)
      ((plan.registry.classes.map Prod.snd).foldlM (addClass plan.registry) bare) := by
    intro bare hbare
    have hfold : Ends (Obstacle plan) (fun image : Image => Consecutive image.code.length [] size)
        ((plan.registry.classes.map Prod.snd).foldlM (addClass plan.registry) bare) := by
      refine ends_foldlM (P := fun cs (image : Image) =>
        Consecutive image.code.length (cs.flatMap Class.spans) size) (by rwa [hbare]) ?_
      intro c hc cs image hspans
      obtain ⟨⟨row, c'⟩, hmem, rfl⟩ := List.mem_map.mp hc
      exact (h.classes hmem).addClass_ends (fun hm he => .native hmem hm he) hspans
    exact hfold.imp fun _ => trivial
  unfold build
  simp only [h.closed, Bool.not_true, Bool.false_eq_true, if_false]
  refine (hclasses _ rfl).bind fun {image} _ => ?_
  refine Ends.bind (ends_mapM fun id hid => ?_) fun {builtins} _ => trivial
  obtain ⟨b, hb⟩ := h.builtins id hid
  simp only [hb]
  cases hlink : builtinLink plan.registry b with
  | error e => exact .builtin hid hb hlink
  | ok link => trivial

/-- When an image was built, nothing stood in the way. -/
theorem not_obstacle_of_build {plan : Plan} {image : Image} (hok : build plan = .ok image)
    {e : Failure} : ¬ Obstacle plan e := by
  obtain ⟨-, raw, links, hclasses, hbuiltins, -⟩ := build_eq_ok.mp hok
  intro hobstacle
  cases hobstacle with
  | native hmem hm he =>
      obtain ⟨u, v, hadded⟩ := exists_step_of_foldlM hclasses (List.mem_map_of_mem hmem)
      obtain ⟨natives, hnatives⟩ := nativeInfo_of_addClass hadded hm
      cases he.symm.trans hnatives
  | builtin hid hb he =>
      obtain ⟨link, -, hlink⟩ := forall₂_mem_left (except_mapM_ok hbuiltins) hid
      simp only [builtinAt, hb] at hlink
      cases he.symm.trans hlink

/-- An image fails to be built exactly when something stands in the way, and with its error. -/
theorem PlanSound.build_error {plan : Plan} (h : PlanSound plan) :
    ((∃ e, build plan = .error e) ↔ ∃ e, Obstacle plan e) ∧
      ∀ e, build plan = .error e → Obstacle plan e := by
  have hends := h.build_ends
  refine ⟨⟨?_, ?_⟩, fun e he => by rwa [he] at hends⟩
  · rintro ⟨e, he⟩
    rw [he] at hends
    exact ⟨e, hends⟩
  · rintro ⟨e, he⟩
    cases hbuild : build plan with
    | error e' => exact ⟨e', rfl⟩
    | ok image => exact absurd he (not_obstacle_of_build hbuild)

/-! ### Linked programs -/

section

variable {s : Source} {o : LinkOptions} {p : Program} {l : Linker} {cl : Class}
  {deps : List RefAddr} {r₁ : Registry} {row : Nat} {c₂ : Class}

theorem classSound_of_built (h : p.Built s o l cl deps r₁) (hrow : row ∈ p.registry.live)
    (hc₂ : p.registry.classAt? row = some c₂) : ClassSound p.registry c₂ := by
  refine ⟨?_, fun m hm => ⟨kept_of_mem_methods h hrow hc₂ hm, h.code_length hrow hc₂ hm, ?_⟩⟩
  · unfold elementId
    split
    case isFalse => exact ⟨-1, rfl⟩
    case isTrue hobject =>
        rcases h.kind_cases hrow hc₂ with hother | hother | hother | ⟨-, q, hq, -⟩
        · cases hother.symm.trans hobject
        · cases hother.symm.trans hobject
        · cases hother.symm.trans hobject
        · obtain ⟨-, cq, hcq, -⟩ := h.exists_of_find? hq
          rw [classId?, h.find?_eq, hq, Option.bind_some, hcq]
          exact ⟨cq.id, rfl⟩
  · intro handler hhandler
    unfold catchId
    split
    case isTrue => exact ⟨-1, rfl⟩
    case isFalse hslot =>
        obtain ⟨name, target, hfound⟩ := h.catch_found hrow hc₂ hm hhandler hslot
        rw [hfound]
        exact ⟨idOr target, rfl⟩

/-- A kept catalog entry exists, and its class is registered. -/
theorem exists_builtin (h : p.Built s o l cl deps r₁) {id : Nat} (hid : id ∈ p.builtins) :
    ∃ b, Builtin.lookup? id = some b ∧ l.BuiltinMet [] b := by
  rw [Builtin.lookup?_natCast]
  exact h.settled.complete.builtins (h.builtins_eq ▸ hid)

theorem planSound_of_built (h : p.Built s o l cl deps r₁) : PlanSound p.plan where
  closed := h.compactedTo.closed
  classes hmem := classSound_of_built h (mem_classes.mp hmem).1 (mem_classes.mp hmem).2
  consecutive := by
    obtain ⟨size, hsize⟩ := (h.compactedTo.placed h.placed).consecutive
    refine ⟨size, ?_⟩
    rw [flatMap_classes]
    exact hsize
  builtins id hid := by
    obtain ⟨n, hn, rfl⟩ := List.mem_map.mp hid
    obtain ⟨b, hb, -⟩ := exists_builtin h hn
    exact ⟨b, hb⟩

/-- No catalog entry is one of an array. -/
theorem not_bracket_of_lookup? {id : Int} {b : Builtin} (hb : Builtin.lookup? id = some b) :
    b.className.head? ≠ some (Text.byte '[') := by
  have hall : ∀ b ∈ Builtin.catalog, b.className.head? ≠ some (Text.byte '[') := by decide
  exact hall b (mem_catalog_of_lookup? hb)

/-- The class of a kept catalog entry was registered from the source. -/
theorem exists_builtinClass (h : p.Built s o l cl deps r₁) {id : Nat} (hid : id ∈ p.builtins)
    {b : Builtin} (hb : Builtin.lookup? id = some b) : ∃ q c₀ d,
      l.registry.find? b.className = some q ∧ l.registry.classAt? q = some c₀ ∧
        s.load b.className = .ok d ∧ c₀.signatures = d.signatures := by
  obtain ⟨b', hb', hmet⟩ := exists_builtin h hid
  cases hb.symm.trans hb'
  obtain ⟨q, hq⟩ := hmet.className
  have htidy := h.settled.wired.tidy
  obtain ⟨c₀, hc₀⟩ := htidy.wellFormed.exists_class (htidy.wellFormed.find_live hq)
  have hname := htidy.wellFormed.find_name hq hc₀
  rcases h.settled.wired.origin hc₀ with ⟨d, hload, hdesc⟩ | harray
  · exact ⟨q, c₀, d, hq, hc₀, hname ▸ hload, signatures_of_describes hdesc⟩
  · exact absurd (hname ▸ harray.bracket) (not_bracket_of_lookup? hb)

/-- The member of a kept catalog entry is in the program exactly when the class of the entry declares
it. -/
theorem declaresKept_builtin (h : p.Built s o l cl deps r₁) {id : Nat} (hid : id ∈ p.builtins)
    {b : Builtin} (hb : Builtin.lookup? id = some b) (hmember : b.isMember = true) {d : ClassDecl}
    (hload : s.load b.className = .ok d) :
    p.registry.DeclaresKept b.target ↔ b.target.sig ∈ d.signatures := by
  have hsig : ∀ b ∈ Builtin.catalog, b.target.sig ≠ Signature.startup := by decide
  rw [h.declaresKept_iff (hsig b (mem_catalog_of_lookup? hb))]
  obtain ⟨q, c₀, d', hq, hc₀, hload', hsame⟩ := exists_builtinClass h hid hb
  cases hload.symm.trans hload'
  rw [← hsame, ← Class.exists_declared?]
  constructor
  · rintro ⟨q', c', d, hq', hc', hd, -⟩
    cases hq.symm.trans hq'
    cases hc₀.symm.trans hc'
    exact ⟨d, hd⟩
  · rintro ⟨d, hd⟩
    obtain ⟨b', hb', hmet⟩ := exists_builtin h hid
    cases hb.symm.trans hb'
    rcases hmet.member hmember with hpending | ⟨q', d', hfind, c', d'', hc', hd', hkept⟩
    · cases hpending
    · -- The lookup ends in the class itself, so what is kept is its own member.
      cases (findMember_of_declared hq hc₀ hd).symm.trans hfind
      cases hc₀.symm.trans hc'
      exact ⟨q, c₀, d'', hq, hc₀, hd', hkept⟩

/-- A kept catalog entry has no place in the image exactly when it is one of a member that the class
of the entry does not declare. -/
theorem builtinLink_error (h : p.Built s o l cl deps r₁) {id : Nat} (hid : id ∈ p.builtins)
    {b : Builtin} (hb : Builtin.lookup? id = some b) {e : Failure} :
    builtinLink p.registry b = .error e ↔ b.isMember = true ∧
      (∃ d, s.load b.className = .ok d ∧ b.target.sig ∉ d.signatures) ∧
      e = .internal (.missingBuiltinMember b.name b.text) := by
  obtain ⟨q, c₀, d, hq, hc₀, hload, -⟩ := exists_builtinClass h hid hb
  obtain ⟨hlive, cq, hcq, -⟩ := h.exists_of_find? hq
  have hfind : p.registry.find? b.className = some q := (h.find?_eq _).trans hq
  -- The class in the end declares the member exactly when the source says so.
  have hdeclared : b.isMember = true →
      ((∃ decl, cq.declared? b.target.sig = some decl) ↔ b.target.sig ∈ d.signatures) := by
    intro hmember
    rw [← declaresKept_builtin h hid hb hmember hload]
    constructor
    · rintro ⟨decl, hdecl⟩
      have hkept := h.declaresKept_of_declared hlive hcq hdecl
      have hname : cq.name = b.className := by
        obtain ⟨c', hc', hsame, -⟩ := h.exists_registered hlive hcq
        rw [hsame]
        exact h.settled.wired.tidy.wellFormed.find_name hq hc'
      rwa [hname] at hkept
    · rintro ⟨q', c', decl, hq', hc', hdecl, -⟩
      cases hfind.symm.trans hq'
      cases hcq.symm.trans hc'
      exact ⟨decl, hdecl⟩
  unfold builtinLink
  rw [hfind, Option.bind_some, hcq]
  cases hmember : b.isMember with
  | false => simp only [Bool.false_eq_true, if_false, reduceCtorEq, false_and]
  | true =>
      specialize hdeclared hmember
      simp only [if_true, true_and]
      cases hd : cq.declared? b.target.sig with
      | some decl =>
          rw [show cq.declared? ⟨b.member, b.descriptor⟩ = some decl from hd]
          simp only [reduceCtorEq, false_iff]
          rintro ⟨⟨d', hload', hnone⟩, -⟩
          cases hload.symm.trans hload'
          exact hnone (hdeclared.mp ⟨decl, hd⟩)
      | none =>
          have hnone : b.target.sig ∉ d.signatures := by
            intro hmem
            obtain ⟨decl, hdecl⟩ := hdeclared.mpr hmem
            cases hd.symm.trans hdecl
          rw [show cq.declared? ⟨b.member, b.descriptor⟩ = none from hd]
          simp only [Except.error.injEq]
          constructor
          · rintro rfl
            exact ⟨⟨d, hload, hnone⟩, rfl⟩
          · rintro ⟨-, rfl⟩
            rfl

end

end Image

namespace Program

open Image

/-- A native method of a program has a descriptor that cannot be read, which is reported as an
error. -/
def MalformedNative (p : Program) (e : Failure) : Prop :=
  ∃ row c m fault, (row, c) ∈ p.registry.classes ∧ m ∈ c.methods ∧ m.kept = true ∧
    m.kind = .native ∧ MethodType.read m.sig.descriptor = .error fault ∧
    e = .error (.within ("native " ++ c.name ++ "." ++ m.sig.name) (.descriptor fault))

/-- A kept catalog entry of a program is one of a member that the class of the entry does not
declare, which is reported as an error. -/
def UndeclaredBuiltin (s : Source) (p : Program) (e : Failure) : Prop :=
  ∃ id b d, id ∈ p.builtins ∧ Builtin.lookup? (id : Nat) = some b ∧ b.isMember = true ∧
    s.load b.className = .ok d ∧ b.target.sig ∉ d.signatures ∧
    e = .internal (.missingBuiltinMember b.name b.text)

theorem obstacle_iff {s : Source} {o : LinkOptions} {p : Program} (hlink : link s o = .ok p)
    {e : Failure} : Obstacle p.plan e ↔ p.MalformedNative e ∨ p.UndeclaredBuiltin s e := by
  obtain ⟨l, c₀, deps, r₁, h⟩ := link_ok hlink
  constructor
  · rintro (⟨hmem, hm, he⟩ | ⟨hid, hb, he⟩)
    · obtain ⟨hnative, fault, hread, rfl⟩ := nativeInfo_error.mp he
      obtain ⟨hrow, hc⟩ := mem_classes.mp hmem
      exact .inl ⟨_, _, _, fault, hmem, hm, kept_of_mem_methods h hrow hc hm, hnative, hread, rfl⟩
    · obtain ⟨n, hn, rfl⟩ := List.mem_map.mp hid
      obtain ⟨hmember, ⟨d, hload, hnone⟩, rfl⟩ := (builtinLink_error h hn hb).mp he
      exact .inr ⟨n, _, d, hn, hb, hmember, hload, hnone, rfl⟩
  · rintro (⟨row, c, m, fault, hmem, hm, -, hnative, hread, rfl⟩ |
      ⟨n, b, d, hn, hb, hmember, hload, hnone, rfl⟩)
    · exact .native hmem hm (nativeInfo_error.mpr ⟨hnative, fault, hread, rfl⟩)
    · exact .builtin (List.mem_map_of_mem hn) hb
        ((builtinLink_error h hn hb).mpr ⟨hmember, ⟨d, hload, hnone⟩, rfl⟩)

/-- The image of a linked program fails to be built exactly when one of its native methods has a
descriptor that cannot be read or one of its kept catalog entries is one of a member that the class
of the entry does not declare, and it fails with such an error: none of the checks of code offsets,
of handlers, of array elements and of the classes of catalog entries ever fails. -/
theorem image_error (s : Source) (o : LinkOptions) (p : Program) (hlink : link s o = .ok p) :
    ((∃ e, p.image = .error e) ↔ ∃ e, p.MalformedNative e ∨ p.UndeclaredBuiltin s e) ∧
      ∀ e, p.image = .error e → (p.MalformedNative e ∨ p.UndeclaredBuiltin s e) ∧
        (∀ m offset size, e ≠ .internal (.codeOffset m offset size)) ∧
        (∀ m slot, e ≠ .internal (.unresolvedCatch m slot)) ∧
        (∀ name id element, e ≠ .internal (.missingElement name id element)) ∧
        ∀ name, e ≠ .internal (.missingBuiltinClass name) := by
  obtain ⟨l, c₀, deps, r₁, h⟩ := link_ok hlink
  obtain ⟨hiff, herror⟩ := (planSound_of_built h).build_error
  refine ⟨hiff.trans (exists_congr fun e => obstacle_iff hlink), fun e he => ?_⟩
  have hobstacle := (obstacle_iff hlink).mp (herror e he)
  refine ⟨hobstacle, ?_⟩
  rcases hobstacle with ⟨_, _, _, _, -, -, -, -, -, rfl⟩ | ⟨_, _, _, -, -, -, -, -, rfl⟩
  · simp [Failure.internal]
  · simp [Failure.internal]

/-- A program with a native method of an unknown result type. -/
def unreadableSource : Source := .ofDecls [
  .bareRoot,
  .simple false "Main" RuntimeSeeds.defaultRoot []
    [.simple "main" true [0xB1],
     { MethodDecl.simple "peek" true [] with
       descriptor := "()Q", isNative := true, isAbstract := false }] []]

/-- Options that keep the native method. -/
def unreadableOptions : LinkOptions := { bareOptions with required := [⟨"Main", "peek", "()Q"⟩] }

/-- Whether the image fails at the descriptor of that method. -/
def unreadablePeek (p : Program) : Bool :=
  match p.image with
  | .error (.error (.within place (.descriptor _))) => decide (place = "native Main.peek")
  | _ => false

theorem image_error_unreadable : ∃ p fault, link unreadableSource unreadableOptions = .ok p ∧
    p.image = .error (.error (.within "native Main.peek" (.descriptor fault))) ∧
    ∃ e, p.MalformedNative e ∨ p.UndeclaredBuiltin unreadableSource e := by
  have hcheck : (link unreadableSource unreadableOptions).toOption.any unreadablePeek = true := by
    decide +kernel
  cases hlink : link unreadableSource unreadableOptions with
  | error e => simp [hlink, Except.toOption] at hcheck
  | ok p =>
      simp only [hlink, Except.toOption, Option.any_some, unreadablePeek] at hcheck
      split at hcheck
      · rename_i place fault himage
        obtain rfl := of_decide_eq_true hcheck
        exact ⟨p, fault, rfl, himage, (image_error _ _ p hlink).1.mp ⟨_, himage⟩⟩
      · cases hcheck

end Program

end ClassLinker
