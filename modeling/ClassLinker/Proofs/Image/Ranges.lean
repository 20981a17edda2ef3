import ClassLinker.Proofs.Image.Closed
import ClassLinker.Proofs.Image.Trace
import ClassLinker.Proofs.Program.Constants

/-! The layout of an image. The code of the methods that have any stands in the image without gaps, in
the order of the classes and of their declaration; the native methods are counted in that order; and
the pcs of lines and handlers are those of their methods, moved to where the code of the method
starts. Linking gives the places out and the image is put together by another walk, which checks
every place where it puts code. -/

namespace ClassLinker

open Layout

/-- Only native methods have a native index. -/
def Class.NativePlaced (c : Class) : Prop :=
  ∀ m ∈ c.methods, m.nativeIndex ≠ none → m.kind = .native

theorem Class.nativePlaced_congr {c c' : Class} (h : c'.unnumbered = c.unnumbered)
    (hc : c.NativePlaced) : c'.NativePlaced := by
  intro m hm hindex
  have hm' : { m with linkId := none } ∈ c.unnumbered := h ▸ List.mem_map_of_mem hm
  obtain ⟨m₀, hm₀, heq⟩ := List.mem_map.mp hm'
  have hplace : m₀.nativeIndex = m.nativeIndex := by injection heq
  have hkind : m₀.kind = m.kind := by injection heq
  rw [← hkind]
  exact hc m₀ hm₀ (hplace ▸ hindex)

theorem Layout.placeCode_native (offset native : Nat) (ms : List Method) :
    ∀ m ∈ (placeCode offset native ms).1, m.nativeIndex ≠ none → m.kind = .native := by
  induction ms generalizing offset native with
  | nil => exact fun m hm => absurd hm List.not_mem_nil
  | cons m ms ih =>
      unfold placeCode
      split
      · refine List.forall_mem_cons.mpr ⟨fun hindex => ?_, ih _ _⟩
        by_contra hkind
        exact hindex (if_neg hkind)
      · exact List.forall_mem_cons.mpr ⟨fun hindex => absurd rfl hindex, ih _ _⟩

namespace Registry

theorem layCode_nativePlaced {rows : List Nat} (offset native : Nat) (r : Registry)
    (hnodup : rows.Nodup) :
    ∀ row ∈ rows, ∀ {c}, (layCode offset native rows r).classAt? row = some c → c.NativePlaced := by
  induction rows generalizing offset native r with
  | nil => exact fun row hrow => absurd hrow List.not_mem_nil
  | cons p rows ih =>
      obtain ⟨hnew, hnodup⟩ := List.nodup_cons.mp hnodup
      unfold layCode
      cases hp : r.classAt? p with
      | none =>
          refine List.forall_mem_cons.mpr ⟨fun {c} hc => ?_, ih _ _ _ hnodup⟩
          cases ((classAt?_layCode_of_not_mem hnew).trans hp).symm.trans hc
      | some c =>
          refine List.forall_mem_cons.mpr ⟨fun {c'} hc' => ?_, ih _ _ _ hnodup⟩
          -- The other rows leave the class alone.
          rw [classAt?_layCode_of_not_mem hnew, classAt?_modifyClass, if_pos rfl, hp,
            Option.map_some] at hc'
          cases hc'
          exact placeCode_native _ _ _

/-- Linking gives no index to a method that is not native. -/
theorem link_nativePlaced {r r' : Registry} (hnodup : r.keptRows.Nodup)
    (hok : link r = .ok () r') {row : Nat} {c : Class} (hrow : row ∈ r.keptRows)
    (hc : r'.classAt? row = some c) : c.NativePlaced := by
  obtain ⟨-, -, l, hrun, rfl⟩ := link_ok.mp hok
  have hresolves : Resolves r r.layOut l := by
    refine Step.forM_preserves (P := Resolves r r.layOut) ?_ (.refl r _) hrun
    intro row _ u v hu hstep
    exact hu.trans (resolveRefs_resolves ((layOut_spec r).1.trans hu.laid) hstep).1
  have hsame := (layOut_samePlaces r).trans hresolves.samePlaces row
  rw [show l.classAt? row = some c from hc, Option.map_some] at hsame
  obtain ⟨c₀, hc₀, hplaces⟩ := Option.map_eq_some_iff.mp hsame.symm
  exact Class.nativePlaced_congr hplaces.symm (layCode_nativePlaced 0 0 r hnodup row hrow hc₀)

end Registry

open Registry InitOrder

/-- In a linked program only native methods have an index. -/
theorem Program.native_of_index {s : Source} {o : LinkOptions} {p : Program}
    (hlink : link s o = .ok p) {row : Nat} {c : Class} (hrow : row ∈ p.registry.live)
    (hc : p.registry.classAt? row = some c) : c.NativePlaced := by
  obtain ⟨-, l, order, entryRow, r, r₁, r₂, hresolve, horder, hadded, hrun, hcompact, rfl⟩ :=
    link_eq_ok.mp hlink
  obtain ⟨_, _, hbuilt⟩ := exists_built hresolve horder hadded hrun hcompact
  obtain ⟨c₁, hkept, hc₁, hcompacted⟩ := hbuilt.compactedTo.exists_old hrow hc
  have hrows : r₁.keptRows = r.keptRows := (link_spec hrun).laid.keptRows_eq
  have hnodup : r.keptRows.Nodup := hrows ▸ hbuilt.wellFormed.keptRows_nodup
  have hplaced := link_nativePlaced hnodup hrun (hrows ▸ hkept) hc₁
  intro m hm hindex
  obtain ⟨m₁, hm₁, hrelocates⟩ := forall₂_mem_right hcompacted.methods hm
  rw [hrelocates.frame] at hindex ⊢
  exact hplaced m₁ (List.mem_of_mem_filter hm₁) hindex

namespace Image

/-! ### Code and handlers -/

/-- Those of some methods that have code. -/
def coded (methods : List (Class × Method)) : List (Class × Method) :=
  methods.filter fun p => p.2.hasCode

/-- The handlers of those of some methods that have code, each with its class and its method. -/
def handlersOf (methods : List (Class × Method)) : List (Class × Method × Handler) :=
  (coded methods).flatMap fun p => p.2.handlers.map (p.1, p.2, ·)

/-- The code ranges of some methods fill the room from one offset to another in their order. -/
inductive Adjacent : Int → List MethodInfo → Int → Prop where
  | nil (start : Int) : Adjacent start [] start
  | cons {start stop : Int} {m : MethodInfo} {ms : List MethodInfo} (hstart : m.codeOffset = start)
      (hrest : Adjacent (m.codeOffset + m.codeLength) ms stop) : Adjacent start (m :: ms) stop

theorem Adjacent.append {start middle stop : Int} {ms ms' : List MethodInfo}
    (h : Adjacent start ms middle) (h' : Adjacent middle ms' stop) :
    Adjacent start (ms ++ ms') stop := by
  induction h with
  | nil start => exact h'
  | cons hstart _ ih => exact .cons hstart (ih h')

/-- A handler in the image is one of a method, with its pcs counted from the start of the image. The
sums are those of 64-bit integers. -/
structure Moves (r : Registry) (info : HandlerInfo) (c : Class) (m : Method)
    (h : Handler) : Prop where
  classId_eq : info.classId = c.id
  start_eq : info.start = wordAdd (methodInfo m).codeOffset h.start
  stop_eq : info.stop = wordAdd (methodInfo m).codeOffset h.stop
  target_eq : info.target = wordAdd (methodInfo m).codeOffset h.target
  catchId_eq : catchId r c m h = .ok info.catchId

/-- The part of an image that the code and the handlers of some methods went into. -/
structure Gathered (r : Registry) (methods : List (Class × Method)) (image : Image) : Prop where
  adjacent : Adjacent 0 ((coded methods).map fun p => methodInfo p.2) image.code.length
  handlers : List.Forall₂ (fun q info => Moves r info q.1 q.2.1 q.2.2)
    (handlersOf methods) image.handlers

/-- A method without code adds neither code nor handlers; the code of any other one starts where the
code before it ends. -/
theorem addMethod_places {r : Registry} {c : Class} {m : Method} {image image' : Image}
    (hok : addMethod r c image m = .ok image') :
    (m.hasCode = false ∧ image'.code = image.code ∧ image'.handlers = image.handlers) ∨
      ∃ handlers, m.hasCode = true ∧ (methodInfo m).codeOffset = image.code.length ∧
        image'.code = image.code ++ m.code ∧ image'.handlers = image.handlers ++ handlers ∧
        List.Forall₂ (fun h info => Moves r info c m h) m.handlers handlers := by
  obtain ⟨natives, -, ⟨hcode, rfl⟩ | ⟨handlers, hcode, hoffset, hhandlers, rfl⟩⟩ := addMethod_ok hok
  · exact .inl ⟨hcode, rfl, rfl⟩
  · refine .inr ⟨handlers, hcode, ?_, rfl, rfl, hhandlers.imp ?_⟩
    · rw [methodInfo, hoffset]
      rfl
    · rintro h info ⟨id, hid, rfl⟩
      exact ⟨rfl, rfl, rfl, rfl, hid⟩

namespace Gathered

variable {r : Registry} {methods : List (Class × Method)} {image image' : Image} {c : Class}

theorem addMethod (h : Gathered r methods image) {m : Method}
    (hok : Image.addMethod r c image m = .ok image') : Gathered r (methods ++ [(c, m)]) image' := by
  have hcoded : ∀ {b}, m.hasCode = b →
      coded (methods ++ [(c, m)]) = coded methods ++ bif b then [(c, m)] else [] := by
    intro b hb
    rw [coded, List.filter_append, List.filter_singleton, hb]
    rfl
  rcases addMethod_places hok with ⟨hcode, hsame, hhandlers⟩ |
    ⟨handlers, hcode, hoffset, hmore, hhandlers, hmoves⟩
  · have hcoded : coded (methods ++ [(c, m)]) = coded methods := by
      rw [hcoded hcode]
      exact List.append_nil _
    refine ⟨?_, ?_⟩
    · rw [hcoded, hsame]
      exact h.adjacent
    · rw [handlersOf, hcoded, hhandlers]
      exact h.handlers
  · have hcoded : coded (methods ++ [(c, m)]) = coded methods ++ [(c, m)] := hcoded hcode
    refine ⟨?_, ?_⟩
    · rw [hcoded, List.map_append, hmore, List.length_append, Int.natCast_add]
      have hlast : Adjacent image.code.length [methodInfo m] (image.code.length + m.code.length) :=
        .cons hoffset (hoffset ▸ .nil _)
      exact h.adjacent.append hlast
    · rw [handlersOf, hcoded, List.flatMap_append, List.flatMap_singleton, hhandlers]
      exact List.rel_append h.handlers (List.forall₂_map_left_iff.mpr hmoves)

end Gathered

/-- The code and the handlers of an image are those of the methods. -/
theorem gathered_of_build {plan : Plan} {image : Image} (hbuild : build plan = .ok image) :
    Gathered plan.registry (methodsOf (plan.registry.classes.map Prod.snd)) image := by
  obtain ⟨-, raw, builtins, hclasses, -, rfl⟩ := build_eq_ok.mp hbuild
  have hstart : Gathered plan.registry [] plan.bare := ⟨.nil 0, .nil⟩
  have hall := foldlM_addClass_accumulates (P := fun _ => Gathered plan.registry) hstart
    (fun h hm => h.addMethod hm) (fun h _ => ⟨h.adjacent, h.handlers⟩) hclasses
  exact ⟨hall.adjacent, hall.handlers⟩

/-! ### The layout -/

/-- The methods of a registry, in the order of the classes and of their declaration. -/
def methodsIn (r : Registry) : List (Class × Method) := methodsOf (r.classes.map Prod.snd)

/-- How an image lays out the methods of a registry. The sums are those of 64-bit integers. -/
structure LaysOut (r : Registry) (image : Image) : Prop where
  /-- The classes are in the order of their ids. -/
  ids : ∀ {i row : Nat} {c : Class}, r.classes[i]? = some (row, c) → c.id = i
  described : List.Forall₂ (fun p info => info.id = p.2.id ∧
    info.methods.Perm (p.2.methods.map methodInfo)) r.classes image.classes
  kept : ∀ p ∈ methodsIn r, p.2.kept = true
  /-- The ranges of the methods with code fill the code of the image. -/
  adjacent : Adjacent 0 ((coded (methodsIn r)).map fun p => methodInfo p.2) image.code.length
  /-- The rewritten code of a method stands in its range. -/
  code : ∀ p ∈ coded (methodsIn r), image.codeOf (methodInfo p.2) = p.2.code ∧
    Code.relocate (r.compactSlot p.1.id) p.2.rawCode = .ok p.2.code
  bare : ∀ p ∈ methodsIn r, p.2.hasCode = false →
    (methodInfo p.2).codeOffset = -1 ∧ (methodInfo p.2).codeLength = 0
  natives : (((methodsIn r).filter fun p => p.2.kind = .native).map fun p =>
    (methodInfo p.2).nativeIndex) =
      (List.range ((methodsIn r).filter fun p => p.2.kind = .native).length).map Int.ofNat
  others : ∀ p ∈ methodsIn r, p.2.kind ≠ .native → (methodInfo p.2).nativeIndex = -1
  /-- Every handler comes from a method with code, and they stay in order. -/
  handlers : List.Forall₂ (fun q info => Moves r info q.1 q.2.1 q.2.2)
    (handlersOf (methodsIn r)) image.handlers
  /-- The lines are sorted by pc. -/
  sorted : image.lines.Pairwise fun a b => a.pc ≤ b.pc
  /-- The lines with one pc are those that the methods have there, in their order. -/
  lines : ∀ pc, image.lines.filter (fun l => l.pc = pc) =
    ((coded (methodsIn r)).flatMap fun p => p.2.lines.map fun mark =>
      LineInfo.mk (wordAdd (methodInfo p.2).codeOffset mark.pc) mark.line
        (p.1.member p.2.sig).text).filter fun l => l.pc = pc

theorem linesOf_eq (r : Registry) : linesOf (r.classes.map Prod.snd) =
    (coded (methodsIn r)).flatMap fun p => p.2.lines.map fun mark =>
      LineInfo.mk (wordAdd (methodInfo p.2).codeOffset mark.pc) mark.line
        (p.1.member p.2.sig).text := by
  rw [linesOf, coded, methodsIn]
  induction methodsOf (r.classes.map Prod.snd) with
  | nil => rfl
  | cons p methods ih =>
      rw [List.flatMap_cons, ih, methodLines]
      cases hcode : p.2.hasCode with
      | false =>
          rw [List.filter_cons_of_neg (by simp [hcode])]
          rfl
      | true =>
          rw [List.filter_cons_of_pos (by simp [hcode]), List.flatMap_cons]
          rfl

section

variable {s : Source} {o : LinkOptions} {p : Program} {l : Linker} {c : Class}
  {deps : List RefAddr} {r₁ : Registry} {image : Image}

theorem mem_methodsIn {r : Registry} {q : Class × Method} (hq : q ∈ methodsIn r) :
    ∃ row ∈ r.live, r.classAt? row = some q.1 ∧ q.2 ∈ q.1.methods := by
  obtain ⟨row, hmem, hm⟩ :=
    mem_methodsOf.mp (show (q.1, q.2) ∈ methodsOf (r.classes.map Prod.snd) from hq)
  obtain ⟨hrow, hc⟩ := mem_classes.mp hmem
  exact ⟨row, hrow, hc, hm⟩

/-- The code of a method stands where its description says. -/
theorem codeOf_methodInfo (hb : BuiltFrom p.plan image) {row : Nat} {c₂ : Class} {m : Method}
    (hrow : row ∈ p.registry.live) (hc₂ : p.registry.classAt? row = some c₂) (hm : m ∈ c₂.methods)
    (hcode : m.hasCode = true) : image.codeOf (methodInfo m) = m.code := by
  obtain ⟨before, after, hbefore, hall⟩ := hb.code (mem_classes.mpr ⟨hrow, hc₂⟩) hm hcode
  rw [codeOf, show (methodInfo m).codeOffset = idOr m.codeOffset from rfl,
    show (methodInfo m).codeLength = m.code.length from rfl, hbefore, hall, List.append_assoc, idOr,
    Int.toNat_natCast, Int.toNat_natCast, List.drop_left, List.take_left]

/-- The code of a method is its declared code with the final slots. -/
theorem relocated_code (h : p.Built s o l c deps r₁) {row : Nat} {c₂ : Class} {m : Method}
    (hrow : row ∈ p.registry.live) (hc₂ : p.registry.classAt? row = some c₂) (hm : m ∈ c₂.methods)
    (hcode : m.hasCode = true) :
    Code.relocate (p.registry.compactSlot c₂.id) m.rawCode = .ok m.code := by
  obtain ⟨c₀, c₁, -, -, -, -, hcompacted⟩ := h.exists_origin hrow hc₂
  obtain ⟨m₁, -, hrelocates⟩ := forall₂_mem_right hcompacted.methods hm
  have hcode₁ : m₁.hasCode = true := by rwa [hrelocates.frame] at hcode
  rw [Relocates, if_pos hcode₁] at hrelocates
  obtain ⟨code, hrelocate, rfl⟩ := hrelocates
  exact hrelocate

end

end Image

namespace Program

open Image

/-- The image of a linked program lays out its methods. -/
theorem image_laysOut (s : Source) (o : LinkOptions) (p : Program) (image : Image)
    (hlink : link s o = .ok p) (himage : p.image = .ok image) : image.LaysOut p.registry := by
  obtain ⟨l, c, deps, r₁, h⟩ := link_ok hlink
  have hb := build_ok himage
  have hgathered := gathered_of_build himage
  constructor
  case ids =>
    intro i row c₂ hi
    rw [getElem?_classes fun row hrow => h.exists_class hrow] at hi
    obtain ⟨row', hrow', hclass⟩ := Option.bind_eq_some_iff.mp hi
    obtain ⟨c₂', hc₂', hpair⟩ := Option.map_eq_some_iff.mp hclass
    cases hpair
    exact h.compactedTo.id_eq h.wellFormed hrow' hc₂'
  case described => exact hb.infos.imp fun q info hinfo => ⟨hinfo.id_eq, hinfo.methods_perm⟩
  case kept =>
    intro q hq
    obtain ⟨row, hrow, hc, hm⟩ := mem_methodsIn hq
    obtain ⟨_, _, -, -, -, -, hcompacted⟩ := h.exists_origin hrow hc
    obtain ⟨m₁, hm₁, hrelocates⟩ := forall₂_mem_right hcompacted.methods hm
    rw [hrelocates.frame]
    exact (List.mem_filter.mp hm₁).2
  case adjacent => exact hgathered.adjacent
  case code =>
    intro q hq
    obtain ⟨hq, hcode⟩ := List.mem_filter.mp hq
    obtain ⟨row, hrow, hc, hm⟩ := mem_methodsIn hq
    exact ⟨codeOf_methodInfo hb hrow hc hm hcode, relocated_code h hrow hc hm hcode⟩
  case bare =>
    intro q hq hcode
    obtain ⟨row, hrow, hc, hm⟩ := mem_methodsIn hq
    have hplaced := (h.compactedTo.placed h.placed).codePlaced hrow hc q.2 hm
    have hnone : q.2.codeOffset = none := by
      by_contra hsome
      rw [hplaced hsome] at hcode
      cases hcode
    refine ⟨by rw [methodInfo, hnone]; rfl, ?_⟩
    rw [methodInfo, h.code_eq_nil hrow hc hm hcode]
    rfl
  case natives =>
    obtain ⟨n, hn⟩ := native_indices h
    have hlength := congrArg List.length hn
    rw [List.length_map, List.length_map, List.length_range] at hlength
    rw [methodsIn, hlength]
    exact hn
  case others =>
    intro q hq hkind
    obtain ⟨row, hrow, hc, hm⟩ := mem_methodsIn hq
    have hnone : q.2.nativeIndex = none := by
      by_contra hsome
      exact hkind (native_of_index hlink hrow hc q.2 hm hsome)
    rw [methodInfo, hnone]
    rfl
  case handlers => exact hgathered.handlers
  case sorted => exact sorted_of_build himage
  case lines =>
    intro pc
    rw [lines_of_build himage, filter_mergeSort_key LineInfo.pc]
    exact congrArg _ (linesOf_eq p.registry)

/-- A program with a native method, an exception handler and source lines that are not in order. -/
def placedSource : Source := .ofDecls [
  .bareRoot,
  .simple false "A" RuntimeSeeds.defaultRoot []
    [{ MethodDecl.simple "peek" true [] with isNative := true, isAbstract := false },
     { MethodDecl.simple "run" true [0x01, 0x57, 0xB1] with
       lines := [⟨2, 8⟩, ⟨0, 7⟩], handlers := [⟨0, 2, 2, 0⟩] }] [],
  .simple false "Main" RuntimeSeeds.defaultRoot []
    [{ MethodDecl.simple "main" true [0xB1] with lines := [⟨0, 3⟩] }] []]

/-- Options that keep the methods of the program. -/
def placedOptions : LinkOptions :=
  { bareOptions with required := [⟨"A", "peek", "()V"⟩, ⟨"A", "run", "()V"⟩] }

theorem image_laysOut_placed : ∃ p image, link placedSource placedOptions = .ok p ∧
    p.image = .ok image ∧ image.code.length = 8 ∧
    image.handlers = [⟨2, 5, 7, 7, -1⟩] ∧
    (methodsIn p.registry).map (fun q => (q.2.codeOffset, q.2.nativeIndex)) =
      [(some 0, none), (some 1, none), (none, some 0), (some 5, none)] ∧
    image.LaysOut p.registry := by
  obtain ⟨p, image, hlink, himage, hcode, hhandlers, hplaces⟩ :=
    exists_image_of_check placedSource placedOptions
      (fun p image => image.code.length = 8 ∧ image.handlers = [⟨2, 5, 7, 7, -1⟩] ∧
        (methodsIn p.registry).map (fun q => (q.2.codeOffset, q.2.nativeIndex)) =
          [(some 0, none), (some 1, none), (none, some 0), (some 5, none)]) (by decide +kernel)
  exact ⟨p, image, hlink, himage, hcode, hhandlers, hplaces,
    image_laysOut placedSource placedOptions p image hlink himage⟩

end Program

end ClassLinker
